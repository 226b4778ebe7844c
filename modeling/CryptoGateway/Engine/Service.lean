import CryptoGateway.Engine.Sections

/-!
A service: programs that keep a specification, started on an empty system. What the permitted
effects keep holds in every store its runs reach.
-/
namespace Engine

/-- One transaction, committed to a store where it is permitted. -/
def Spec.Moves {DB W R T : Type} [Store DB W R] (spec : Spec DB W R T) (db db' : DB) : Prop :=
  spec.inv db ∧ ∃ log ws, spec.eff log db ws ∧ db' = applyAll ws db

theorem Persists.moves {DB W R T τ : Type} [Store DB W R] {spec : Spec DB W R T}
    {view : DB → Option τ} (persists : Persists (W := W) view) {db db' : DB} {v : τ}
    (path : Relation.ReflTransGen spec.Moves db db') (now : view db = some v) :
    view db' = some v := by
  induction path with
  | refl => exact now
  | tail _ move ih =>
    obtain ⟨_, _, ws, _, rfl⟩ := move
    exact persists.applyAll ih ws

structure Service (DB W R T ε α Q : Type) [DecidableEq R] [Store DB W R] : Type 1 where
  spec : Spec DB W R T
  program : Q → Proc DB W R T ε α
  init : System DB W R T ε α
  safe : ∀ q db, spec.inv db →
    wp spec (program q) (fun _ _ => True) (fun _ _ => True) ⟨[], [], [], db⟩
  sane : spec.inv init.db
  idle : init.sessions = []

namespace Service
variable {DB W R T ε α Q : Type} [DecidableEq R] [Store DB W R]
  {service : Service DB W R T ε α Q} {allow : System DB W R T ε α → Event Q → Prop}
  {s : System DB W R T ε α}

abbrev Reached (service : Service DB W R T ε α Q) (allow : System DB W R T ε α → Event Q → Prop)
    (s : System DB W R T ε α) : Prop :=
  System.Reach service.program allow service.init s

section Reached
variable (service)

theorem keeps {P : DB → Prop} (reached : service.Reached allow s) (start : P service.init.db)
    (keep : ∀ s e log ws, service.Reached allow s → allow s e → s.committing e = some (log, ws) →
      service.spec.inv s.db → service.spec.eff log s.db ws → P s.db → P (applyAll ws s.db)) :
    P s.db := (Reach.store_invariant service.safe service.sane service.idle start keep reached).1

theorem sound (reached : service.Reached allow s) : Sound service.spec s :=
  (Reach.store_invariant service.safe service.sane service.idle (P := fun _ => True) trivial
    (fun _ _ _ _ _ _ _ _ _ _ => trivial) reached).2

theorem keeps_ordered {P : DB → Prop} {Rel : DB → DB → Prop}
    (reached : service.Reached allow s) (start : P service.init.db) (refl : ∀ db, P db → Rel db db)
    (keep : ∀ s e log ws, service.Reached allow s → allow s e → s.committing e = some (log, ws) →
      service.spec.inv s.db → service.spec.eff log s.db ws → P s.db → (∀ x ∈ log, Rel x.2.db s.db) →
      (log.Pairwise fun newer older => Rel older.2.db newer.2.db) →
      P (applyAll ws s.db) ∧ ∀ d, Rel d s.db → Rel d (applyAll ws s.db)) :
    P s.db ∧ (s.Remembers fun m => Rel m.db s.db) ∧ s.Ordered Rel := by
  induction reached with
  | refl =>
    exact ⟨start, by simp [System.Remembers, service.idle], by simp [System.Ordered, service.idle]⟩
  | @step s s' e before taken allowed ih =>
    obtain ⟨holds, past, ordered⟩ := ih
    have here := refl s.db holds
    have seen : s'.Remembers fun m => Rel m.db s.db := past.step taken here here
    rcases System.step_db taken with ⟨_, same⟩ | ⟨log, ws, commits, moved⟩
    · rw [same]
      exact ⟨holds, seen, ordered.step past taken⟩
    · obtain ⟨holds', later⟩ := keep s e log ws before allowed commits (service.sound before).inv
        ((service.sound before).effect commits) holds (past.committing commits)
        (ordered.committing commits)
      rw [moved]
      exact ⟨holds', seen.mono fun m => later m.db, ordered.step past taken⟩

theorem keeps_later {P : DB → Prop} (reached : service.Reached allow s) (now : P s.db)
    (keep : ∀ s e log ws, service.Reached allow s → allow s e → s.committing e = some (log, ws) →
      service.spec.eff log s.db ws → P s.db → P (applyAll ws s.db)) {s' : System DB W R T ε α}
    (later : System.Reach service.program allow s s') : P s'.db := by
  induction later with
  | refl => exact now
  | step before taken allowed ih =>
    rcases System.step_db taken with ⟨_, same⟩ | ⟨log, ws, commits, moved⟩
    · rw [same]; exact ih
    · rw [moved]
      have between := reached.trans before
      exact keep _ _ log ws between allowed commits ((service.sound between).effect commits) ih

/-- Statements interleave, yet the store only moves by whole permitted transactions. -/
theorem moves (reached : service.Reached allow s) {s' : System DB W R T ε α}
    (later : System.Reach service.program allow s s') :
    Relation.ReflTransGen service.spec.Moves s.db s'.db := by
  induction later with
  | refl => exact .refl
  | step before taken _ ih =>
    rcases System.step_db taken with ⟨_, same⟩ | ⟨log, ws, commits, moved⟩
    · rw [same]; exact ih
    · have sound := service.sound (reached.trans before)
      exact ih.tail ⟨sound.inv, log, ws, sound.effect commits, moved⟩

end Reached

/-- Session `i` was started for the request, earlier in the run. -/
def Serves (service : Service DB W R T ε α Q) (allow : System DB W R T ε α → Event Q → Prop)
    (request : Q) (s : System DB W R T ε α) (i : Nat) : Prop :=
  ∃ before after, service.Reached allow before ∧ allow before (.spawn request) ∧
    before.step service.program (.spawn request) = some after ∧ i = before.sessions.length ∧
    System.Reach service.program allow after s

section Serves
variable {request : Q} {i : Nat}

theorem Serves.reached (serves : service.Serves allow request s i) : service.Reached allow s := by
  obtain ⟨before, after, reached, allowed, taken, _, later⟩ := serves
  exact .trans (.step reached taken allowed) later

theorem Serves.later (serves : service.Serves allow request s i) {s' : System DB W R T ε α}
    (later : System.Reach service.program allow s s') : service.Serves allow request s' i := by
  obtain ⟨before, after, reached, allowed, taken, same, reach⟩ := serves
  exact ⟨before, after, reached, allowed, taken, same, reach.trans later⟩

theorem Serves.shows_ (serves : service.Serves allow request s i)
    {J : Session DB W R T ε α → Prop} (start : J { code := some (service.program request) })
    (closed : ∀ c c', J c → c.Follows c' → J c') : s.Shows J i := by
  obtain ⟨before, after, _, _, taken, rfl, later⟩ := serves
  cases taken
  have spawned : System.Shows J { before with
      sessions := before.sessions ++ [{ code := some (service.program request) }] }
      before.sessions.length := ⟨_, by simp, start⟩
  exact spawned.reach closed later

theorem Serves.assured (serves : service.Serves allow request s i)
    {post : α → Log DB T → DB → Prop} {fault : ε → Log DB T → DB → Prop}
    (lasting : Lasting service.spec post fault)
    (ready : ∀ db, service.spec.inv db → wp service.spec (service.program request)
      (fun a c => post a c.log c.db) (fun e c => fault e c.log c.db) ⟨[], [], [], db⟩) :
    s.Shows (Assured service.spec post fault s.db) i := by
  obtain ⟨before, after, reached, allowed, taken, rfl, later⟩ := serves
  cases taken
  have started : service.Reached allow { before with
      sessions := before.sessions ++ [{ code := some (service.program request) }] } :=
    .step reached rfl allowed
  have safe : Assured service.spec post fault before.db
      { code := some (service.program request) } := by
    rintro _ ⟨⟩
    exact ready before.db (service.sound reached).inv
  exact safe.reach lasting (fun _ r => service.sound (started.trans r)) (by simp) later

theorem Serves.doing_in (serves : service.Serves allow request s i) {P : DB → Prop}
    {C : Log DB T → List W → Prop} {Q' : α → Log DB T → List W → Prop}
    {E : ε → Log DB T → List W → Prop} (all : ∀ s, service.Reached allow s → P s.db)
    (does : (service.program request).Does P C Q' E [] []) : s.Shows (·.Doing P C Q' E) i := by
  obtain ⟨before, after, reached, allowed, taken, rfl, later⟩ := serves
  cases taken
  have started : service.Reached allow { before with
      sessions := before.sessions ++ [{ code := some (service.program request) }] } :=
    .step reached rfl allowed
  have spawned : System.Shows (·.Doing P C Q' E) { before with
      sessions := before.sessions ++ [{ code := some (service.program request) }] }
      before.sessions.length :=
    ⟨{ code := some (service.program request) }, by simp, by simp, by rintro _ ⟨⟩; exact does⟩
  exact spawned.doing (fun _ r => all _ (started.trans r)) later

theorem Serves.doing (serves : service.Serves allow request s i)
    {C : Log DB T → List W → Prop} {Q' : α → Log DB T → List W → Prop}
    {E : ε → Log DB T → List W → Prop}
    (does : (service.program request).Does (fun _ => True) C Q' E [] []) :
    s.Shows (·.Doing (fun _ => True) C Q' E) i := serves.doing_in (fun _ _ => trivial) does

end Serves

section Schedules
variable (service : Service DB W R T ε α Q) (allow : System DB W R T ε α → Event Q → Prop)
  [∀ s e, Decidable (allow s e)]

def after (slices : List (Slice Q)) : System DB W R T ε α :=
  service.init.perform service.program allow slices

theorem after_reached (slices : List (Slice Q)) :
    service.Reached allow (service.after allow slices) := .perform slices .refl

theorem after_append (slices rest : List (Slice Q)) : service.after allow (slices ++ rest) =
      (service.after allow slices).perform service.program allow rest :=
  System.perform_append slices rest _

theorem after_later (slices rest : List (Slice Q)) :
    System.Reach service.program allow (service.after allow slices)
      (service.after allow (slices ++ rest)) := by
  rw [after_append]
  exact .perform rest .refl

theorem after_serves (slices rest : List (Slice Q)) (request : Q)
    (allowed : allow (service.after allow slices) (.spawn request)) :
    service.Serves allow request (service.after allow (slices ++ .start request :: rest))
      (service.after allow slices).sessions.length := by
  refine ⟨_, _, service.after_reached allow slices, allowed, rfl, rfl, ?_⟩
  rw [after_append, System.perform, System.allowedStep, if_pos allowed]
  exact .perform rest .refl

theorem after_run (slices : List (Slice Q)) {i : Nat} (t : Int)
    (allowed : allow (service.after allow slices) (.run i))
    (runs : ((service.after allow slices).step service.program (.run i)).isSome = true) :
    (service.after allow slices).step service.program (.run i) =
      some (service.after allow (slices ++ [.work i t 1])) := by
  rw [after_append]
  exact System.step_eq_work t allowed runs

end Schedules
end Service
end Engine
