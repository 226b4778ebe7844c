import CryptoGateway.Engine.Sections

/-!
Transactions behind a fence: a fact read under a shared lock, which whoever could end the fact
needs for itself, still holds when the writes are committed.
-/
namespace Engine

variable {DB W R T ε δ α β Q : Type}

namespace Proc

section Guards
variable [Store DB W R] {l : Lock R} {K : DB → Prop} {P E : Bool → List W → Prop}

/-- Writes are committed only where `K` was read under the lock `l` in the same
    transaction. The flag is up from that reading to the end of the transaction; `P` and
    `E` say how it stands, and what is written and not committed, at the end. -/
def Guards (l : Lock R) (K : DB → Prop) (P E : Bool → List W → Prop) :
    Bool → List W → Proc DB W R T ε α → Prop
  | up, ws, .done _ => P up ws
  | up, ws, .fail _ => E up ws
  | up, ws, .read _ _ next => ∀ b, (next b).Guards l K P E up ws
  | up, ws, .stmt _ exec next => ∀ seen newest grant, ∃ up',
      (up' = true → up = true ∨ ws = [] ∧ l ∈ required DB (exec seen newest grant) ∧ K newest) ∧
      (next (exec seen newest grant).value).Guards l K P E up'
        (ws ++ (exec seen newest grant).writes)
  | up, ws, .commit next => (ws ≠ [] → up = true) ∧ next.Guards l K P E false []
  | _, _, .rollback next => next.Guards l K P E false []
  | up, ws, .clock _ next => ∀ t, (next t).Guards l K P E up ws
  | up, ws, .fresh next => ∀ n, (next n).Guards l K P E up ws

variable {p : Proc DB W R T ε α} {up : Bool} {ws : List W} {f : α → Proc DB W R T ε β}

theorem Guards.ends {f : α → Proc DB W R T δ β} {g : ε → Proc DB W R T δ β}
    {P' E' : Bool → List W → Prop} (first : p.Guards l K P E up ws)
    (good : ∀ a up ws, P up ws → (f a).Guards l K P' E' up ws)
    (bad : ∀ e up ws, E up ws → (g e).Guards l K P' E' up ws) :
    (p.ends f g).Guards l K P' E' up ws := by
  induction p generalizing up ws with
  | done a => exact good a up ws first
  | fail e => exact bad e up ws first
  | read tag query next ih => exact fun b => ih b (first b)
  | stmt tag exec next ih =>
    intro seen newest grant
    obtain ⟨up', raised, later⟩ := first seen newest grant
    exact ⟨up', raised, ih _ later⟩
  | commit next ih => exact ⟨first.1, ih first.2⟩
  | rollback next ih => exact ih first
  | clock tag next ih => exact fun t => ih t (first t)
  | fresh next ih => exact fun n => ih n (first n)

theorem Guards.bind {P' : Bool → List W → Prop} (first : p.Guards l K P E up ws)
    (rest : ∀ a up ws, P up ws → (f a).Guards l K P' E up ws) :
    (p.bind f).Guards l K P' E up ws := by
  rw [bind_eq_ends]
  exact first.ends rest fun _ _ _ => id

theorem Guards.handle {recover : ε → Proc DB W R T δ α} {E' : Bool → List W → Prop}
    (first : p.Guards l K P E up ws)
    (rest : ∀ e up ws, E up ws → (recover e).Guards l K P E' up ws) :
    (p.handle recover).Guards l K P E' up ws := by
  rw [handle_eq_ends]
  exact first.ends (fun _ _ _ => id) rest

theorem Quiet.guards (quiet : p.Quiet) :
    p.Guards l K (fun up _ => up = true) (fun _ _ => True) true ws := by
  induction p generalizing ws with
  | done a => rfl
  | fail e => trivial
  | read tag query next ih => exact fun b => ih b (quiet b)
  | stmt tag exec next ih =>
    exact fun seen newest grant => ⟨true, fun _ => .inl rfl, ih _ (quiet _)⟩
  | commit next ih => exact quiet.elim
  | rollback next ih => exact quiet.elim
  | clock tag next ih => exact fun t => ih t (quiet t)
  | fresh next ih => exact fun n => ih n (quiet n)

theorem Quiet.guards_bind {P : Bool → List W → Prop} (quiet : p.Quiet)
    (rest : ∀ a ws, (f a).Guards l K P (fun _ _ => True) true ws) :
    (p.bind f).Guards l K P (fun _ _ => True) true ws := by
  refine Guards.bind quiet.guards ?_
  rintro a _ ws rfl
  exact rest a ws

def Idle (up : Bool) (ws : List W) : Prop := up = false ∧ ws = []

def Fenced (l : Lock R) (K : DB → Prop) (p : Proc DB W R T ε α) : Prop :=
  p.Guards l K Idle Idle false []

theorem Fenced.bind (first : p.Fenced l K)
    (rest : ∀ a, (f a).Fenced l K) : (p.bind f).Fenced l K := by
  refine Guards.bind first ?_
  rintro a _ _ ⟨rfl, rfl⟩
  exact rest a

theorem Fenced.mapError (first : p.Fenced l K) (f : ε → δ) : (p.mapError f).Fenced l K :=
  Guards.handle first fun _ _ _ idle => idle

theorem Fenced.caught (first : p.Fenced l K) :
    (p.caught : Proc DB W R T δ (Except ε α)).Fenced l K :=
  Guards.handle (Guards.bind first fun _ _ _ idle => idle) fun _ _ _ idle => idle

theorem Guards.fenced (body : p.Guards l K Idle (fun _ _ => True) false []) :
    p.transaction.Fenced l K := Guards.handle body fun _ _ _ _ => ⟨rfl, rfl⟩

end Guards
end Proc

section Sessions
variable [DecidableEq R] [Store DB W R] {program : Q → Proc DB W R T ε α}
  {allow : System DB W R T ε α → Event Q → Prop} {s s' : System DB W R T ε α} {e : Event Q}
  {i : Nat} {c : Session DB W R T ε α} {l : Lock R} {K : DB → Prop}

/-- The session is under way as `Proc.Fenced` describes: while the flag is up it holds the
    lock, and the fact is true of the store. -/
def Session.Fenced (l : Lock R) (K : DB → Prop) (db : DB) (c : Session DB W R T ε α) : Prop :=
  ∃ up, (up = true → l ∈ c.held ∧ K db) ∧
    ∀ p, c.code = some p → p.Guards l K Proc.Idle Proc.Idle up c.writes

omit [DecidableEq R] in
theorem Session.Fenced.fresh {p : Proc DB W R T ε α} (fenced : p.Fenced l K) (db : DB) :
    Session.Fenced l K db { code := some p } := by
  refine ⟨false, nofun, ?_⟩
  rintro _ ⟨⟩
  exact fenced

theorem Session.Fenced.commit (fenced : c.Fenced l K s.db) (exclusive : Exclusive s.sessions)
    (kept : ∀ (w : W) (db : DB), (∀ n ∈ Store.needs DB w, clash n l = false) → K db →
      K (Store.apply w db))
    {j : Nat} {d : Session DB W R T ε α} (ne : j ≠ i) (found : s.sessions[i]? = some c)
    (other : s.sessions[j]? = some d) : c.Fenced l K (applyAll d.writes s.db) := by
  obtain ⟨up, holds, guards⟩ := fenced
  refine ⟨up, fun raised => ?_, guards⟩
  obtain ⟨lock, fact⟩ := holds raised
  refine ⟨lock, applyAll_induct fact fun w mem mid known => kept w mid (fun n need => ?_) known⟩
  exact exclusive.apart j i d c ne other found n
    (exclusive.covered j d other w mem n need) l lock

theorem System.Shows.fenced_step (shows_ : s.Shows (·.Fenced l K s.db) i)
    (exclusive : Exclusive s.sessions)
    (kept : ∀ (w : W) (db : DB), (∀ n ∈ Store.needs DB w, clash n l = false) → K db →
      K (Store.apply w db))
    (taken : s.step program e = some s') : s'.Shows (·.Fenced l K s'.db) i := by
  obtain ⟨c, found, up, holds, guards⟩ := shows_
  have own : ∀ {c' : Session DB W R T ε α}, (s.sessions.set i c')[i]? = some c' :=
    List.getElem?_set_self (List.getElem?_eq_some_iff.mp found).1
  -- a step of another session that keeps the store, or of this one
  have update : ∀ {j : Nat} {d d' : Session DB W R T ε α}, s.sessions[j]? = some d →
      (j = i → d = c → d'.Fenced l K s.db) →
      ∃ c', (s.sessions.set j d')[i]? = some c' ∧ c'.Fenced l K s.db := by
    intro j d d' old changed
    by_cases same : j = i
    · subst same
      cases old.symm.trans found
      exact ⟨d', own, changed rfl rfl⟩
    · exact ⟨c, (List.getElem?_set_ne same).trans found, up, holds, guards⟩
  cases System.step_inv taken with
  | spawn q =>
    refine ⟨c, ?_, up, holds, guards⟩
    rw [List.getElem?_append_left (List.getElem?_eq_some_iff.mp found).1]
    exact found
  | read old code =>
    refine update old ?_
    rintro rfl rfl
    exact ⟨up, holds, by rintro _ ⟨⟩; exact guards _ code _⟩
  | waits old code started =>
    refine update old ?_
    rintro rfl rfl
    exact ⟨up, holds, guards⟩
  | granted old code waiting executed =>
    subst executed
    refine update old ?_
    rintro rfl rfl
    obtain ⟨up', raised, later⟩ := guards _ code _ _ _
    refine ⟨up', fun isUp => ?_, by rintro _ ⟨⟩; exact later⟩
    rcases raised isUp with before | ⟨none_, lock, fact⟩
    · exact ⟨List.mem_append_right _ (holds before).1, (holds before).2⟩
    · rw [none_] at lock fact ⊢
      exact ⟨List.mem_append_left _ lock, fact⟩
  | @commit j d next old code =>
    by_cases same : j = i
    · subst same
      cases old.symm.trans found
      refine ⟨_, own, false, nofun, ?_⟩
      rintro _ ⟨⟩
      exact (guards _ code).2
    · exact ⟨c, (List.getElem?_set_ne same).trans found,
        Session.Fenced.commit ⟨up, holds, guards⟩ exclusive kept same found old⟩
  | rollback old code =>
    refine update old ?_
    rintro rfl rfl
    exact ⟨false, nofun, by rintro _ ⟨⟩; exact guards _ code⟩
  | fresh old code =>
    refine update old ?_
    rintro rfl rfl
    exact ⟨up, holds, by rintro _ ⟨⟩; exact guards _ code _⟩
  | tick old code =>
    refine update old ?_
    rintro rfl rfl
    exact ⟨up, holds, by rintro _ ⟨⟩; exact guards _ code _⟩
  | abort old =>
    refine update old ?_
    rintro rfl rfl
    exact ⟨false, nofun, nofun⟩

theorem System.Shows.fenced_reach (shows_ : s.Shows (·.Fenced l K s.db) i)
    (exclusive : ∀ s', Reach program allow s s' → Exclusive s'.sessions)
    (kept : ∀ (w : W) (db : DB), (∀ n ∈ Store.needs DB w, clash n l = false) → K db →
      K (Store.apply w db))
    (reached : Reach program allow s s') : s'.Shows (·.Fenced l K s'.db) i := by
  induction reached with
  | refl => exact shows_
  | step before taken allowed ih => exact ih.fenced_step (exclusive _ before) kept taken

omit [DecidableEq R] in
theorem System.Shows.fenced_committing (shows_ : s.Shows (·.Fenced l K s.db) i) {log : Log DB T}
    {ws : List W} (commits : s.committing (Event.run (Q := Q) i) = some (log, ws))
    (writes : ws ≠ []) : K s.db := by
  simp only [System.committing] at commits
  split at commits
  · rename_i found
    cases commits
    obtain ⟨up, holds, guards⟩ := shows_.of found
    exact (holds ((guards _ rfl).1 writes)).2
  · cases commits

end Sessions
end Engine
