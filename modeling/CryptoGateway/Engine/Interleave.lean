import CryptoGateway.Engine.Conduct

/-!
Tasks that one session runs concurrently: one at a time goes on, for one query or clock reading or
for the whole of one transaction. What every task does by itself, the tasks do together.
-/
namespace Engine

variable {DB W R T ε δ α β Q : Type}

namespace Proc

/-- The transaction under way, to its end; `k` gets what is left of the process. -/
def finish (k : Proc DB W R T ε α → Proc DB W R T δ β) : Proc DB W R T ε α → Proc DB W R T δ β
  | .done a => k (.done a)
  | .fail e => k (.fail e)
  | .read tag query next => .read tag query fun b => (next b).finish k
  | .stmt tag exec next => .stmt tag exec fun b => (next b).finish k
  | .commit next => .commit (k next)
  | .rollback next => .rollback (k next)
  | .clock tag next => .clock tag fun t => (next t).finish k
  | .fresh next => .fresh fun n => (next n).finish k

def advance (k : Proc DB W R T ε α → Proc DB W R T δ β) : Proc DB W R T ε α → Proc DB W R T δ β
  | .done a => k (.done a)
  | .fail e => k (.fail e)
  | .read tag query next => .read tag query fun b => k (next b)
  | .stmt tag exec next => .stmt tag exec fun b => (next b).finish k
  | .commit next => .commit (k next)
  | .rollback next => .rollback (k next)
  | .clock tag next => .clock tag fun t => k (next t)
  | .fresh next => .fresh fun n => k (next n)

def isOver : Proc DB W R T ε α → Bool
  | .done _ => true
  | .fail _ => true
  | _ => false

def drain : List (Proc DB W R T ε α) → Proc DB W R T δ (List (Except ε α))
  | [] => .done []
  | p :: rest => p.caught.bind fun r => (drain rest).bind fun rs => .done (r :: rs)

/-- The tasks that have a slot: the first `limit` of those that are not over. -/
def running (limit : Nat) (tasks : List (Proc DB W R T ε α)) : List Nat :=
  ((List.range tasks.length).filter fun i => (tasks[i]?).any fun p => !p.isOver).take limit

/-- All tasks with at most `limit` of them in flight, and their results in the order of
    the tasks. `picks` is the scheduler: which of the running ones has the next turn. -/
def boundedJoin (limit : Nat) : List Nat → List (Proc DB W R T ε α) →
    Proc DB W R T δ (List (Except ε α))
  | [], tasks => drain tasks
  | n :: picks, tasks =>
    match (running limit tasks)[n % (running limit tasks).length]? with
    | none => drain tasks
    | some i =>
      match tasks[i]? with
      | none => drain tasks
      | some p => p.advance fun rest => boundedJoin limit picks (tasks.set i rest)

end Proc

section Logs

/-- What the entries under the tags of `own` are. -/
def Log.of (own : T → Bool) (log : Log DB T) : Log DB T := log.filter fun e => own e.1

variable {own : T → Bool} {log : Log DB T} {m : Moment DB} {tag : Option T}

theorem Log.of_record (mine : ∀ t, tag = some t → own t = true) :
    Log.of own (record tag m log) = record tag m (Log.of own log) := by
  cases tag with
  | none => rfl
  | some t => simp [Log.of, record, mine t rfl]

theorem Log.of_record_other (other : ∀ t, tag = some t → own t = false) :
    Log.of own (record tag m log) = Log.of own log := by
  cases tag with
  | none => rfl
  | some t => simp [Log.of, record, other t rfl]

end Logs

section Tasks
variable [Store DB W R]

/-- Several tasks in one session: task `i` remembers under tags of its own, and what it may
    do by its own part of what the session remembers the session may do, as long as `B`
    holds of the whole. -/
structure Tasks (own : Nat → T → Bool) (M : Nat → Option T → Log DB T → List W → List W → Prop)
    (C : Nat → Log DB T → List W → Prop) (B : Log DB T → Prop)
    (M' : Option T → Log DB T → List W → List W → Prop) (C' : Log DB T → List W → Prop) :
    Prop where
  mine : ∀ {i t log ws new}, M i (some t) log ws new → own i t = true
  others : ∀ {i j t log ws new}, M i (some t) log ws new → i ≠ j → own j t = false
  base : ∀ {i tag m log ws new}, M i tag (Log.of (own i) log) ws new → B log → B (record tag m log)
  move : ∀ {i tag log ws new}, B log → M i tag (Log.of (own i) log) ws new → M' tag log ws new
  commit : ∀ {i log ws}, B log → C i (Log.of (own i) log) ws → C' log ws

/-- A task ends between two transactions with a result that satisfies `P`. -/
abbrev Proc.Task (M : Option T → Log DB T → List W → List W → Prop)
    (C : Log DB T → List W → Prop) (P : Except ε α → Prop) (log : Log DB T) (ws : List W)
    (p : Proc DB W R T ε α) : Prop :=
  p.Acts M C (fun a _ ws => ws = [] ∧ P (.ok a)) (fun e _ ws => ws = [] ∧ P (.error e)) log ws

/-- What the session remembers has grown by entries of task `i`. -/
def Grown (own : Nat → T → Bool) (i : Nat) (log log' : Log DB T) : Prop :=
  ∀ j, j ≠ i → Log.of (own j) log' = Log.of (own j) log

variable {own : Nat → T → Bool} {M : Nat → Option T → Log DB T → List W → List W → Prop}
  {C : Nat → Log DB T → List W → Prop} {B : Log DB T → Prop}
  {M' : Option T → Log DB T → List W → List W → Prop} {C' : Log DB T → List W → Prop}
  {P : Nat → Except ε α → Prop} {i : Nat} {log log₀ : Log DB T} {ws new : List W}
  {p : Proc DB W R T ε α} {k : Proc DB W R T ε α → Proc DB W R T δ β}
  {Q' : β → Log DB T → List W → Prop} {E' : δ → Log DB T → List W → Prop}

omit [Store DB W R] in
theorem Grown.refl (log : Log DB T) : Grown own i log log := fun _ _ => rfl

section Steps
variable {tag : Option T} (tasks : Tasks own M C B M' C')
  (may : M i tag (Log.of (own i) log) ws new) (m : Moment DB)
include tasks may

omit [Store DB W R] in
theorem Tasks.grown (grown : Grown own i log₀ log) : Grown own i log₀ (record tag m log) := by
  intro j other
  have mine : ∀ t, tag = some t → own j t = false := by
    rintro t rfl
    exact tasks.others may other.symm
  rw [Log.of_record_other mine]
  exact grown j other

omit [Store DB W R] in
theorem Tasks.of_record :
    Log.of (own i) (record tag m log) = record tag m (Log.of (own i) log) := by
  refine Log.of_record ?_
  rintro t rfl
  exact tasks.mine may

end Steps

theorem Proc.Task.grown {j : Nat} {log' : Log DB T}
    (task : p.Task (M j) (C j) (P j) (Log.of (own j) log) ws) (grown : Grown own i log log')
    (other : j ≠ i) : p.Task (M j) (C j) (P j) (Log.of (own j) log') ws := by
  rw [grown j other]
  exact task

theorem Proc.Task.finish (tasks : Tasks own M C B M' C')
    (task : p.Task (M i) (C i) (P i) (Log.of (own i) log) ws) (base : B log)
    (grown : Grown own i log₀ log) (rest : ∀ p' log', B log' → Grown own i log₀ log' →
      p'.Task (M i) (C i) (P i) (Log.of (own i) log') [] →
      (k p').Acts M' C' Q' E' log' []) : (p.finish k).Acts M' C' Q' E' log ws := by
  induction p generalizing log ws with
  | done a =>
    cases task.1
    exact rest _ log base grown task
  | fail e =>
    cases task.1
    exact rest _ log base grown task
  | read tag query next ih =>
    obtain ⟨may, later⟩ := task
    refine ⟨tasks.move base may, fun m => ih _ ?_ (tasks.base may base) (tasks.grown may m grown)⟩
    rw [tasks.of_record may m]
    exact later m
  | stmt tag exec next ih =>
    intro m db grant
    obtain ⟨may, later⟩ := task m db grant
    refine ⟨tasks.move base may, ih _ ?_ (tasks.base may base) (tasks.grown may m grown)⟩
    rw [tasks.of_record may m]
    exact later
  | commit next ih => exact ⟨tasks.commit base task.1, rest _ log base grown task.2⟩
  | rollback next ih => exact ⟨tasks.move base task.1, rest _ log base grown task.2⟩
  | clock tag next ih =>
    obtain ⟨may, later⟩ := task
    refine ⟨tasks.move base may, fun m => ih _ ?_ (tasks.base may base) (tasks.grown may m grown)⟩
    rw [tasks.of_record may m]
    exact later m
  | fresh next ih => exact fun n => ih n (task n) base grown

theorem Proc.Task.advance (tasks : Tasks own M C B M' C')
    (task : p.Task (M i) (C i) (P i) (Log.of (own i) log) []) (base : B log)
    (rest : ∀ p' log', B log' → Grown own i log log' →
      p'.Task (M i) (C i) (P i) (Log.of (own i) log') [] →
      (k p').Acts M' C' Q' E' log' []) : (p.advance k).Acts M' C' Q' E' log [] := by
  have start : Grown own i log log := .refl log
  cases p with
  | done a => exact rest _ log base start task
  | fail e => exact rest _ log base start task
  | read tag query next =>
    obtain ⟨may, later⟩ := task
    refine ⟨tasks.move base may, fun m => rest _ _ (tasks.base may base)
      (tasks.grown may m start) ?_⟩
    rw [tasks.of_record may m]
    exact later m
  | stmt tag exec next =>
    intro m db grant
    obtain ⟨may, later⟩ := task m db grant
    refine ⟨tasks.move base may, Proc.Task.finish tasks ?_ (tasks.base may base)
      (tasks.grown may m start) rest⟩
    rw [tasks.of_record may m]
    exact later
  | commit next => exact ⟨tasks.commit base task.1, rest _ log base start task.2⟩
  | rollback next => exact ⟨tasks.move base task.1, rest _ log base start task.2⟩
  | clock tag next =>
    obtain ⟨may, later⟩ := task
    refine ⟨tasks.move base may, fun m => rest _ _ (tasks.base may base)
      (tasks.grown may m start) ?_⟩
    rw [tasks.of_record may m]
    exact later m
  | fresh next => exact fun n => rest _ log base start (task n)

theorem Proc.Task.whole (tasks : Tasks own M C B M' C')
    (task : p.Task (M i) (C i) (P i) (Log.of (own i) log) ws) (base : B log)
    (grown : Grown own i log₀ log) :
    p.Acts M' C' (fun a log' ws => (ws = [] ∧ B log' ∧ Grown own i log₀ log') ∧ P i (.ok a))
      (fun e log' ws => (ws = [] ∧ B log' ∧ Grown own i log₀ log') ∧ P i (.error e)) log ws := by
  induction p generalizing log ws with
  | done a => exact ⟨⟨task.1, base, grown⟩, task.2⟩
  | fail e => exact ⟨⟨task.1, base, grown⟩, task.2⟩
  | read tag query next ih =>
    obtain ⟨may, later⟩ := task
    refine ⟨tasks.move base may, fun m => ih _ ?_ (tasks.base may base) (tasks.grown may m grown)⟩
    rw [tasks.of_record may m]
    exact later m
  | stmt tag exec next ih =>
    intro m db grant
    obtain ⟨may, later⟩ := task m db grant
    refine ⟨tasks.move base may, ih _ ?_ (tasks.base may base) (tasks.grown may m grown)⟩
    rw [tasks.of_record may m]
    exact later
  | commit next ih => exact ⟨tasks.commit base task.1, ih task.2 base grown⟩
  | rollback next ih => exact ⟨tasks.move base task.1, ih task.2 base grown⟩
  | clock tag next ih =>
    obtain ⟨may, later⟩ := task
    refine ⟨tasks.move base may, fun m => ih _ ?_ (tasks.base may base) (tasks.grown may m grown)⟩
    rw [tasks.of_record may m]
    exact later m
  | fresh next ih => exact fun n => ih n (task n) base grown

def Settled (B : Log DB T → Prop) (P : Nat → Except ε α → Prop) (n : Nat) (count : Nat)
    (results : List (Except ε α)) (log : Log DB T) (ws : List W) : Prop :=
  (ws = [] ∧ B log) ∧ results.length = count ∧ ∀ j r, results[j]? = some r → P (n + j) r

theorem Proc.drain_acts (tasks : Tasks own M C B M' C') (ps : List (Proc DB W R T ε α)) (n : Nat)
    (each : ∀ (j : Nat) (p : Proc DB W R T ε α), ps[j]? = some p →
      p.Task (M (n + j)) (C (n + j)) (P (n + j)) (Log.of (own (n + j)) log) [])
    (base : B log) : (Proc.drain ps : Proc DB W R T δ (List (Except ε α))).Acts M' C'
      (Settled B P n ps.length) E' log [] := by
  induction ps generalizing n log with
  | nil => exact ⟨⟨rfl, base⟩, rfl, by simp⟩
  | cons p rest ih =>
    have first := (each 0 p rfl).whole tasks base (.refl log)
    have caught : (p.caught : Proc DB W R T δ (Except ε α)).Acts M' C' (fun r log' ws =>
        (ws = [] ∧ B log' ∧ Grown own (n + 0) log log') ∧ P (n + 0) r) E' log [] :=
      first.caught (fun _ _ _ => id) fun _ _ _ => id
    refine Proc.Acts.bind caught ?_
    rintro r log' _ ⟨⟨rfl, base', grown⟩, result⟩
    refine Proc.Acts.bind (ih (n + 1) (fun j q listed => ?_) base') ?_
    · have shift : n + 1 + j = n + (j + 1) := by omega
      rw [shift]
      exact (each (j + 1) q listed).grown grown (by omega)
    · rintro rs _ _ ⟨clean, count, results⟩
      refine ⟨clean, by simp [count], fun j q listed => ?_⟩
      cases j with
      | zero => cases listed; exact result
      | succ j =>
        have shift : n + (j + 1) = n + 1 + j := by omega
        rw [shift]
        exact results j q listed

theorem Proc.boundedJoin_acts (tasks : Tasks own M C B M' C') (limit : Nat) (picks : List Nat)
    (ps : List (Proc DB W R T ε α)) (each : ∀ (j : Nat) (p : Proc DB W R T ε α), ps[j]? = some p →
      p.Task (M j) (C j) (P j) (Log.of (own j) log) [])
    (base : B log) : (Proc.boundedJoin limit picks ps : Proc DB W R T δ (List (Except ε α))).Acts
      M' C' (Settled B P 0 ps.length) E' log [] := by
  induction picks generalizing ps log with
  | nil => exact Proc.drain_acts tasks ps 0 (by simpa using each) base
  | cons n picks ih =>
    unfold Proc.boundedJoin
    split
    · exact Proc.drain_acts tasks ps 0 (by simpa using each) base
    split
    · exact Proc.drain_acts tasks ps 0 (by simpa using each) base
    rename_i i _ _ p found
    refine (each i p found).advance tasks base fun p' log' base' grown task' => ?_
    have joined := ih (ps.set i p') (fun j q listed => ?_) base'
    · rw [List.length_set] at joined
      exact joined
    rw [List.getElem?_set] at listed
    by_cases same : i = j
    · subst same
      simp only [↓reduceIte, (List.getElem?_eq_some_iff.mp found).1] at listed
      cases listed
      exact task'
    · rw [if_neg same] at listed
      exact (each j q listed).grown grown fun eq => same eq.symm

end Tasks

section Logic
variable [DecidableEq R] [Store DB W R] {spec : Spec DB W R T}

def Spec.Forgetful (spec : Spec DB W R T) : Prop :=
  ∀ {log log' db ws}, spec.eff log db ws → spec.eff log' db ws

variable {p : Proc DB W R T ε α} {held : List (Lock R)} {ws : List W} {log log' : Log DB T}
  {db db₀ : DB} {k : Proc DB W R T ε α → Proc DB W R T δ β} {post : β → Ctx DB W R T → Prop}
  {fault : δ → Ctx DB W R T → Prop}

theorem Later.forget (moved : Later spec held db₀ db) : Later spec [] db₀ db := by
  induction moved with
  | refl => exact .refl
  | tail _ move ih => exact ih.tail (move.mono (List.nil_subset held))

abbrev Refining (spec : Spec DB W R T) (p : Proc DB W R T ε α) (c : Ctx DB W R T) : Prop :=
  wp spec p (fun _ => Between spec) (fun _ => Between spec) c

theorem Refining.forget (forgetful : spec.Forgetful)
    (refining : Refining spec p ⟨held, ws, log, db⟩)
    (log' : Log DB T) : Refining spec p ⟨held, ws, log', db⟩ := by
  induction p generalizing held ws log log' db with
  | done a => exact refining
  | fail e => exact refining
  | read tag query next ih => exact fun m moved inv => ih _ (refining m moved inv) _
  | stmt tag exec next ih =>
    exact fun m moved inv db' waited inv' grant =>
      ih _ (refining m moved inv db' waited inv' grant) _
  | commit next ih =>
    intro db' moved inv
    obtain ⟨permitted, rest⟩ := refining db' moved inv
    exact ⟨forgetful permitted, ih rest _⟩
  | rollback next ih => exact fun db' moved inv => ih (refining db' moved inv) _
  | clock tag next ih => exact fun m moved inv => ih _ (refining m moved inv) _
  | fresh next ih => exact fun n db' moved inv => ih _ (refining n db' moved inv) _

theorem Refining.later (refining : Refining spec p ⟨[], [], log, db₀⟩)
    (moved : Later spec [] db₀ db)
    (inv : spec.inv db) : Refining spec p ⟨[], [], log, db⟩ := by
  cases p with
  | done a => exact ⟨rfl, rfl, inv⟩
  | fail e => exact ⟨rfl, rfl, inv⟩
  | read tag query next => exact fun m after => refining m (moved.trans after)
  | stmt tag exec next => exact fun m after => refining m (moved.trans after)
  | commit next => exact fun db' after => refining db' (moved.trans after)
  | rollback next => exact fun db' after => refining db' (moved.trans after)
  | clock tag next => exact fun m after => refining m (moved.trans after)
  | fresh next => exact fun n db' after => refining n db' (moved.trans after)

theorem wp_finish (refining : Refining spec p ⟨held, ws, log, db⟩) (since : Later spec [] db₀ db)
    (rest : ∀ p' log' db', Later spec [] db₀ db' → spec.inv db' →
      Refining spec p' ⟨[], [], log', db'⟩ → wp spec (k p') post fault ⟨[], [], log', db'⟩) :
    wp spec (p.finish k) post fault ⟨held, ws, log, db⟩ := by
  induction p generalizing held ws log db with
  | done a =>
    obtain ⟨rfl, rfl, inv⟩ := refining
    exact rest _ log db since inv ⟨rfl, rfl, inv⟩
  | fail e =>
    obtain ⟨rfl, rfl, inv⟩ := refining
    exact rest _ log db since inv ⟨rfl, rfl, inv⟩
  | read tag query next ih =>
    exact fun m moved inv => ih _ (refining m moved inv) (since.trans moved.forget)
  | stmt tag exec next ih =>
    exact fun m moved inv db' waited inv' grant => ih _ (refining m moved inv db' waited inv' grant)
      (since.trans (moved.forget.trans waited.forget))
  | commit next ih =>
    intro db' moved inv
    obtain ⟨permitted, left⟩ := refining db' moved inv
    have applied : Interferes spec [] db' (applyAll ws db') :=
      ⟨inv, log, ws, by simp, permitted, rfl⟩
    exact ⟨permitted, rest _ _ _ ((since.trans moved.forget).tail applied)
      (spec.keeps inv permitted) left⟩
  | rollback next ih =>
    exact fun db' moved inv => rest _ _ _ (since.trans moved.forget) inv (refining db' moved inv)
  | clock tag next ih =>
    exact fun m moved inv => ih _ (refining m moved inv) (since.trans moved.forget)
  | fresh next ih =>
    exact fun n db' moved inv => ih _ (refining n db' moved inv) (since.trans moved.forget)

theorem wp_advance (refining : Refining spec p ⟨[], [], log, db⟩) (inv : spec.inv db)
    (rest : ∀ p' log' db', Later spec [] db db' → spec.inv db' →
      Refining spec p' ⟨[], [], log', db'⟩ → wp spec (k p') post fault ⟨[], [], log', db'⟩) :
    wp spec (p.advance k) post fault ⟨[], [], log, db⟩ := by
  cases p with
  | done a => exact rest _ log db .refl inv refining
  | fail e => exact rest _ log db .refl inv refining
  | read tag query next => exact fun m moved inv => rest _ _ _ moved inv (refining m moved inv)
  | stmt tag exec next =>
    exact fun m moved inv db' waited inv' grant => wp_finish
      (refining m moved inv db' waited inv' grant) (moved.trans waited) rest
  | commit next =>
    intro db' moved inv
    obtain ⟨permitted, left⟩ := refining db' moved inv
    have applied : Interferes spec [] db' (applyAll [] db') :=
      ⟨inv, log, [], by simp, permitted, rfl⟩
    exact ⟨permitted, rest _ _ _ (moved.tail applied) (spec.keeps inv permitted) left⟩
  | rollback next => exact fun db' moved inv => rest _ _ _ moved inv (refining db' moved inv)
  | clock tag next => exact fun m moved inv => rest _ _ _ moved inv (refining m moved inv)
  | fresh next => exact fun n db' moved inv => rest _ _ _ moved inv (refining n db' moved inv)

theorem Refining.since (refining : Refining spec p ⟨held, ws, log, db⟩)
    (since : Later spec [] db₀ db) : wp spec p (fun _ c => Between spec c ∧ Later spec [] db₀ c.db)
      (fun _ c => Between spec c ∧ Later spec [] db₀ c.db) ⟨held, ws, log, db⟩ := by
  induction p generalizing held ws log db with
  | done a => exact ⟨refining, since⟩
  | fail e => exact ⟨refining, since⟩
  | read tag query next ih =>
    exact fun m moved inv => ih _ (refining m moved inv) (since.trans moved.forget)
  | stmt tag exec next ih =>
    exact fun m moved inv db' waited inv' grant => ih _ (refining m moved inv db' waited inv' grant)
      (since.trans (moved.forget.trans waited.forget))
  | commit next ih =>
    intro db' moved inv
    obtain ⟨permitted, left⟩ := refining db' moved inv
    have applied : Interferes spec [] db' (applyAll ws db') :=
      ⟨inv, log, ws, by simp, permitted, rfl⟩
    exact ⟨permitted, ih left ((since.trans moved.forget).tail applied)⟩
  | rollback next ih =>
    exact fun db' moved inv => ih (refining db' moved inv) (since.trans moved.forget)
  | clock tag next ih =>
    exact fun m moved inv => ih _ (refining m moved inv) (since.trans moved.forget)
  | fresh next ih =>
    exact fun n db' moved inv => ih _ (refining n db' moved inv) (since.trans moved.forget)

theorem drain_refines (forgetful : spec.Forgetful) {ps : List (Proc DB W R T ε α)}
    (each : ∀ p ∈ ps, Refining spec p ⟨[], [], [], db⟩) (inv : spec.inv db) :
    Refining spec (Proc.drain ps : Proc DB W R T δ (List (Except ε α))) ⟨[], [], log, db⟩ := by
  induction ps generalizing log db with
  | nil => exact ⟨rfl, rfl, inv⟩
  | cons p rest ih =>
    have others : ∀ (r : Except ε α) (c : Ctx DB W R T), Between spec c ∧ Later spec [] db c.db →
        Refining spec ((Proc.drain rest : Proc DB W R T δ (List (Except ε α))) >>=
          fun rs => pure (r :: rs)) c := by
      rintro r ⟨_, _, log', db'⟩ ⟨⟨rfl, rfl, inv'⟩, moved⟩
      rw [Refining, wp_bind]
      exact ih (fun q mem => (each q (List.mem_cons_of_mem p mem)).later moved inv') inv'
    change wp spec (p.caught >>= fun r => Proc.drain rest >>= fun rs => pure (r :: rs)) _ _ _
    rw [wp_bind, wp_caught]
    exact wp_mono (((each p List.mem_cons_self).forget forgetful log).since .refl)
      (fun a c ended => others (.ok a) c ended) fun e c ended => others (.error e) c ended

theorem boundedJoin_refines (forgetful : spec.Forgetful) (limit : Nat) (picks : List Nat)
    (ps : List (Proc DB W R T ε α)) (each : ∀ p ∈ ps, Refining spec p ⟨[], [], [], db⟩)
    (inv : spec.inv db) :
    Refining spec (Proc.boundedJoin limit picks ps : Proc DB W R T δ (List (Except ε α)))
      ⟨[], [], log, db⟩ := by
  induction picks generalizing ps log db with
  | nil => exact drain_refines forgetful each inv
  | cons n picks ih =>
    unfold Proc.boundedJoin
    split
    · exact drain_refines forgetful each inv
    split
    · exact drain_refines forgetful each inv
    rename_i i _ p found
    have running := (each p (List.mem_of_getElem? found)).forget forgetful log
    refine wp_advance running inv fun p' log' db' moved inv' refining => ih _ (fun q mem => ?_) inv'
    rcases List.mem_or_eq_of_mem_set mem with old | rfl
    · exact (each q old).later moved inv'
    · exact refining.forget forgetful []

end Logic
end Engine
