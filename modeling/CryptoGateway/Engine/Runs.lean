import CryptoGateway.Engine.Adequacy

/-!
What the store alone does not show about a run: which schedule led to a state and
what the sessions remember on the way.
-/
namespace Engine

theorem any_some {τ : Type*} {o : Option τ} {p : τ → Bool} (holds : o.any p = true) :
    ∃ a, o = some a ∧ p a = true := by
  cases o with
  | none => cases holds
  | some a => exact ⟨a, rfl, holds⟩

section Schedule
variable {DB W R T ε α Q : Type} [DecidableEq R] [Store DB W R]

instance {ok : Log DB T → DB → List W → Prop} [∀ log db ws, Decidable (ok log db ws)]
    (s : System DB W R T ε α) (e : Event Q) : Decidable (OnCommit ok s e) :=
  match commits : s.committing e with
  | none => .isTrue (by simp [OnCommit, commits])
  | some (log, ws) => decidable_of_iff (ok log s.db ws) (by simp [OnCommit, commits])

/-- A stretch of a run: a new process, or up to `steps` steps of session `i` while
    its clock shows `t`. -/
inductive Slice (Q : Type) where
  | start (request : Q)
  | work (i : Nat) (t : Int) (steps : Nat)

namespace System
variable (program : Q → Proc DB W R T ε α) (allow : System DB W R T ε α → Event Q → Prop)
  [∀ s e, Decidable (allow s e)]

def allowedStep (s : System DB W R T ε α) (e : Event Q) : Option (System DB W R T ε α) :=
  if allow s e then s.step program e else none

/-- Session `i` goes on for as long as it can and may. -/
def work (i : Nat) (t : Int) : Nat → System DB W R T ε α → System DB W R T ε α
  | 0, s => s
  | n + 1, s =>
    match s.allowedStep program allow (.run i) with
    | some s' => work i t n s'
    | none =>
      match s.allowedStep program allow (.tick i t) with
      | some s' => work i t n s'
      | none => s

def perform : List (Slice Q) → System DB W R T ε α → System DB W R T ε α
  | [], s => s
  | .start q :: rest, s => perform rest ((s.allowedStep program allow (.spawn q)).getD s)
  | .work i t steps :: rest, s => perform rest (s.work program allow i t steps)

variable {program allow} {init s s' : System DB W R T ε α}

theorem perform_append (first rest : List (Slice Q)) (s : System DB W R T ε α) :
    s.perform program allow (first ++ rest) =
      (s.perform program allow first).perform program allow rest := by
  induction first generalizing s with
  | nil => rfl
  | cons slice later ih =>
    cases slice with
    | start q => exact ih _
    | work i t steps => exact ih _

theorem step_eq_work {i : Nat} (t : Int) (allowed : allow s (.run i))
    (runs : (s.step program (.run i)).isSome = true) :
    s.step program (.run i) = some (s.work program allow i t 1) := by
  obtain ⟨s', taken⟩ := Option.isSome_iff_exists.mp runs
  simp [System.work, System.allowedStep, allowed, taken]

theorem Reach.allowedStep {e : Event Q} (reached : Reach program allow init s)
    (taken : s.allowedStep program allow e = some s') : Reach program allow init s' := by
  unfold System.allowedStep at taken
  split at taken
  · rename_i allowed
    exact .step reached taken allowed
  · cases taken

theorem Reach.work {i : Nat} {t : Int} (steps : Nat) (reached : Reach program allow init s) :
    Reach program allow init (s.work program allow i t steps) := by
  induction steps generalizing s with
  | zero => exact reached
  | succ n ih =>
    unfold System.work
    split
    · rename_i taken
      exact ih (reached.allowedStep taken)
    · split
      · rename_i taken
        exact ih (reached.allowedStep taken)
      · exact reached

theorem Reach.perform (slices : List (Slice Q)) (reached : Reach program allow init s) :
    Reach program allow init (s.perform program allow slices) := by
  induction slices generalizing s with
  | nil => exact reached
  | cons slice rest ih =>
    cases slice with
    | work i t steps => exact ih (reached.work steps)
    | start q =>
      refine ih ?_
      cases taken : s.allowedStep program allow (.spawn q) with
      | none => exact reached
      | some s' => exact reached.allowedStep taken

omit [∀ s e, Decidable (allow s e)] in
theorem Reach.trans {s'' : System DB W R T ε α} (first : Reach program allow s s')
    (second : Reach program allow s' s'') : Reach program allow s s'' := by
  induction second with
  | refl => exact first
  | step before taken allowed ih => exact .step ih taken allowed

omit [∀ s e, Decidable (allow s e)] in
theorem Reach.mono {allow' : System DB W R T ε α → Event Q → Prop}
    (reached : Reach program allow s s') (imp : ∀ s e, allow s e → allow' s e) :
    Reach program allow' s s' := by
  induction reached with
  | refl => exact .refl
  | step before taken allowed ih => exact .step ih taken (imp _ _ allowed)

omit [DecidableEq R] [Store DB W R] in
theorem committing_any {e : Event Q} {p : Log DB T × List W → Bool}
    (commits : (s.committing e).any p = true) :
    ∃ log ws, s.committing e = some (log, ws) ∧ p (log, ws) = true := by
  obtain ⟨c, found, holds⟩ := any_some commits
  exact ⟨c.1, c.2, found, holds⟩

end System
end Schedule

section Moments
variable {DB W R T ε α Q : Type} [DecidableEq R] [Store DB W R]
variable {program : Q → Proc DB W R T ε α} {s s' : System DB W R T ε α} {e : Event Q}

theorem System.step_now (taken : s.step program e = some s') :
    s'.now = s.now ∨ ∃ i t, e = .tick i t ∧ s'.now = t := by
  cases System.step_inv taken with
  | @tick i t => exact .inr ⟨i, t, rfl, rfl⟩
  | _ => exact .inl rfl

/-- Every moment that the session looked at satisfies `P`. -/
structure Session.Remembers (P : Moment DB → Prop) (c : Session DB W R T ε α) : Prop where
  log : ∀ e ∈ c.log, P e.2
  snapshot : ∀ m, c.snapshot = some m → P m

def System.Remembers (P : Moment DB → Prop) (s : System DB W R T ε α) : Prop :=
  ∀ c ∈ s.sessions, c.Remembers P

variable {P P' : Moment DB → Prop}

omit [DecidableEq R] [Store DB W R] in
theorem System.Remembers.mono (kept : s.Remembers P) (imp : ∀ m, P m → P' m) : s.Remembers P' :=
  fun c mem => ⟨fun e inLog => imp _ ((kept c mem).log e inLog),
    fun m waiting => imp _ ((kept c mem).snapshot m waiting)⟩

theorem record_forall {tag : Option T} {m : Moment DB} {log : Log DB T} (old : ∀ e ∈ log, P e.2)
    (new : P m) : ∀ e ∈ record tag m log, P e.2 := by
  cases tag with
  | none => exact old
  | some t =>
    intro e mem
    rcases List.mem_cons.mp mem with rfl | mem
    · exact new
    · exact old e mem

theorem System.Remembers.step (kept : s.Remembers P) (taken : s.step program e = some s')
    (here : P ⟨s.db, s.now⟩) (there : P ⟨s.db, s'.now⟩) : s'.Remembers P := by
  have update : ∀ {i : Nat} {c c' : Session DB W R T ε α}, s.sessions[i]? = some c →
      (c.Remembers P → c'.Remembers P) → ∀ d ∈ s.sessions.set i c', d.Remembers P := by
    intro i c c' found changed d mem
    rcases List.mem_or_eq_of_mem_set mem with old | rfl
    · exact kept d old
    · exact changed (kept c (List.mem_of_getElem? found))
  cases System.step_inv taken with
  | spawn q =>
    intro d mem
    rcases List.mem_append.mp mem with old | new
    · exact kept d old
    · cases List.mem_singleton.mp new
      exact ⟨by simp, by simp⟩
  | read found code => exact update found fun old => ⟨record_forall old.log here, old.snapshot⟩
  | waits found code started =>
    refine update found fun old => ⟨old.log, ?_⟩
    rintro m ⟨⟩
    exact here
  | granted found code waiting =>
    exact update found fun old => ⟨record_forall old.log (old.snapshot _ waiting), by simp⟩
  | commit found code => exact update found fun old => ⟨old.log, old.snapshot⟩
  | rollback found code => exact update found fun old => ⟨old.log, old.snapshot⟩
  | fresh found code => exact update found fun old => ⟨old.log, old.snapshot⟩
  | tick found code => exact update found fun old => ⟨record_forall old.log there, old.snapshot⟩
  | abort found => exact update found fun old => ⟨old.log, by simp⟩

omit [DecidableEq R] [Store DB W R] in
theorem System.Remembers.committing (kept : s.Remembers P) {log : Log DB T} {ws : List W}
    (commits : s.committing e = some (log, ws)) : ∀ e ∈ log, P e.2 := by
  cases e with
  | run i =>
    simp only [System.committing] at commits
    split at commits
    · rename_i found
      cases commits
      exact (kept _ (List.mem_of_getElem? found)).log
    · cases commits
  | _ => cases commits

variable {Rel : DB → DB → Prop}

def Proc.IsStmt (p : Proc DB W R T ε α) : Prop :=
  match p with
  | .stmt _ _ _ => True
  | _ => False

structure Session.Chronicle (Rel : Moment DB → Moment DB → Prop) (c : Session DB W R T ε α) :
    Prop where
  log : c.log.Pairwise fun newer older => Rel older.2 newer.2
  snapshot : ∀ m, c.snapshot = some m → ∀ e ∈ c.log, Rel e.2 m
  waits : ∀ m p, c.snapshot = some m → c.code = some p → p.IsStmt

def System.Chronicle (Rel : Moment DB → Moment DB → Prop) (s : System DB W R T ε α) : Prop :=
  ∀ c ∈ s.sessions, c.Chronicle Rel

section
variable {Rel : Moment DB → Moment DB → Prop}

theorem record_pairwise {tag : Option T} {m : Moment DB} {log : Log DB T}
    (old : log.Pairwise fun newer older => Rel older.2 newer.2) (new : ∀ e ∈ log, Rel e.2 m) :
    (record tag m log).Pairwise fun newer older => Rel older.2 newer.2 := by
  cases tag with
  | none => exact old
  | some t => exact List.pairwise_cons.mpr ⟨new, old⟩

omit [DecidableEq R] [Store DB W R] in
theorem Session.Chronicle.idle {c : Session DB W R T ε α} (kept : c.Chronicle Rel)
    {p : Proc DB W R T ε α} (code : c.code = some p) (other : ¬p.IsStmt) : c.snapshot = none := by
  cases waiting : c.snapshot with
  | none => rfl
  | some m => exact absurd (kept.waits m p waiting code) other

theorem System.Chronicle.step (kept : s.Chronicle Rel) (taken : s.step program e = some s')
    (here : s.Remembers fun m => Rel m ⟨s.db, s.now⟩)
    (there : s.Remembers fun m => Rel m ⟨s.db, s'.now⟩) : s'.Chronicle Rel := by
  have update : ∀ {i : Nat} {c c' : Session DB W R T ε α}, s.sessions[i]? = some c →
      (c.Chronicle Rel → (c.Remembers fun m => Rel m ⟨s.db, s.now⟩) →
        (c.Remembers fun m => Rel m ⟨s.db, s'.now⟩) → c'.Chronicle Rel) →
      ∀ d ∈ s.sessions.set i c', d.Chronicle Rel := by
    intro i c c' found changed d mem
    rcases List.mem_or_eq_of_mem_set mem with old | rfl
    · exact kept d old
    · have listed := List.mem_of_getElem? found
      exact changed (kept c listed) (here c listed) (there c listed)
  cases System.step_inv taken with
  | spawn q =>
    intro d mem
    rcases List.mem_append.mp mem with old | new
    · exact kept d old
    · cases List.mem_singleton.mp new
      exact ⟨.nil, by simp, by simp⟩
  | read found code =>
    refine update found fun old before _ => ?_
    have idle := old.idle code id
    exact ⟨record_pairwise old.log before.log, by simp [idle], by simp [idle]⟩
  | waits found code started =>
    refine update found fun old before _ => ⟨old.log, ?_, ?_⟩
    · rintro m ⟨⟩
      exact before.log
    · rintro m p - code'
      cases code.symm.trans code'
      trivial
  | granted found code waiting =>
    exact update found fun old _ _ =>
      ⟨record_pairwise old.log (old.snapshot _ waiting), by simp, by simp⟩
  | commit found code =>
    refine update found fun old _ _ => ?_
    have idle := old.idle code id
    exact ⟨old.log, old.snapshot, by simp [idle]⟩
  | rollback found code =>
    refine update found fun old _ _ => ?_
    have idle := old.idle code id
    exact ⟨old.log, old.snapshot, by simp [idle]⟩
  | fresh found code =>
    refine update found fun old _ _ => ?_
    have idle := old.idle code id
    exact ⟨old.log, old.snapshot, by simp [idle]⟩
  | tick found code =>
    refine update found fun old _ later => ?_
    have idle := old.idle code id
    exact ⟨record_pairwise old.log later.log, by simp [idle], by simp [idle]⟩
  | abort found => exact update found fun old _ _ => ⟨old.log, by simp, by simp⟩

end

structure Session.Ordered (Rel : DB → DB → Prop) (c : Session DB W R T ε α) : Prop where
  log : c.log.Pairwise fun newer older => Rel older.2.db newer.2.db
  snapshot : ∀ m, c.snapshot = some m → ∀ e ∈ c.log, Rel e.2.db m.db
  waits : ∀ m p, c.snapshot = some m → c.code = some p → p.IsStmt

def System.Ordered (Rel : DB → DB → Prop) (s : System DB W R T ε α) : Prop :=
  ∀ c ∈ s.sessions, c.Ordered Rel

theorem System.Ordered.step (kept : s.Ordered Rel) (past : s.Remembers fun m => Rel m.db s.db)
    (taken : s.step program e = some s') : s'.Ordered Rel := by
  have before : s.Chronicle fun a b => Rel a.db b.db := fun c mem =>
    ⟨(kept c mem).log, (kept c mem).snapshot, (kept c mem).waits⟩
  have after := before.step taken past past
  exact fun c mem => ⟨(after c mem).log, (after c mem).snapshot, (after c mem).waits⟩

def System.Forward (s : System DB W R T ε α) : Event Q → Prop
  | .tick _ t => s.now ≤ t
  | _ => True

instance (s : System DB W R T ε α) (e : Event Q) : Decidable (s.Forward e) :=
  match e with
  | .tick _ t => inferInstanceAs (Decidable (s.now ≤ t))
  | .spawn _ => .isTrue trivial
  | .run _ => .isTrue trivial
  | .abort _ => .isTrue trivial

theorem System.Forward.le (forward : s.Forward e) (taken : s.step program e = some s') :
    s.now ≤ s'.now := by
  rcases System.step_now taken with same | ⟨i, t, rfl, now⟩
  · exact Int.le_of_eq same.symm
  · rw [now]
    exact forward

theorem System.Reach.timed {allow : System DB W R T ε α → Event Q → Prop}
    {init : System DB W R T ε α} (forward : ∀ s e, allow s e → s.Forward e)
    (idle : init.sessions = []) (reached : System.Reach program allow init s) :
    (s.Remembers fun m => m.now ≤ s.now) ∧ s.Chronicle fun a b => a.now ≤ b.now := by
  induction reached with
  | refl => exact ⟨by simp [System.Remembers, idle], by simp [System.Chronicle, idle]⟩
  | step before taken allowed ih =>
    have le := (forward _ _ allowed).le taken
    have later := ih.1.mono fun m past => Int.le_trans past le
    exact ⟨later.step taken le (Int.le_refl _), ih.2.step taken ih.1 later⟩

omit [DecidableEq R] [Store DB W R] in
theorem System.Ordered.committing (kept : s.Ordered Rel) {log : Log DB T} {ws : List W}
    (commits : s.committing e = some (log, ws)) :
    log.Pairwise fun newer older => Rel older.2.db newer.2.db := by
  cases e with
  | run i =>
    simp only [System.committing] at commits
    split at commits
    · rename_i found
      cases commits
      exact (kept _ (List.mem_of_getElem? found)).log
    · cases commits
  | _ => cases commits

end Moments
end Engine
