import CryptoGateway.Engine.Conduct

/-!
Histories: where a session of a later state came from, that what it remembers and writes was
permitted at the time, and counts along a run.
-/
namespace Engine

variable {DB W R T ε α Q : Type}

def Session.running (c : Session DB W R T ε α) : Bool :=
  match c.code with
  | none => false
  | some (.done _) => false
  | some (.fail _) => false
  | some _ => true

theorem Session.running_iff {c : Session DB W R T ε α} : c.running = true ↔ ¬c.Ended := by
  obtain ⟨code, held, writes, log, snapshot⟩ := c
  cases code with
  | none => simp [Session.running, Session.Ended, Session.Ahead]
  | some p => cases p <;>
      simp [Session.running, Session.Ended, Session.Ahead, Proc.Succeeded, Proc.Failed]

variable [DecidableEq R] [Store DB W R] {M : Option T → Log DB T → List W → List W → Prop}
  {C : Log DB T → List W → Prop} {program : Q → Proc DB W R T ε α}
  {allow : System DB W R T ε α → Event Q → Prop} {init s s' : System DB W R T ε α} {e : Event Q}
  {i : Nat} {c c' : Session DB W R T ε α}

section Origins
variable (M C program s e i c')

/-- Where session `i` comes from in a step. -/
inductive Session.Origin : Prop where
  | new (absent : s.sessions[i]? = none) (q : Q) (fresh : c' = { code := some (program q) })
  | same (found : s.sessions[i]? = some c')
  | turned {c : Session DB W R T ε α} (found : s.sessions[i]? = some c)
      (ended : c.Ended → c'.Ended) (turn : c.Turn M c')
  | committed {c : Session DB W R T ε α} (found : s.sessions[i]? = some c) (running : ¬c.Ended)
      (own : e = .run i) (commits : s.committing e = some (c.log, c.writes))
      (may : C c.log c.writes) (log : c'.log = c.log) (writes : c'.writes = [])

end Origins

omit [DecidableEq R] in
theorem System.Turn.origin (turn : System.Turn M C program s e s')
    (found : s'.sessions[i]? = some c') : Session.Origin M C program s e i c' := by
  cases turn with
  | spawned event db sessions =>
    rw [sessions] at found
    cases old : s.sessions[i]? with
    | some c =>
      rw [List.getElem?_append_left (List.getElem?_eq_some_iff.mp old).1, old] at found
      cases found
      exact .same old
    | none =>
      rcases append_cases found with stored | ⟨_, rfl⟩
      · cases old.symm.trans stored
      · exact .new old _ rfl
  | turned own there sessions ended quiet db turn =>
    rw [sessions] at found
    rcases set_cases found with ⟨rfl, rfl⟩ | ⟨_, stored⟩
    · exact .turned there ended turn
    · exact .same stored
  | committed own there sessions running commits may db log writes =>
    rw [sessions] at found
    rcases set_cases found with ⟨rfl, rfl⟩ | ⟨_, stored⟩
    · exact .committed there running own commits may log writes
    · exact .same stored

omit [DecidableEq R] in
theorem System.Turn.after_commit (turn : System.Turn M C program s e s') {log : Log DB T}
    {ws : List W} (commits : s.committing e = some (log, ws)) :
    ∃ i c, e = .run i ∧ s'.sessions[i]? = some c ∧ c.log = log ∧ c.writes = [] := by
  cases turn with
  | spawned event => rw [event] at commits; cases commits
  | turned own found sessions ended quiet => cases quiet.symm.trans commits
  | @committed i c c' own found sessions running here may db log writes =>
    cases here.symm.trans commits
    refine ⟨i, c', own, ?_, log, writes⟩
    rw [sessions]
    exact List.getElem?_set_self (List.getElem?_eq_some_iff.mp found).1

variable (M) in
structure Session.Conducted (c : Session DB W R T ε α) : Prop where
  log : ∀ newer tag m older, c.log = newer ++ (tag, m) :: older →
    ∃ ws new, M (some tag) older ws new
  writes : c.writes = [] ∨ ∃ tag m log ws new, M tag log ws new ∧
    c.log = record tag m log ∧ c.writes = ws ++ new

omit [DecidableEq R] [Store DB W R] in
theorem Session.Conducted.turn (conducted : c.Conducted M) (turn : c.Turn M c') :
    c'.Conducted M := by
  cases turn with
  | still log writes => exact ⟨log ▸ conducted.log, log ▸ writes ▸ conducted.writes⟩
  | dropped may log writes => exact ⟨log ▸ conducted.log, .inl writes⟩
  | @moved tag m new may log writes =>
    refine ⟨?_, .inr ⟨tag, m, _, _, new, may, log, writes⟩⟩
    rw [log]
    cases tag with
    | none => exact conducted.log
    | some t =>
      intro newer tag m' older split
      cases newer with
      | nil =>
        obtain ⟨⟨rfl, rfl⟩, rfl⟩ := List.cons.inj split |>.imp Prod.mk.inj id
        exact ⟨_, _, may⟩
      | cons entry newer => exact conducted.log newer tag m' older (List.cons.inj split).2

theorem System.Reach.conducted
    (programs : ∀ q, (program q).Acts M C (fun _ _ _ => True) (fun _ _ _ => True) [] [])
    (idle : init.sessions = []) (reached : System.Reach program allow init s)
    (found : s.sessions[i]? = some c) : c.Conducted M := by
  induction reached generalizing c with
  | refl => simp [idle] at found
  | step before taken allowed ih =>
    cases (System.step_turn (before.acting programs idle) taken).origin found with
    | new absent q fresh => exact ⟨by simp [fresh], .inl (by simp [fresh])⟩
    | same stored => exact ih stored
    | turned stored ended turn => exact (ih stored).turn turn
    | committed stored running own commits may log writes =>
      exact ⟨log ▸ (ih stored).log, .inl writes⟩

omit [DecidableEq R] [Store DB W R] in
theorem record_suffix (tag : Option T) (m : Moment DB) (log : Log DB T) :
    log <:+ record tag m log := by
  cases tag with
  | none => exact List.suffix_refl _
  | some t => exact List.suffix_cons _ _

theorem System.step_session {P : DB → Prop} (holds : P s.db) (taken : s.step program e = some s')
    (found : s'.sessions[i]? = some c') :
    (∃ q : Q, c' = { code := some (program q) }) ∨
      ∃ c, s.sessions[i]? = some c ∧ (c' = c ∨ c.Proceeds P c') := by
  cases old : s.sessions[i]? with
  | some c =>
    obtain ⟨d, there, same | ⟨_, proceeds⟩⟩ := System.step_proceeds holds taken old
    · cases there.symm.trans found
      exact .inr ⟨c, rfl, .inl same⟩
    · cases there.symm.trans found
      exact .inr ⟨c, rfl, .inr proceeds⟩
  | none =>
    have kept : ∀ {j : Nat} {d d' : Session DB W R T ε α}, s.sessions[j]? = some d →
        (s.sessions.set j d')[i]? ≠ some c' := by
      intro j d d' there set
      rcases set_cases set with ⟨rfl, _⟩ | ⟨_, stored⟩
      · cases old.symm.trans there
      · cases old.symm.trans stored
    cases System.step_inv taken with
    | spawn q =>
      rcases append_cases found with stored | ⟨_, rfl⟩
      · cases old.symm.trans stored
      · exact .inl ⟨q, rfl⟩
    | read there => exact absurd found (kept there)
    | waits there => exact absurd found (kept there)
    | granted there => exact absurd found (kept there)
    | commit there => exact absurd found (kept there)
    | rollback there => exact absurd found (kept there)
    | fresh there => exact absurd found (kept there)
    | tick there => exact absurd found (kept there)
    | abort there => exact absurd found (kept there)

omit [DecidableEq R] in
theorem Session.Ended.proceeds {P : DB → Prop} (ended : c.Ended) (proceeds : c.Proceeds P c') :
    c'.Ended ∧ c'.log = c.log := by
  refine ⟨ended.follows proceeds.follows, ?_⟩
  have finished : ∀ p, c.code = some p → p.Succeeded ∨ p.Failed := ended
  cases proceeds with
  | read code m => exact absurd (finished _ code) (by simp [Proc.Succeeded, Proc.Failed])
  | granted code => exact absurd (finished _ code) (by simp [Proc.Succeeded, Proc.Failed])
  | tick code m => exact absurd (finished _ code) (by simp [Proc.Succeeded, Proc.Failed])
  | _ => rfl

theorem System.Reach.remembers (found : s.sessions[i]? = some c)
    (later : System.Reach program allow s s') :
    ∃ c', s'.sessions[i]? = some c' ∧ c.log <:+ c'.log := by
  induction later with
  | refl => exact ⟨c, found, List.suffix_refl _⟩
  | step before taken allowed ih =>
    obtain ⟨d, stored, suffix⟩ := ih
    obtain ⟨d', stored', rfl | ⟨_, proceeds⟩⟩ :=
      System.step_proceeds (P := fun _ => True) trivial taken stored
    · exact ⟨d', stored', suffix⟩
    · refine ⟨d', stored', suffix.trans ?_⟩
      cases proceeds with
      | read code m => exact record_suffix _ _ _
      | granted code => exact record_suffix _ _ _
      | tick code m => exact record_suffix _ _ _
      | _ => exact List.suffix_refl _

theorem pairwise_of_split {τ : Type} {Rel : τ → τ → Prop} {log : List τ}
    (each : ∀ newer x middle y older, log = newer ++ x :: (middle ++ y :: older) → Rel x y) :
    log.Pairwise Rel := by
  induction log with
  | nil => exact .nil
  | cons x rest ih =>
    refine List.pairwise_cons.mpr ⟨fun y mem => ?_, ih fun newer a middle b older split => ?_⟩
    · obtain ⟨middle, older, rfl⟩ := List.append_of_mem mem
      exact each [] x middle y older rfl
    · exact each (x :: newer) a middle b older (by rw [split]; rfl)

/-- A run from `s` along which `count` adds up to `n`. -/
inductive System.Counted (program : Q → Proc DB W R T ε α)
    (allow : System DB W R T ε α → Event Q → Prop) (count : System DB W R T ε α → Event Q → Nat)
    (s : System DB W R T ε α) : System DB W R T ε α → Nat → Prop where
  | refl : Counted program allow count s s 0
  | step {s₁ s₂ : System DB W R T ε α} {e : Event Q} {n : Nat}
      (before : Counted program allow count s s₁ n) (taken : s₁.step program e = some s₂)
      (allowed : allow s₁ e) : Counted program allow count s s₂ (n + count s₁ e)

theorem System.Counted.again {count : System DB W R T ε α → Event Q → Nat}
    {s₁ s₂ s₃ : System DB W R T ε α} {e : Event Q} {n : Nat}
    (counted : System.Counted program allow count s s₁ n)
    (later : System.Reach program allow s₁ s₂) (taken : s₂.step program e = some s₃)
    (allowed : allow s₂ e) (counts : 0 < count s₂ e) :
    ∃ m, n < m ∧ System.Counted program allow count s s₃ m := by
  have reached : ∃ m, n ≤ m ∧ System.Counted program allow count s s₂ m := by
    clear taken allowed counts
    induction later with
    | refl => exact ⟨n, Nat.le_refl n, counted⟩
    | step before taken allowed ih =>
      obtain ⟨m, more, there⟩ := ih
      exact ⟨_, Nat.le_add_right_of_le more, there.step taken allowed⟩
  obtain ⟨m, more, there⟩ := reached
  exact ⟨_, by omega, there.step taken allowed⟩

end Engine
