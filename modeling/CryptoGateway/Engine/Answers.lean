import CryptoGateway.Engine.Sections

/-!
Processes that answer with what they commit: a commit that writes is the last thing they do, and
every other answer repeats what somebody else has committed.
-/
namespace Engine

variable {DB W R T ε δ α β Q : Type}

namespace Proc

/-- A commit with writes `ws` answers some `a` with `F a ws` at once; an answer that no
    writes went before satisfies `G`. -/
def Settles (F G : α → List W → Prop) : List W → Proc DB W R T ε α → Prop
  | ws, .done a => G a ws
  | _, .fail _ => True
  | ws, .read _ _ next => ∀ b, (next b).Settles F G ws
  | ws, .stmt _ exec next => ∀ seen newest grant,
      (next (exec seen newest grant).value).Settles F G (ws ++ (exec seen newest grant).writes)
  | ws, .commit next => (ws = [] ∧ next.Settles F G []) ∨ ∃ a, next = .done a ∧ F a ws
  | _, .rollback next => next.Settles F G []
  | ws, .clock _ next => ∀ t, (next t).Settles F G ws
  | ws, .fresh next => ∀ n, (next n).Settles F G ws

variable {p : Proc DB W R T ε α} {F G : α → List W → Prop} {ws : List W}

theorem Settles.ends {f : α → Proc DB W R T δ β} {g : ε → Proc DB W R T δ β}
    {F' G' : β → List W → Prop} (first : p.Settles F G ws)
    (last : ∀ a ws, F a ws → ∃ b, f a = .done b ∧ F' b ws)
    (good : ∀ a ws, G a ws → (f a).Settles F' G' ws) (bad : ∀ e ws, (g e).Settles F' G' ws) :
    (p.ends f g).Settles F' G' ws := by
  induction p generalizing ws with
  | done a => exact good a ws first
  | fail e => exact bad e ws
  | read tag query next ih => exact fun b => ih b (first b)
  | stmt tag exec next ih => exact fun seen newest grant => ih _ (first seen newest grant)
  | commit next ih =>
    rcases first with ⟨none_, first⟩ | ⟨a, rfl, fits⟩
    · exact .inl ⟨none_, ih first⟩
    · exact .inr (last a ws fits)
  | rollback next ih => exact ih first
  | clock tag next ih => exact fun t => ih t (first t)
  | fresh next ih => exact fun n => ih n (first n)

theorem Settles.bind {f : α → Proc DB W R T ε β} {F' G' : β → List W → Prop}
    (first : p.Settles F G ws) (last : ∀ a ws, F a ws → ∃ b, f a = .done b ∧ F' b ws)
    (rest : ∀ a ws, G a ws → (f a).Settles F' G' ws) : (p.bind f).Settles F' G' ws := by
  rw [bind_eq_ends]
  exact first.ends last rest fun _ _ => trivial

theorem Settles.handle {recover : ε → Proc DB W R T δ α} (first : p.Settles F G ws)
    (rest : ∀ e ws, (recover e).Settles F G ws) : (p.handle recover).Settles F G ws := by
  rw [handle_eq_ends]
  exact first.ends (fun a _ fits => ⟨a, rfl, fits⟩) (fun _ _ => id) rest

theorem Settles.mapError (first : p.Settles F G ws) (f : ε → δ) : (p.mapError f).Settles F G ws :=
  first.handle fun _ _ => trivial

theorem Settles.transaction (first : p.Settles F G ws) : p.transaction.Settles F G ws :=
  first.handle fun _ _ => trivial

theorem caught_eq_ends (p : Proc DB W R T ε α) :
    (p.transaction.caught : Proc DB W R T δ (Except ε α)) =
      p.ends (fun a => .done (.ok a)) fun e => .rollback (.done (.error e)) := by
  induction p <;> simp_all [Proc.transaction, caught, Proc.bind, Proc.handle, Proc.ends]

theorem Settles.caught (first : p.Settles F G ws) :
    (p.transaction.caught : Proc DB W R T δ (Except ε α)).Settles
      (fun r ws => ∃ a, r = .ok a ∧ F a ws)
      (fun r ws => (∃ a, r = .ok a ∧ G a ws) ∨ ∃ e, r = .error e ∧ ws = []) ws := by
  rw [caught_eq_ends]
  exact first.ends (fun a _ fits => ⟨.ok a, rfl, a, rfl, fits⟩)
    (fun a _ fits => .inl ⟨a, rfl, fits⟩)
    fun e _ => .inr ⟨e, rfl, rfl⟩

theorem Settles.map {F' G' : β → List W → Prop} (first : p.Settles F G ws) (f : α → β)
    (fits : ∀ a ws, F a ws → F' (f a) ws) (repeats : ∀ a ws, G a ws → G' (f a) ws) :
    (p.bind fun a => .done (f a)).Settles F' G' ws :=
  first.bind (fun a ws fit => ⟨f a, rfl, fits a ws fit⟩) repeats

theorem Quiet.settles (quiet : p.Quiet) : p.Settles F (fun _ ws' => ws ⊆ ws') ws := by
  -- a tail of the process starts from more writes than the whole
  suffices ∀ ws', ws ⊆ ws' → p.Settles F (fun _ ws' => ws ⊆ ws') ws' from
    this ws fun _ mem => mem
  induction p with
  | done a => exact fun ws' more => more
  | fail e => exact fun _ _ => trivial
  | read tag query next ih => exact fun ws' more b => ih b (quiet b) ws' more
  | stmt tag exec next ih =>
    exact fun ws' more seen newest grant =>
      ih _ (quiet _) _ (List.subset_append_of_subset_left _ more)
  | commit next ih => exact quiet.elim
  | rollback next ih => exact quiet.elim
  | clock tag next ih => exact fun ws' more t => ih t (quiet t) ws' more
  | fresh next ih => exact fun ws' more n => ih n (quiet n) ws' more

theorem Quiet.settles_bind {f : α → Proc DB W R T ε β} {F G : β → List W → Prop} (quiet : p.Quiet)
    (rest : ∀ a ws', ws ⊆ ws' → (f a).Settles F G ws') : (p.bind f).Settles F G ws :=
  Settles.bind (F := fun _ _ => False) quiet.settles (fun _ _ => False.elim) rest

end Proc

section Sessions
variable [DecidableEq R] [Store DB W R] {program : Q → Proc DB W R T ε α}
  {allow : System DB W R T ε α → Event Q → Prop} {s s' s'' : System DB W R T ε α} {e : Event Q}
  {i : Nat} {c : Session DB W R T ε α} {F : α → List W → Prop} {G : α → List W → Prop}

def Session.Settles (F G : α → List W → Prop) (c : Session DB W R T ε α) : Prop :=
  ∀ p, c.code = some p → p.Settles F G c.writes

/-- The session is under way as `Proc.Settles` describes, or has answered by a commit. -/
def Session.Settling (F G : α → List W → Prop) (c : Session DB W R T ε α) : Prop :=
  c.Settles F G ∨ c.Ahead Proc.Succeeded

omit [DecidableEq R] in
theorem Session.Settles.follows {c' : Session DB W R T ε α} (settles : c.Settles F G)
    (follows : c.Follows c') : c'.Settles F G ∨
      ∃ a, c.code = some (.commit (.done a)) ∧ F a c.writes ∧ c'.code = some (.done a) := by
  cases follows with
  | read code b log => exact .inl (by rintro _ ⟨⟩; exact settles _ code b)
  | waits m => exact .inl settles
  | granted code seen newest grant log =>
    exact .inl (by rintro _ ⟨⟩; exact settles _ code seen newest grant)
  | commit code =>
    rcases settles _ code with ⟨_, rest⟩ | ⟨a, rfl, fits⟩
    · exact .inl (by rintro _ ⟨⟩; exact rest)
    · exact .inr ⟨a, code, fits, rfl⟩
  | rollback code => exact .inl (by rintro _ ⟨⟩; exact settles _ code)
  | fresh code n => exact .inl (by rintro _ ⟨⟩; exact settles _ code n)
  | tick code t log => exact .inl (by rintro _ ⟨⟩; exact settles _ code t)
  | abort => exact .inl nofun

omit [DecidableEq R] in
theorem Session.Settling.follows {c' : Session DB W R T ε α} (settling : c.Settling F G)
    (follows : c.Follows c') : c'.Settling F G := by
  rcases settling with settles | ended
  · rcases settles.follows follows with still | ⟨a, _, _, answered⟩
    · exact .inl still
    · refine .inr fun p code => ⟨a, ?_⟩
      cases answered.symm.trans code
      rfl
  · exact .inr (ended.succeeded follows)

omit [DecidableEq R] [Store DB W R] in
theorem System.Shows.settling_committing (shows_ : s.Shows (·.Settling F G) i) {log : Log DB T}
    {ws : List W} (commits : s.committing (Event.run (Q := Q) i) = some (log, ws))
    (writes : ws ≠ []) : ∃ a, F a ws ∧ s.Shows (·.code = some (.commit (.done a))) i := by
  simp only [System.committing] at commits
  split at commits
  · rename_i found
    cases commits
    rcases shows_.of found with settles | ended
    · rcases settles _ rfl with ⟨none_, _⟩ | ⟨a, rfl, fits⟩
      · exact absurd none_ writes
      · exact ⟨a, fits, _, found, rfl⟩
    · obtain ⟨a, eq⟩ := ended _ rfl
      cases eq
  · cases commits

theorem System.Shows.settling_answers (shows_ : s.Shows (·.Settling F G) i)
    (taken : s.step program (.run i) = some s') {log : Log DB T} {ws : List W}
    (commits : s.committing (Event.run (Q := Q) i) = some (log, ws)) (writes : ws ≠ []) :
    ∃ a, F a ws ∧ s'.Shows (·.Ahead (· = .done a)) i := by
  obtain ⟨a, fits, c, found, code⟩ := shows_.settling_committing commits writes
  refine ⟨a, fits, { c with code := some (.done a), held := [], writes := [] }, ?_,
    fun p code' => ?_⟩
  · simp only [System.step, found, code, bind, Option.bind, System.runSession,
      Option.some.injEq] at taken
    rw [← taken]
    exact List.getElem?_set_self (List.getElem?_eq_some_iff.mp found).1
  · cases code'
    rfl

theorem System.Shows.settling_refused (shows_ : s.Shows (·.Settling F G) i)
    (taken : s.step program e = some s') (own : e.session = some i)
    (after : Reach program allow s' s'') {error : ε} (found : s''.sessions[i]? = some c)
    (failed : c.code = some (.fail error)) : s'.db = s.db := by
  rcases System.step_db taken with ⟨_, same⟩ | ⟨log, ws, commits, moved⟩
  · exact same
  by_cases writes : ws = []
  · rw [moved, writes]
    rfl
  obtain ⟨j, _, rfl, _, _⟩ := System.committing_eq_some commits
  cases own
  obtain ⟨a, _, answered⟩ := shows_.settling_answers taken commits writes
  cases (answered.reach (fun _ _ => Session.Ahead.returned) after).of found _ failed

theorem System.Shows.settles_reach (shows_ : s.Shows (·.Settles F G) i)
    (never : ∀ {s' log ws a}, Reach program allow s s' →
      s'.committing (Event.run (Q := Q) i) = some (log, ws) → ¬F a ws)
    (reached : Reach program allow s s') : s'.Shows (·.Settles F G) i := by
  induction reached with
  | refl => exact shows_
  | @step s₁ s₂ e before taken allowed ih =>
    obtain ⟨c, found, settles⟩ := ih
    obtain ⟨c', found', rfl | ⟨own, follows⟩⟩ := System.step_follows taken found
    · exact ⟨c', found', settles⟩
    rcases settles.follows follows with still | ⟨a, code, fits, _⟩
    · exact ⟨c', found', still⟩
    · have commits : s₁.committing (Event.run (Q := Q) i) = some (c.log, c.writes) := by
        obtain ⟨code', held, writes, log, snapshot⟩ := c
        cases code
        simp only [System.committing, found]
      exact absurd fits (never before commits)

end Sessions
end Engine
