import CryptoGateway.Engine.Runs
import CryptoGateway.Engine.Sessions

/-!
Sessions that work under one exclusive lock: a fact that only a holder can establish finds every
other one outside, which then enters knowing it. A session that nobody blocks ends.
-/
namespace Engine

variable {DB W R T ε δ α β Q : Type}

def Session.Ended (c : Session DB W R T ε α) : Prop := c.Ahead fun p => p.Succeeded ∨ p.Failed

variable [DecidableEq R] [Store DB W R]

omit [DecidableEq R] in
theorem Session.Ended.follows {c c' : Session DB W R T ε α} (ended : c.Ended)
    (follows : c.Follows c') : c'.Ended := ended.final (fun _ over_ => over_) follows

/-- Where the store satisfies `N`, the first thing the process asks it for is the lock,
    and one transaction under the lock is all it does. -/
def Proc.Enters (l : Lock R) (N : DB → Prop) : Proc DB W R T ε α → Prop
  | .fail _ => True
  | .clock none next => ∀ t, (next t).Enters l N
  | .fresh next => ∀ n, (next n).Enters l N
  | .stmt none exec next =>
      (∀ seen seen' newest grant, exec seen newest grant = exec seen' newest grant) ∧
      ∀ seen newest grant, N newest → l ∈ required DB (exec seen newest grant) ∧
        (next (exec seen newest grant).value).OneTransaction
  | _ => False

omit [DecidableEq R] in
theorem Proc.Enters.mapError {l : Lock R} {N : DB → Prop} {p : Proc DB W R T ε α}
    (enters : p.Enters l N) (f : ε → δ) : (p.mapError f).Enters l N := by
  induction p with
  | fail e => trivial
  | clock tag next ih =>
    cases tag with
    | some tag => exact enters.elim
    | none => exact fun t => ih t (enters t)
  | fresh next ih => exact fun n => ih n (enters n)
  | stmt tag exec next ih =>
    cases tag with
    | some tag => exact enters.elim
    | none =>
      refine ⟨enters.1, fun seen newest grant new => ?_⟩
      obtain ⟨lock, one⟩ := enters.2 seen newest grant new
      exact ⟨lock, OneTransaction.mapError one f⟩
  | _ => exact enters.elim

omit [DecidableEq R] in
theorem Proc.Enters.map {l : Lock R} {N : DB → Prop} {p : Proc DB W R T ε α}
    (enters : p.Enters l N) (f : α → β) : (p.bind fun a => .done (f a)).Enters l N := by
  induction p with
  | fail e => trivial
  | clock tag next ih =>
    cases tag with
    | some tag => exact enters.elim
    | none => exact fun t => ih t (enters t)
  | fresh next ih => exact fun n => ih n (enters n)
  | stmt tag exec next ih =>
    cases tag with
    | some tag => exact enters.elim
    | none =>
      refine ⟨enters.1, fun seen newest grant new => ?_⟩
      obtain ⟨lock, one⟩ := enters.2 seen newest grant new
      exact ⟨lock, OneTransaction.map one f⟩
  | _ => exact enters.elim

section
variable (spec : Spec DB W R T) (post : α → Prop) (fault : ε → Prop) (l : Lock R)
  (N K : DB → Prop)

/-- A process under the lock that ends as promised when it starts on a store with `K`. -/
structure Knocks (p : Proc DB W R T ε α) : Prop where
  enters : p.Enters l N
  ready : ∀ (log : Log DB T) (db : DB), spec.inv db → K db →
    wp spec p (fun a _ => post a) (fun e _ => fault e) ⟨[], [], log, db⟩

inductive Session.Stage (c : Session DB W R T ε α) : Prop where
  | outside {p : Proc DB W R T ε α} (code : c.code = some p) (held : c.held = [])
      (writes : c.writes = []) (knocks : Knocks spec post fault l N K p)
  | inside (lock : l ∈ c.held) (ahead : c.Ahead Proc.OneTransaction)
  | ended (finished : c.Ended)

end

section
variable {spec : Spec DB W R T} {post : α → Prop} {fault : ε → Prop} {l : Lock R}
  {N K : DB → Prop} {c c' : Session DB W R T ε α}

theorem Knocks.tick {tag : Option T} {next : Int → Proc DB W R T ε α}
    (knocks : Knocks spec post fault l N K (.clock tag next)) (t : Int) :
    Knocks spec post fault l N K (next t) := by
  cases tag with
  | some tag => exact knocks.enters.elim
  | none =>
    refine ⟨knocks.enters t, fun log db inv known => ?_⟩
    exact knocks.ready log db inv known ⟨db, t⟩ .refl inv

theorem Knocks.fresh {next : Nat → Proc DB W R T ε α}
    (knocks : Knocks spec post fault l N K (.fresh next)) (n : Nat) :
    Knocks spec post fault l N K (next n) :=
  ⟨knocks.enters n, fun log db inv known => knocks.ready log db inv known n db .refl inv⟩

theorem Session.Stage.proceeds (stage : c.Stage spec post fault l N K)
    (proceeds : c.Proceeds N c') : c'.Stage spec post fault l N K := by
  cases stage with
  | ended finished => exact .ended (finished.follows proceeds.follows)
  | inside lock ahead =>
    have later := ahead.oneTransaction proceeds.follows
    cases proceeds with
    | read code m => exact .inside lock later
    | waits m => exact .inside lock later
    | granted code => exact .inside (List.mem_append_right _ lock) later
    | commit code =>
      refine .ended ?_
      rintro _ ⟨⟩
      exact .inl (ahead _ code)
    | rollback code =>
      refine .ended ?_
      rintro _ ⟨⟩
      exact .inr (ahead _ code)
    | fresh code n => exact .inside lock later
    | tick code m => exact .inside lock later
    | abort => exact .ended (by rintro _ ⟨⟩)
  | @outside p code held writes knocks =>
    cases proceeds with
    | waits m => exact .outside code held writes knocks
    | abort => exact .ended (by rintro _ ⟨⟩)
    | tick code' m =>
      cases code.symm.trans code'
      exact .outside rfl held writes (knocks.tick m.now)
    | fresh code' n =>
      cases code.symm.trans code'
      exact .outside rfl held writes (knocks.fresh n)
    | @granted β tag exec next code' m waiting db holds grant =>
      cases code.symm.trans code'
      have enters := knocks.enters
      cases tag with
      | some tag => exact enters.elim
      | none =>
        rw [writes]
        obtain ⟨lock, one⟩ := enters.2 m.db db grant holds
        refine .inside (List.mem_append_left _ lock) ?_
        rintro _ ⟨⟩
        exact one
    | read code' => cases code.symm.trans code'; exact knocks.enters.elim
    | commit code' => cases code.symm.trans code'; exact knocks.enters.elim
    | rollback code' => cases code.symm.trans code'; exact knocks.enters.elim

theorem Knocks.safe {p : Proc DB W R T ε α} {db : DB} (knocks : Knocks spec post fault l N K p)
    (code : c.code = some p) (held : c.held = []) (writes : c.writes = [])
    (sane : Safe spec (fun _ => True) (fun _ => True) db c) (inv : spec.inv db) (known : K db) :
    Safe spec post fault db c := by
  intro p' code'
  cases code.symm.trans code'
  have ready := knocks.ready c.log db inv known
  cases wait : c.snapshot with
  | none => rw [held, writes]; exact ready
  | some m =>
    have enters := knocks.enters
    cases p with
    | @stmt β tag exec next =>
      cases tag with
      | some tag => exact enters.elim
      | none =>
        rw [held, writes]
        intro db' later inv' grant
        have same := enters.1 m.db db db' grant
        simp only [applyAll_nil] at same ⊢
        rw [same]
        exact ready ⟨db, 0⟩ .refl inv db' later inv' grant
    | clock tag next =>
      obtain ⟨idle, _⟩ := sane.idle code fun _ => id
      cases idle.symm.trans wait
    | fresh next =>
      obtain ⟨idle, _⟩ := sane.idle code fun _ => id
      cases idle.symm.trans wait
    | fail e =>
      obtain ⟨idle, _⟩ := sane.idle code fun _ => id
      cases idle.symm.trans wait
    | _ => exact enters.elim

variable {program : Q → Proc DB W R T ε α} {allow : System DB W R T ε α → Event Q → Prop}
  {s s' : System DB W R T ε α} {e : Event Q} {i : Nat}

omit [DecidableEq R] [Store DB W R] in
theorem System.committing_eq_some {log : Log DB T} {ws : List W}
    (commits : s.committing e = some (log, ws)) :
    ∃ i c, e = .run i ∧ s.sessions[i]? = some c ∧ c.writes = ws := by
  cases e with
  | run i =>
    simp only [System.committing] at commits
    split at commits
    · rename_i found
      cases commits
      exact ⟨i, _, rfl, found, rfl⟩
    · cases commits
  | _ => cases commits

theorem System.Reach.entered (sound : ∀ s', System.Reach program allow s s' → Sound spec s')
    (back : ∀ {s'} {e : Event Q} {log ws}, System.Reach program allow s s' →
      s'.committing e = some (log, ws) → N (applyAll ws s'.db) → N s'.db)
    (turned : ∀ {s'} {e : Event Q} {log ws}, System.Reach program allow s s' →
      s'.committing e = some (log, ws) → K (applyAll ws s'.db) →
      K s'.db ∨ N s'.db ∧ ∃ w ∈ ws, l ∈ Store.needs DB w)
    (exclusive : clash l l = true) (found : s.sessions[i]? = some c)
    (start : c.Stage spec post fault l N K) (free : c.held = [])
    (reached : System.Reach program allow s s') :
    ∃ c, s'.sessions[i]? = some c ∧ (N s'.db → c.Stage spec post fault l N K) ∧
      (K s'.db → c.Ended ∨ Safe spec post fault s'.db c) := by
  induction reached with
  | refl =>
    refine ⟨c, found, fun _ => start, fun known => ?_⟩
    have here := sound s .refl
    cases start with
    | outside code held writes knocks =>
      exact .inr (knocks.safe code held writes (here.safe i c found) here.inv known)
    | inside lock => rw [free] at lock; cases lock
    | ended finished => exact .inl finished
  | @step s₁ s₂ e before taken allowed ih =>
    obtain ⟨c, found, stage, knows⟩ := ih
    have here := sound s₁ before
    have there := sound s₂ (.step before taken allowed)
    obtain ⟨c', found', moved⟩ := System.step_follows taken found
    have still : K s₁.db → c'.Ended ∨ Safe spec post fault s₂.db c' := by
      intro old
      rcases knows old with finished | safe
      · rcases moved with rfl | ⟨_, follows⟩
        · exact .inl finished
        · exact .inl (finished.follows follows)
      · obtain ⟨c'', same, safe'⟩ := here.step_safe taken found safe
        cases found'.symm.trans same
        exact .inr safe'
    refine ⟨c', found', fun new => ?_, fun known => ?_⟩
    · have old : N s₁.db := by
        rcases System.step_db taken with ⟨_, same⟩ | ⟨log, ws, commits, moved'⟩
        · rwa [same] at new
        · rw [moved'] at new
          exact back before commits new
      obtain ⟨c'', found'', rfl | ⟨_, proceeds⟩⟩ := System.step_proceeds old taken found
      · cases found'.symm.trans found''
        exact stage old
      · cases found'.symm.trans found''
        exact (stage old).proceeds proceeds
    by_cases old : K s₁.db
    · exact still old
    -- the step commits a write that its session holds the lock for
    rcases System.step_db taken with ⟨_, same⟩ | ⟨log, ws, commits, moved'⟩
    · rw [same] at known; exact absurd known old
    rw [moved'] at known
    obtain ⟨new, w, mem, need⟩ := (turned before commits known).resolve_left old
    rw [← moved'] at known
    have stage := stage new
    obtain ⟨j, d, rfl, foundD, rfl⟩ := System.committing_eq_some commits
    have locked : l ∈ d.held := here.exclusive.covered j d foundD w mem l need
    by_cases own : j = i
    · subst own
      cases found.symm.trans foundD
      cases stage with
      | outside code held writes knocks => rw [writes] at mem; cases mem
      | ended finished => exact .inl (by
          rcases moved with rfl | ⟨_, follows⟩
          · exact finished
          · exact finished.follows follows)
      | inside lock ahead =>
        rcases System.step_own taken rfl with same | ⟨c₁, next, foundC, code, after⟩
        · rw [same] at known; exact absurd known old
        · cases found.symm.trans foundC
          refine .inl fun p code' => .inl ?_
          cases (after.of found').symm.trans code'
          exact ahead _ code
    · have still : c' = c := by
        rcases moved with same | ⟨session, _⟩
        · exact same
        · exact absurd (Option.some.inj session) own
      subst still
      cases stage with
      | outside code held writes knocks =>
        exact .inr (knocks.safe code held writes (there.safe i _ found') there.inv known)
      | ended finished => exact .inl finished
      | inside lock =>
        have apart := here.exclusive.apart j i d c' own foundD found l locked l lock
        rw [exclusive] at apart
        cases apart

end

section
variable {program : Q → Proc DB W R T ε α} {allow : System DB W R T ε α → Event Q → Prop}
  {s s' : System DB W R T ε α} {i : Nat} {c : Session DB W R T ε α}

def System.Alone (s : System DB W R T ε α) (i : Nat) : Prop :=
  ∀ j d, j ≠ i → s.sessions[j]? = some d → d.held = []

omit [Store DB W R] in
theorem System.Alone.grants (alone : s.Alone i) (l : Lock R) :
    free (s.sessions.eraseIdx i) l = true := by
  simp only [free, List.all_eq_true]
  intro d mem h held
  obtain ⟨j, ne, found⟩ := List.mem_eraseIdx_iff_getElem?.mp mem
  rw [alone j d ne found] at held
  cases held

omit [DecidableEq R] [Store DB W R] in
theorem System.Alone.update (alone : s.Alone i) {db : DB} {now : Int} {n : Nat}
    (c : Session DB W R T ε α) :
    System.Alone { s.update i c with db := db, now := now, nextId := n } i := by
  intro j d ne found
  rcases set_cases found with ⟨same, _⟩ | ⟨_, old⟩
  · exact absurd same ne
  · exact alone j d ne old

theorem System.Alone.finishes (may : ∀ s e, e.session = some i → allow s e) (alone : s.Alone i)
    (found : s.sessions[i]? = some c) {p : Proc DB W R T ε α} (code : c.code = some p) :
    ∃ s', System.Reach program allow s s' ∧
      s'.Shows (fun c => ∃ p, c.code = some p ∧ (p.Succeeded ∨ p.Failed)) i := by
  have here : ∀ (s : System DB W R T ε α) {c d : Session DB W R T ε α},
      s.sessions[i]? = some c → (s.sessions.set i d)[i]? = some d :=
    fun s c d found => List.getElem?_set_self (List.getElem?_eq_some_iff.mp found).1
  -- one own step, then the rest of the process
  have go : ∀ {s s₁ : System DB W R T ε α} {e : Event Q}, e.session = some i →
      s.step program e = some s₁ →
      (∃ s', System.Reach program allow s₁ s' ∧
        s'.Shows (fun c => ∃ p, c.code = some p ∧ (p.Succeeded ∨ p.Failed)) i) →
      ∃ s', System.Reach program allow s s' ∧
        s'.Shows (fun c => ∃ p, c.code = some p ∧ (p.Succeeded ∨ p.Failed)) i := by
    rintro s s₁ e own taken ⟨s', reached, shows_⟩
    exact ⟨s', System.Reach.trans (.step .refl taken (may s e own)) reached, shows_⟩
  have run : ∀ {s : System DB W R T ε α} {c : Session DB W R T ε α} {p : Proc DB W R T ε α},
      s.sessions[i]? = some c → c.code = some p →
      s.step program (.run i) = s.runSession i c p :=
    fun found code => by simp [System.step, found, code]
  induction p generalizing s c with
  | done a => exact ⟨s, .refl, c, found, _, code, .inl ⟨a, rfl⟩⟩
  | fail e => exact ⟨s, .refl, c, found, _, code, .inr ⟨e, rfl⟩⟩
  | read tag query next ih =>
    refine go rfl (run found code) ?_
    exact ih _ (alone.update _) (here s found) rfl
  | clock tag next ih =>
    have taken : s.step program (.tick i 0) = s.tickSession i 0 c (.clock tag next) := by
      simp [System.step, found, code]
    refine go rfl taken ?_
    exact ih 0 (alone.update _) (here s found) rfl
  | commit next ih =>
    refine go rfl (run found code) ?_
    exact ih (alone.update _) (here s found) rfl
  | rollback next ih =>
    refine go rfl (run found code) ?_
    exact ih (alone.update _) (here s found) rfl
  | fresh next ih =>
    refine go rfl (run found code) ?_
    exact ih _ (alone.update _) (here s found) rfl
  | stmt tag exec next ih =>
    -- with its snapshot taken the statement gets every lock it asks for
    have granted : ∀ {s : System DB W R T ε α} {c : Session DB W R T ε α} {m : Moment DB},
        s.Alone i → s.sessions[i]? = some c → c.code = some (.stmt tag exec next) →
        c.snapshot = some m → ∃ s', System.Reach program allow s s' ∧
          s'.Shows (fun c => ∃ p, c.code = some p ∧ (p.Succeeded ∨ p.Failed)) i := by
      intro s c m alone found code waiting
      have all : (required DB (exec (applyAll c.writes m.db) (applyAll c.writes s.db)
          (free (s.sessions.eraseIdx i)))).all (free (s.sessions.eraseIdx i)) = true :=
        List.all_eq_true.mpr fun l _ => alone.grants l
      have taken := run found code
      simp only [System.runSession, waiting, all, if_true] at taken
      exact go rfl taken (ih _ (alone.update _) (here s found) rfl)
    cases waiting : c.snapshot with
    | some m => exact granted alone found code waiting
    | none =>
      have taken := run found code
      simp only [System.runSession, waiting] at taken
      exact go rfl taken (granted (alone.update _) (here s found) code rfl)

end
end Engine
