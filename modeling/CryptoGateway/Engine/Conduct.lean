import CryptoGateway.Engine.Sections

/-!
The conduct of a session: which steps it may take by what it remembers and has written so far,
whatever the store answers.
-/
namespace Engine

variable {DB W R T ε δ α β Q : Type}

namespace Proc
variable [Store DB W R] {M : Option T → Log DB T → List W → List W → Prop}
  {C : Log DB T → List W → Prop}

/-- `M tag log ws new` permits a step that remembers under `tag` and adds the writes `new`,
    `C log ws` permits a commit, and the process ends as `Q` and `E` say. A rollback is
    permitted where a step that does nothing is. -/
def Acts (M : Option T → Log DB T → List W → List W → Prop) (C : Log DB T → List W → Prop)
    (Q : α → Log DB T → List W → Prop) (E : ε → Log DB T → List W → Prop) :
    Log DB T → List W → Proc DB W R T ε α → Prop
  | log, ws, .done a => Q a log ws
  | log, ws, .fail e => E e log ws
  | log, ws, .read tag query next => M tag log ws [] ∧ ∀ m : Moment DB,
      (next (query (applyAll ws m.db))).Acts M C Q E (record tag m log) ws
  | log, ws, .stmt tag exec next => ∀ (m : Moment DB) (db : DB) (grant : Lock R → Bool),
      M tag log ws (exec (applyAll ws m.db) (applyAll ws db) grant).writes ∧
      (next (exec (applyAll ws m.db) (applyAll ws db) grant).value).Acts M C Q E (record tag m log)
        (ws ++ (exec (applyAll ws m.db) (applyAll ws db) grant).writes)
  | log, ws, .commit next => C log ws ∧ next.Acts M C Q E log []
  | log, ws, .rollback next => M none log ws [] ∧ next.Acts M C Q E log []
  | log, ws, .clock tag next => M tag log ws [] ∧ ∀ m : Moment DB,
      (next m.now).Acts M C Q E (record tag m log) ws
  | log, ws, .fresh next => ∀ n, (next n).Acts M C Q E log ws

variable {p : Proc DB W R T ε α} {Q : α → Log DB T → List W → Prop}
  {E : ε → Log DB T → List W → Prop} {log : Log DB T} {ws : List W}

variable {E' : δ → Log DB T → List W → Prop}

theorem Acts.ends {f : α → Proc DB W R T δ β} {g : ε → Proc DB W R T δ β}
    {Q' : β → Log DB T → List W → Prop} (first : p.Acts M C Q E log ws)
    (good : ∀ a log ws, Q a log ws → (f a).Acts M C Q' E' log ws)
    (bad : ∀ e log ws, E e log ws → (g e).Acts M C Q' E' log ws) :
    (p.ends f g).Acts M C Q' E' log ws := by
  induction p generalizing log ws with
  | done a => exact good a log ws first
  | fail e => exact bad e log ws first
  | read tag query next ih => exact ⟨first.1, fun m => ih _ (first.2 m)⟩
  | stmt tag exec next ih =>
    exact fun m db grant => ⟨(first m db grant).1, ih _ (first m db grant).2⟩
  | commit next ih => exact ⟨first.1, ih first.2⟩
  | rollback next ih => exact ⟨first.1, ih first.2⟩
  | clock tag next ih => exact ⟨first.1, fun m => ih _ (first.2 m)⟩
  | fresh next ih => exact fun n => ih n (first n)

theorem Acts.bind {f : α → Proc DB W R T ε β} {Q' : β → Log DB T → List W → Prop}
    (first : p.Acts M C Q E log ws) (rest : ∀ a log ws, Q a log ws → (f a).Acts M C Q' E log ws) :
    (p.bind f).Acts M C Q' E log ws := by
  rw [bind_eq_ends]
  exact first.ends rest fun _ _ _ => id

theorem Acts.handle {recover : ε → Proc DB W R T δ α} (first : p.Acts M C Q E log ws)
    (rest : ∀ e log ws, E e log ws → (recover e).Acts M C Q E' log ws) :
    (p.handle recover).Acts M C Q E' log ws := by
  rw [handle_eq_ends]
  exact first.ends (fun _ _ _ => id) rest

theorem Acts.mono {M' : Option T → Log DB T → List W → List W → Prop}
    {C' : Log DB T → List W → Prop} {Q' : α → Log DB T → List W → Prop}
    {E' : ε → Log DB T → List W → Prop} (first : p.Acts M C Q E log ws)
    (move : ∀ tag log ws new, M tag log ws new → M' tag log ws new)
    (commit : ∀ log ws, C log ws → C' log ws) (good : ∀ a log ws, Q a log ws → Q' a log ws)
    (bad : ∀ e log ws, E e log ws → E' e log ws) : p.Acts M' C' Q' E' log ws := by
  induction p generalizing log ws with
  | done a => exact good a log ws first
  | fail e => exact bad e log ws first
  | read tag query next ih => exact ⟨move _ _ _ _ first.1, fun m => ih _ (first.2 m)⟩
  | stmt tag exec next ih =>
    exact fun m db grant => ⟨move _ _ _ _ (first m db grant).1, ih _ (first m db grant).2⟩
  | commit next ih => exact ⟨commit _ _ first.1, ih first.2⟩
  | rollback next ih => exact ⟨move _ _ _ _ first.1, ih first.2⟩
  | clock tag next ih => exact ⟨move _ _ _ _ first.1, fun m => ih _ (first.2 m)⟩
  | fresh next ih => exact fun n => ih n (first n)

theorem Acts.mapError {f : ε → δ}
    (first : p.Acts M C Q E log ws) (bad : ∀ e log ws, E e log ws → E' (f e) log ws) :
    (p.mapError f).Acts M C Q E' log ws := first.handle bad

theorem Acts.transaction {E' : ε → Log DB T → List W → Prop} (first : p.Acts M C Q E log ws)
    (bad : ∀ e log ws, E e log ws → M none log ws [] ∧ E' e log []) :
    p.transaction.Acts M C Q E' log ws := first.handle bad

theorem Acts.caught {Q' : Except ε α → Log DB T → List W → Prop} (first : p.Acts M C Q E log ws)
    (good : ∀ a log ws, Q a log ws → Q' (.ok a) log ws)
    (bad : ∀ e log ws, E e log ws → Q' (.error e) log ws) :
    (p.caught : Proc DB W R T δ (Except ε α)).Acts M C Q' E' log ws :=
  Acts.handle (first.bind good) bad

end Proc

section Turns
variable [DecidableEq R] [Store DB W R] (M : Option T → Log DB T → List W → List W → Prop)
  (C : Log DB T → List W → Prop)

def Session.Acting (Q : α → Log DB T → List W → Prop) (E : ε → Log DB T → List W → Prop)
    (c : Session DB W R T ε α) : Prop :=
  ∀ p, c.code = some p → p.Acts M C Q E c.log c.writes

def System.Acting (s : System DB W R T ε α) : Prop :=
  ∀ c ∈ s.sessions, c.Acting M C (fun _ _ _ => True) (fun _ _ _ => True)

inductive Session.Turn (c c' : Session DB W R T ε α) : Prop where
  | still (log : c'.log = c.log) (writes : c'.writes = c.writes)
  | moved {tag : Option T} {m : Moment DB} {new : List W} (may : M tag c.log c.writes new)
      (log : c'.log = record tag m c.log) (writes : c'.writes = c.writes ++ new)
  | dropped (may : M none c.log c.writes [] ∨ c'.code = none) (log : c'.log = c.log)
      (writes : c'.writes = [])

inductive System.Turn (program : Q → Proc DB W R T ε α) (s : System DB W R T ε α) (e : Event Q)
    (s' : System DB W R T ε α) : Prop where
  | spawned {q : Q} (event : e = .spawn q) (db : s'.db = s.db)
      (sessions : s'.sessions = s.sessions ++ [{ code := some (program q) }])
  | turned {i : Nat} {c c' : Session DB W R T ε α} (own : e.session = some i)
      (found : s.sessions[i]? = some c) (sessions : s'.sessions = s.sessions.set i c')
      (ended : c.Ended → c'.Ended) (quiet : s.committing e = none) (db : s'.db = s.db)
      (turn : c.Turn M c')
  | committed {i : Nat} {c c' : Session DB W R T ε α} (own : e = .run i)
      (found : s.sessions[i]? = some c) (sessions : s'.sessions = s.sessions.set i c')
      (running : ¬c.Ended) (commits : s.committing e = some (c.log, c.writes))
      (may : C c.log c.writes) (db : s'.db = applyAll c.writes s.db) (log : c'.log = c.log)
      (writes : c'.writes = [])

variable {M C} {program : Q → Proc DB W R T ε α} {allow : System DB W R T ε α → Event Q → Prop}
  {s s' : System DB W R T ε α} {e : Event Q} {i : Nat} {c c' : Session DB W R T ε α}

omit [DecidableEq R] in
theorem Session.Acting.proceeds {Q : α → Log DB T → List W → Prop}
    {E : ε → Log DB T → List W → Prop} (acting : c.Acting M C Q E)
    (proceeds : c.Proceeds (fun _ => True) c') : c'.Acting M C Q E := by
  cases proceeds with
  | read code m holds => rintro _ ⟨⟩; exact (acting _ code).2 m
  | waits m holds => exact acting
  | granted code waiting db holds grant => rintro _ ⟨⟩; exact (acting _ code _ db grant).2
  | commit code => rintro _ ⟨⟩; exact (acting _ code).2
  | rollback code => rintro _ ⟨⟩; exact (acting _ code).2
  | fresh code n => rintro _ ⟨⟩; exact acting _ code n
  | tick code m holds => rintro _ ⟨⟩; exact (acting _ code).2 m
  | abort => rintro _ ⟨⟩

omit [DecidableEq R] [Store DB W R] in
theorem Session.not_ended {p : Proc DB W R T ε α} (code : c.code = some p)
    (other : ¬(p.Succeeded ∨ p.Failed)) : ¬c.Ended := fun ended => other (ended p code)

theorem System.step_turn (acting : s.Acting M C)
    (taken : s.step program e = some s') : System.Turn M C program s e s' := by
  have act : ∀ {i : Nat} {c : Session DB W R T ε α}, s.sessions[i]? = some c →
      c.Acting M C (fun _ _ _ => True) (fun _ _ _ => True) :=
    fun found => acting _ (List.mem_of_getElem? found)
  cases System.step_inv taken with
  | spawn q => exact .spawned rfl rfl rfl
  | read found code =>
    exact .turned rfl found rfl (·.follows (.read code _ _))
      (System.committing_none found code (by simp)) rfl
      (.moved (act found _ code).1 rfl (List.append_nil _).symm)
  | waits found code started =>
    exact .turned rfl found rfl (·.follows (.waits _))
      (System.committing_none found code (by simp)) rfl (.still rfl rfl)
  | granted found code waiting executed =>
    subst executed
    exact .turned rfl found rfl (·.follows (.granted code _ _ _ _))
      (System.committing_none found code (by simp)) rfl (.moved (act found _ code _ _ _).1 rfl rfl)
  | commit found code =>
    refine .committed rfl found rfl (Session.not_ended code ?_)
      (System.committing_commit found code) (act found _ code).1 rfl rfl rfl
    simp [Proc.Succeeded, Proc.Failed]
  | rollback found code =>
    exact .turned rfl found rfl (·.follows (.rollback code))
      (System.committing_none found code (by simp)) rfl
      (.dropped (.inl (act found _ code).1) rfl rfl)
  | fresh found code =>
    exact .turned rfl found rfl (·.follows (.fresh code _))
      (System.committing_none found code (by simp)) rfl (.still rfl rfl)
  | tick found code =>
    exact .turned rfl found rfl (·.follows (.tick code _ _)) rfl rfl
      (.moved (act found _ code).1 rfl (List.append_nil _).symm)
  | abort found =>
    exact .turned rfl found rfl (·.follows .abort) rfl rfl (.dropped (.inr rfl) rfl rfl)

theorem System.Reach.acting {init : System DB W R T ε α}
    (programs : ∀ q, (program q).Acts M C (fun _ _ _ => True) (fun _ _ _ => True) [] [])
    (idle : init.sessions = []) (reached : System.Reach program allow init s) : s.Acting M C := by
  induction reached with
  | refl => simp [System.Acting, idle]
  | @step s s' e before taken allowed ih =>
    intro c' mem
    obtain ⟨i, found'⟩ := List.getElem?_of_mem mem
    cases old : s.sessions[i]? with
    | some c =>
      obtain ⟨d, there, rfl | ⟨_, proceeds⟩⟩ :=
        System.step_proceeds (P := fun _ => True) trivial taken old
      · cases there.symm.trans found'
        exact ih _ (List.mem_of_getElem? old)
      · cases there.symm.trans found'
        exact (ih _ (List.mem_of_getElem? old)).proceeds proceeds
    | none =>
      cases System.step_turn ih taken with
      | spawned event db sessions =>
        rw [sessions] at found'
        rcases append_cases found' with stored | ⟨_, rfl⟩
        · cases old.symm.trans stored
        · rintro _ ⟨⟩
          exact programs _
      | turned own found sessions =>
        rw [sessions] at found'
        rcases set_cases found' with ⟨rfl, _⟩ | ⟨_, stored⟩
        · cases old.symm.trans found
        · cases old.symm.trans stored
      | committed own found sessions =>
        rw [sessions] at found'
        rcases set_cases found' with ⟨rfl, _⟩ | ⟨_, stored⟩
        · cases old.symm.trans found
        · cases old.symm.trans stored

omit [DecidableEq R] in
theorem System.Acting.commits (acting : s.Acting M C) {log : Log DB T} {ws : List W}
    (commits : s.committing e = some (log, ws)) : C log ws := by
  cases e with
  | run i =>
    simp only [System.committing] at commits
    split at commits
    · rename_i found
      cases commits
      exact (acting _ (List.mem_of_getElem? found) _ rfl).1
    · cases commits
  | _ => cases commits

end Turns
end Engine
