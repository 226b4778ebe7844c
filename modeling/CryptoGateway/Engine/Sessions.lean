import CryptoGateway.Engine.Adequacy

/-!
What one session does whatever the store answers: which writes it commits, what comes after a
commit, and what a failure says about the run.
-/
namespace Engine

variable {DB W R T ε δ α β Q : Type}

namespace Proc

/-- What follows each commit satisfies `C`, what follows each rollback `B`. -/
def Turns (C B : Proc DB W R T ε α → Prop) : Proc DB W R T ε α → Prop
  | .done _ => True
  | .fail _ => True
  | .read _ _ next => ∀ b, (next b).Turns C B
  | .stmt _ _ next => ∀ b, (next b).Turns C B
  | .commit next => C next
  | .rollback next => B next
  | .clock _ next => ∀ t, (next t).Turns C B
  | .fresh next => ∀ n, (next n).Turns C B

def Succeeded (p : Proc DB W R T ε α) : Prop := ∃ a, p = .done a

def Failed (p : Proc DB W R T ε α) : Prop := ∃ e, p = .fail e

abbrev Quiet (p : Proc DB W R T ε α) : Prop := p.Turns (fun _ => False) fun _ => False

abbrev CommitsLast (p : Proc DB W R T ε α) : Prop := p.Turns Succeeded fun _ => False

abbrev OneTransaction (p : Proc DB W R T ε α) : Prop := p.Turns Succeeded Failed

section
variable {p : Proc DB W R T ε α} {C B : Proc DB W R T ε α → Prop}

theorem Turns.ends {f : α → Proc DB W R T δ β} {g : ε → Proc DB W R T δ β}
    {C' B' : Proc DB W R T δ β → Prop} (first : p.Turns C B)
    (committed : ∀ next, C next → C' (next.ends f g))
    (dropped : ∀ next, B next → B' (next.ends f g)) (good : ∀ a, (f a).Turns C' B')
    (bad : ∀ e, (g e).Turns C' B') : (p.ends f g).Turns C' B' := by
  induction p with
  | done a => exact good a
  | fail e => exact bad e
  | read tag query next ih => exact fun b => ih b (first b)
  | stmt tag exec next ih => exact fun b => ih b (first b)
  | commit next ih => exact committed next first
  | rollback next ih => exact dropped next first
  | clock tag next ih => exact fun t => ih t (first t)
  | fresh next ih => exact fun n => ih n (first n)

theorem Turns.bind {f : α → Proc DB W R T ε β} {C' B' : Proc DB W R T ε β → Prop}
    (first : p.Turns C B) (committed : ∀ next, C next → C' (next.bind f))
    (dropped : ∀ next, B next → B' (next.bind f)) (rest : ∀ a, (f a).Turns C' B') :
    (p.bind f).Turns C' B' := by
  simp only [bind_eq_ends] at *
  exact first.ends committed dropped rest fun _ => trivial

theorem Turns.handle {recover : ε → Proc DB W R T δ α} {C' B' : Proc DB W R T δ α → Prop}
    (first : p.Turns C B) (committed : ∀ next, C next → C' (next.handle recover))
    (dropped : ∀ next, B next → B' (next.handle recover)) (rest : ∀ e, (recover e).Turns C' B') :
    (p.handle recover).Turns C' B' := by
  simp only [handle_eq_ends] at *
  exact first.ends committed dropped (fun _ => trivial) rest

theorem Quiet.bind {f : α → Proc DB W R T ε β} {C B : Proc DB W R T ε β → Prop} (quiet : p.Quiet)
    (rest : ∀ a, (f a).Turns C B) : (p.bind f).Turns C B :=
  Turns.bind quiet (fun _ no => no.elim) (fun _ no => no.elim) rest

theorem Quiet.mapError (quiet : p.Quiet) (f : ε → δ) : (p.mapError f).Quiet :=
  Turns.handle quiet (fun _ no => no.elim) (fun _ no => no.elim) fun _ => trivial

theorem Quiet.caught (quiet : p.Quiet) : (p.caught : Proc DB W R T δ (Except ε α)).Quiet :=
  Turns.handle (C := fun _ => False) (B := fun _ => False) (Quiet.bind quiet fun _ => trivial)
    (fun _ no => no.elim) (fun _ no => no.elim) fun _ => trivial

theorem CommitsLast.transaction (last : p.CommitsLast) : p.transaction.OneTransaction := by
  refine Turns.handle last ?_ (fun _ no => no.elim) fun e => ⟨e, rfl⟩
  rintro _ ⟨a, rfl⟩
  exact ⟨a, rfl⟩

theorem OneTransaction.mapError (one : p.OneTransaction) (f : ε → δ) :
    (p.mapError f).OneTransaction := by
  refine Turns.handle one ?_ ?_ fun _ => trivial
  · rintro _ ⟨a, rfl⟩
    exact ⟨a, rfl⟩
  · rintro _ ⟨e, rfl⟩
    exact ⟨f e, rfl⟩

theorem OneTransaction.map (one : p.OneTransaction) (f : α → β) :
    (p.bind fun a => .done (f a)).OneTransaction := by
  refine Turns.bind one ?_ ?_ fun _ => trivial
  · rintro _ ⟨a, rfl⟩
    exact ⟨f a, rfl⟩
  · rintro _ ⟨e, rfl⟩
    exact ⟨e, rfl⟩

end

/-- Whatever the store answers, the process commits only writes that satisfy `C`, and
    where it succeeds `post` holds of what it has written and not committed. -/
def Commits (C : List W → Prop) (post : α → List W → Prop) :
    List W → Proc DB W R T ε α → Prop
  | ws, .done a => post a ws
  | _, .fail _ => True
  | ws, .read _ _ next => ∀ b, (next b).Commits C post ws
  | ws, .stmt _ exec next => ∀ seen newest grant,
      (next (exec seen newest grant).value).Commits C post (ws ++ (exec seen newest grant).writes)
  | ws, .commit next => C ws ∧ next.Commits C post []
  | _, .rollback next => next.Commits C post []
  | ws, .clock _ next => ∀ t, (next t).Commits C post ws
  | ws, .fresh next => ∀ n, (next n).Commits C post ws

section
variable {p : Proc DB W R T ε α} {C : List W → Prop}
  {post : α → List W → Prop} {ws : List W}

theorem Commits.ends {f : α → Proc DB W R T δ β} {g : ε → Proc DB W R T δ β}
    {post' : β → List W → Prop} (first : p.Commits C post ws)
    (good : ∀ a ws, post a ws → (f a).Commits C post' ws)
    (bad : ∀ e ws, (g e).Commits C post' ws) : (p.ends f g).Commits C post' ws := by
  induction p generalizing ws with
  | done a => exact good a ws first
  | fail e => exact bad e ws
  | read tag query next ih => exact fun b => ih b (first b)
  | stmt tag exec next ih => exact fun seen newest grant => ih _ (first seen newest grant)
  | commit next ih => exact ⟨first.1, ih first.2⟩
  | rollback next ih => exact ih first
  | clock tag next ih => exact fun t => ih t (first t)
  | fresh next ih => exact fun n => ih n (first n)

theorem Commits.mono {post' : α → List W → Prop} (first : p.Commits C post ws)
    (weaker : ∀ a ws, post a ws → post' a ws) : p.Commits C post' ws := by
  rw [← p.ends_self]
  exact first.ends weaker fun _ _ => trivial

theorem Commits.bind {f : α → Proc DB W R T ε β} {post' : β → List W → Prop}
    (first : p.Commits C post ws) (rest : ∀ a ws, post a ws → (f a).Commits C post' ws) :
    (p.bind f).Commits C post' ws := by
  rw [bind_eq_ends]
  exact first.ends rest fun _ _ => trivial

theorem Commits.handle {recover : ε → Proc DB W R T δ α} (first : p.Commits C post ws)
    (rest : ∀ e ws, (recover e).Commits C post ws) : (p.handle recover).Commits C post ws := by
  rw [handle_eq_ends]
  exact first.ends (fun _ _ => id) rest

theorem Quiet.commits (quiet : p.Quiet) {w : W} (mem : w ∈ ws) :
    p.Commits C (fun _ ws' => w ∈ ws') ws := by
  induction p generalizing ws with
  | done a => exact mem
  | fail e => trivial
  | read tag query next ih => exact fun b => ih b (quiet b) mem
  | stmt tag exec next ih =>
    exact fun seen newest grant => ih _ (quiet _) (List.mem_append_left _ mem)
  | commit next ih => exact quiet.elim
  | rollback next ih => exact quiet.elim
  | clock tag next ih => exact fun t => ih t (quiet t) mem
  | fresh next ih => exact fun n => ih n (quiet n) mem

end

section Does
variable [Store DB W R] {P : DB → Prop} {C : Log DB T → List W → Prop}

/-- Whatever the stores hold that the process meets, as long as `P` is true of them: it
    commits only what satisfies `C`, and it ends as `Q` and `E` say. -/
def Does (P : DB → Prop) (C : Log DB T → List W → Prop) (Q : α → Log DB T → List W → Prop)
    (E : ε → Log DB T → List W → Prop) : Log DB T → List W → Proc DB W R T ε α → Prop
  | log, ws, .done a => Q a log ws
  | log, ws, .fail e => E e log ws
  | log, ws, .read tag query next => ∀ m : Moment DB, P m.db →
      (next (query (applyAll ws m.db))).Does P C Q E (record tag m log) ws
  | log, ws, .stmt tag exec next => ∀ (m : Moment DB) (db : DB) (grant : Lock R → Bool),
      P m.db → P db →
      (next (exec (applyAll ws m.db) (applyAll ws db) grant).value).Does P C Q E (record tag m log)
        (ws ++ (exec (applyAll ws m.db) (applyAll ws db) grant).writes)
  | log, ws, .commit next => C log ws ∧ next.Does P C Q E log []
  | log, _, .rollback next => next.Does P C Q E log []
  | log, ws, .clock tag next => ∀ m : Moment DB, P m.db →
      (next m.now).Does P C Q E (record tag m log) ws
  | log, ws, .fresh next => ∀ n, (next n).Does P C Q E log ws

variable {p : Proc DB W R T ε α} {Q : α → Log DB T → List W → Prop}
  {E : ε → Log DB T → List W → Prop} {log : Log DB T} {ws : List W}

variable {E' : δ → Log DB T → List W → Prop}

theorem Does.ends {f : α → Proc DB W R T δ β} {g : ε → Proc DB W R T δ β}
    {Q' : β → Log DB T → List W → Prop} (first : p.Does P C Q E log ws)
    (good : ∀ a log ws, Q a log ws → (f a).Does P C Q' E' log ws)
    (bad : ∀ e log ws, E e log ws → (g e).Does P C Q' E' log ws) :
    (p.ends f g).Does P C Q' E' log ws := by
  induction p generalizing log ws with
  | done a => exact good a log ws first
  | fail e => exact bad e log ws first
  | read tag query next ih => exact fun m holds => ih _ (first m holds)
  | stmt tag exec next ih => exact fun m db grant old new => ih _ (first m db grant old new)
  | commit next ih => exact ⟨first.1, ih first.2⟩
  | rollback next ih => exact ih first
  | clock tag next ih => exact fun m holds => ih _ (first m holds)
  | fresh next ih => exact fun n => ih n (first n)

theorem Does.bind {f : α → Proc DB W R T ε β} {Q' : β → Log DB T → List W → Prop}
    (first : p.Does P C Q E log ws) (rest : ∀ a log ws, Q a log ws → (f a).Does P C Q' E log ws) :
    (p.bind f).Does P C Q' E log ws := by
  rw [bind_eq_ends]
  exact first.ends rest fun _ _ _ => id

theorem Does.handle {recover : ε → Proc DB W R T δ α} (first : p.Does P C Q E log ws)
    (rest : ∀ e log ws, E e log ws → (recover e).Does P C Q E' log ws) :
    (p.handle recover).Does P C Q E' log ws := by
  rw [handle_eq_ends]
  exact first.ends (fun _ _ _ => id) rest

theorem Does.mono {Q' : α → Log DB T → List W → Prop} {E' : ε → Log DB T → List W → Prop}
    (first : p.Does P C Q E log ws) (good : ∀ a log ws, Q a log ws → Q' a log ws)
    (bad : ∀ e log ws, E e log ws → E' e log ws) : p.Does P C Q' E' log ws := by
  rw [← p.ends_self]
  exact first.ends good bad

theorem Does.mapError {f : ε → δ}
    (first : p.Does P C Q E log ws) (bad : ∀ e log ws, E e log ws → E' (f e) log ws) :
    (p.mapError f).Does P C Q E' log ws := first.handle bad

theorem Does.transaction {E' : ε → Log DB T → List W → Prop} (first : p.Does P C Q E log ws)
    (bad : ∀ e log ws, E e log ws → E' e log []) : p.transaction.Does P C Q E' log ws :=
  first.handle bad

end Does

end Proc

def Event.session : Event Q → Option Nat
  | .spawn _ => none
  | .run i => some i
  | .tick i _ => some i
  | .abort i => some i

section Follows
variable [DecidableEq R] [Store DB W R]

inductive Session.Follows (c : Session DB W R T ε α) : Session DB W R T ε α → Prop where
  | read {β : Type} {tag : Option T} {query : DB → β} {next : β → Proc DB W R T ε α}
      (code : c.code = some (.read tag query next)) (b : β) (log : Log DB T) :
      c.Follows { c with code := some (next b), log := log }
  | waits (m : Moment DB) : c.Follows { c with snapshot := some m }
  | granted {β : Type} {tag : Option T} {exec : DB → DB → (Lock R → Bool) → Reply W R β}
      {next : β → Proc DB W R T ε α} (code : c.code = some (.stmt tag exec next))
      (seen newest : DB) (grant : Lock R → Bool) (log : Log DB T) :
      c.Follows { c with
        code := some (next (exec seen newest grant).value)
        held := required DB (exec seen newest grant) ++ c.held
        writes := c.writes ++ (exec seen newest grant).writes
        log := log
        snapshot := none }
  | commit {next : Proc DB W R T ε α} (code : c.code = some (.commit next)) :
      c.Follows { c with code := some next, held := [], writes := [] }
  | rollback {next : Proc DB W R T ε α} (code : c.code = some (.rollback next)) :
      c.Follows { c with code := some next, held := [], writes := [] }
  | fresh {next : Nat → Proc DB W R T ε α} (code : c.code = some (.fresh next)) (n : Nat) :
      c.Follows { c with code := some (next n) }
  | tick {tag : Option T} {next : Int → Proc DB W R T ε α}
      (code : c.code = some (.clock tag next)) (t : Int) (log : Log DB T) :
      c.Follows { c with code := some (next t), log := log }
  | abort : c.Follows { c with code := none, held := [], writes := [], snapshot := none }

variable {program : Q → Proc DB W R T ε α} {allow : System DB W R T ε α → Event Q → Prop}
  {s s' s'' : System DB W R T ε α} {e : Event Q} {i : Nat} {c : Session DB W R T ε α}

/-- What a session may become with its next step where `P` is true of every store it
    meets. -/
inductive Session.Proceeds (P : DB → Prop) (c : Session DB W R T ε α) :
    Session DB W R T ε α → Prop where
  | read {β : Type} {tag : Option T} {query : DB → β} {next : β → Proc DB W R T ε α}
      (code : c.code = some (.read tag query next)) (m : Moment DB) (holds : P m.db) :
      c.Proceeds P { c with
        code := some (next (query (applyAll c.writes m.db))), log := record tag m c.log }
  | waits (m : Moment DB) (holds : P m.db) : c.Proceeds P { c with snapshot := some m }
  | granted {β : Type} {tag : Option T} {exec : DB → DB → (Lock R → Bool) → Reply W R β}
      {next : β → Proc DB W R T ε α} (code : c.code = some (.stmt tag exec next)) {m : Moment DB}
      (waiting : c.snapshot = some m) (db : DB) (holds : P db) (grant : Lock R → Bool) :
      c.Proceeds P { c with
        code := some (next (exec (applyAll c.writes m.db) (applyAll c.writes db) grant).value)
        held := required DB (exec (applyAll c.writes m.db) (applyAll c.writes db) grant) ++ c.held
        writes := c.writes ++ (exec (applyAll c.writes m.db) (applyAll c.writes db) grant).writes
        log := record tag m c.log
        snapshot := none }
  | commit {next : Proc DB W R T ε α} (code : c.code = some (.commit next)) :
      c.Proceeds P { c with code := some next, held := [], writes := [] }
  | rollback {next : Proc DB W R T ε α} (code : c.code = some (.rollback next)) :
      c.Proceeds P { c with code := some next, held := [], writes := [] }
  | fresh {next : Nat → Proc DB W R T ε α} (code : c.code = some (.fresh next)) (n : Nat) :
      c.Proceeds P { c with code := some (next n) }
  | tick {tag : Option T} {next : Int → Proc DB W R T ε α}
      (code : c.code = some (.clock tag next)) (m : Moment DB) (holds : P m.db) :
      c.Proceeds P { c with code := some (next m.now), log := record tag m c.log }
  | abort : c.Proceeds P { c with code := none, held := [], writes := [], snapshot := none }

omit [DecidableEq R] in
theorem Session.Proceeds.follows {P : DB → Prop} {c' : Session DB W R T ε α}
    (proceeds : c.Proceeds P c') : c.Follows c' := by
  cases proceeds with
  | read code m => exact .read code _ _
  | waits m => exact .waits m
  | granted code waiting db holds grant => exact .granted code _ _ _ _
  | commit code => exact .commit code
  | rollback code => exact .rollback code
  | fresh code n => exact .fresh code n
  | tick code m => exact .tick code _ _
  | abort => exact .abort

theorem System.step_proceeds {P : DB → Prop} (holds : P s.db) (taken : s.step program e = some s')
    (found : s.sessions[i]? = some c) :
    ∃ c', s'.sessions[i]? = some c' ∧ (c' = c ∨ e.session = some i ∧ c.Proceeds P c') := by
  have update : ∀ {j : Nat} {d d' : Session DB W R T ε α}, s.sessions[j]? = some d →
      e.session = some j → d.Proceeds P d' →
      ∃ c', (s.sessions.set j d')[i]? = some c' ∧
        (c' = c ∨ e.session = some i ∧ c.Proceeds P c') := by
    intro j d d' old own proceeds
    by_cases same : j = i
    · subst same
      cases old.symm.trans found
      exact ⟨d', List.getElem?_set_self (List.getElem?_eq_some_iff.mp found).1,
        .inr ⟨own, proceeds⟩⟩
    · exact ⟨c, (List.getElem?_set_ne same).trans found, .inl rfl⟩
  cases System.step_inv taken with
  | spawn q =>
    refine ⟨c, ?_, .inl rfl⟩
    rw [List.getElem?_append_left (List.getElem?_eq_some_iff.mp found).1]
    exact found
  | read old code => exact update old rfl (.read code ⟨s.db, s.now⟩ holds)
  | waits old code started => exact update old rfl (.waits _ holds)
  | granted old code waiting executed =>
    subst executed
    exact update old rfl (.granted code waiting s.db holds _)
  | commit old code => exact update old rfl (.commit code)
  | rollback old code => exact update old rfl (.rollback code)
  | fresh old code => exact update old rfl (.fresh code _)
  | @tick j t d tag next old code => exact update old rfl (.tick code ⟨s.db, t⟩ holds)
  | abort old => exact update old rfl .abort

theorem System.step_follows (taken : s.step program e = some s') (found : s.sessions[i]? = some c) :
    ∃ c', s'.sessions[i]? = some c' ∧ (c' = c ∨ e.session = some i ∧ c.Follows c') := by
  obtain ⟨c', there, same | ⟨own, proceeds⟩⟩ :=
    System.step_proceeds (P := fun _ => True) trivial taken found
  · exact ⟨c', there, .inl same⟩
  · exact ⟨c', there, .inr ⟨own, proceeds.follows⟩⟩

/-- Session `i` is there and satisfies `J`. -/
def System.Shows (J : Session DB W R T ε α → Prop) (s : System DB W R T ε α) (i : Nat) : Prop :=
  ∃ c, s.sessions[i]? = some c ∧ J c

variable {J : Session DB W R T ε α → Prop}

omit [DecidableEq R] [Store DB W R] in
theorem System.Shows.of (shows_ : s.Shows J i) (found : s.sessions[i]? = some c) : J c := by
  obtain ⟨d, here, holds⟩ := shows_
  cases here.symm.trans found
  exact holds

theorem System.Shows.step (closed : ∀ c c', J c → c.Follows c' → J c') (shows_ : s.Shows J i)
    (taken : s.step program e = some s') : s'.Shows J i := by
  obtain ⟨c, found, holds⟩ := shows_
  obtain ⟨c', found', rfl | ⟨_, follows⟩⟩ := System.step_follows taken found
  · exact ⟨c', found', holds⟩
  · exact ⟨c', found', closed c c' holds follows⟩

theorem System.Shows.reach (closed : ∀ c c', J c → c.Follows c' → J c') (shows_ : s.Shows J i)
    (reached : Reach program allow s s') : s'.Shows J i := by
  induction reached with
  | refl => exact shows_
  | step before taken allowed ih => exact ih.step closed taken

/-- What the session still has to do satisfies `P`. -/
def Session.Ahead (P : Proc DB W R T ε α → Prop) (c : Session DB W R T ε α) : Prop :=
  ∀ p, c.code = some p → P p

omit [DecidableEq R] in
theorem Session.Ahead.oneTransaction {c' : Session DB W R T ε α}
    (ahead : c.Ahead Proc.OneTransaction) (follows : c.Follows c') :
    c'.Ahead Proc.OneTransaction := by
  cases follows with
  | read code b log => rintro _ ⟨⟩; exact ahead _ code b
  | waits m => exact ahead
  | granted code seen newest grant log => rintro _ ⟨⟩; exact ahead _ code _
  | commit code =>
    rintro _ ⟨⟩
    obtain ⟨a, rfl⟩ := ahead _ code
    trivial
  | rollback code =>
    rintro _ ⟨⟩
    obtain ⟨e, rfl⟩ := ahead _ code
    trivial
  | fresh code n => rintro _ ⟨⟩; exact ahead _ code n
  | tick code t log => rintro _ ⟨⟩; exact ahead _ code t
  | abort => rintro _ ⟨⟩

omit [DecidableEq R] in
theorem Session.Ahead.final {P : Proc DB W R T ε α → Prop} {c' : Session DB W R T ε α}
    (ahead : c.Ahead P) (final : ∀ p, P p → p.Succeeded ∨ p.Failed) (follows : c.Follows c') :
    c'.Ahead P := by
  have stuck : ∀ p, c.code = some p → (∃ a, p = .done a) ∨ ∃ e, p = .fail e :=
    fun p code => final p (ahead p code)
  cases follows with
  | waits m => exact ahead
  | abort => rintro _ ⟨⟩
  | read code b log => rcases stuck _ code with ⟨_, eq⟩ | ⟨_, eq⟩ <;> cases eq
  | granted code seen newest grant log => rcases stuck _ code with ⟨_, eq⟩ | ⟨_, eq⟩ <;> cases eq
  | commit code => rcases stuck _ code with ⟨_, eq⟩ | ⟨_, eq⟩ <;> cases eq
  | rollback code => rcases stuck _ code with ⟨_, eq⟩ | ⟨_, eq⟩ <;> cases eq
  | fresh code n => rcases stuck _ code with ⟨_, eq⟩ | ⟨_, eq⟩ <;> cases eq
  | tick code t log => rcases stuck _ code with ⟨_, eq⟩ | ⟨_, eq⟩ <;> cases eq

omit [DecidableEq R] in
theorem Session.Ahead.succeeded {c' : Session DB W R T ε α} (ahead : c.Ahead Proc.Succeeded)
    (follows : c.Follows c') : c'.Ahead Proc.Succeeded := ahead.final (fun _ => .inl) follows

omit [DecidableEq R] in
theorem Session.Ahead.returned {c' : Session DB W R T ε α} {a : α}
    (ahead : c.Ahead (· = .done a)) (follows : c.Follows c') : c'.Ahead (· = .done a) :=
  ahead.final (fun _ eq => .inl ⟨a, eq⟩) follows

theorem System.step_own (taken : s.step program e = some s') (own : e.session = some i) :
    s'.db = s.db ∨ ∃ c next, s.sessions[i]? = some c ∧ c.code = some (.commit next) ∧
      s'.Shows (·.code = some next) i := by
  cases System.step_inv taken with
  | @commit j c next found code =>
    cases own
    exact .inr ⟨c, next, found, code, _,
      List.getElem?_set_self (List.getElem?_eq_some_iff.mp found).1, rfl⟩
  | _ => exact .inl rfl

theorem System.Shows.refused (ahead : s.Shows (·.Ahead Proc.OneTransaction) i)
    (taken : s.step program e = some s') (own : e.session = some i)
    (after : Reach program allow s' s'') {error : ε} (found : s''.sessions[i]? = some c)
    (failed : c.code = some (.fail error)) : s'.db = s.db := by
  rcases System.step_own taken own with same | ⟨d, next, here, code, e, there, left⟩
  · exact same
  · have success : s'.Shows (·.Ahead Proc.Succeeded) i := by
      refine ⟨e, there, fun p code' => ?_⟩
      cases left.symm.trans code'
      exact ahead.of here _ code
    obtain ⟨a, eq⟩ := (success.reach (fun _ _ => Session.Ahead.succeeded) after).of found _ failed
    cases eq

/-- What the session still commits satisfies `C`. -/
def Session.Commits (C : List W → Prop) (c : Session DB W R T ε α) : Prop :=
  ∀ p, c.code = some p → p.Commits C (fun _ _ => True) c.writes

omit [DecidableEq R] in
theorem Session.Commits.follows {C : List W → Prop} {c' : Session DB W R T ε α}
    (commits : c.Commits C) (follows : c.Follows c') : c'.Commits C := by
  cases follows with
  | read code b log => rintro _ ⟨⟩; exact commits _ code b
  | waits m => exact commits
  | granted code seen newest grant log => rintro _ ⟨⟩; exact commits _ code seen newest grant
  | commit code => rintro _ ⟨⟩; exact (commits _ code).2
  | rollback code => rintro _ ⟨⟩; exact commits _ code
  | fresh code n => rintro _ ⟨⟩; exact commits _ code n
  | tick code t log => rintro _ ⟨⟩; exact commits _ code t
  | abort => rintro _ ⟨⟩

omit [DecidableEq R] [Store DB W R] in
theorem System.Shows.committing {C : List W → Prop} (shows_ : s.Shows (·.Commits C) i)
    {log : Log DB T} {ws : List W}
    (commits : s.committing (Event.run (Q := Q) i) = some (log, ws)) : C ws := by
  simp only [System.committing] at commits
  split at commits
  · rename_i found
    cases commits
    exact (shows_.of found _ rfl).1
  · cases commits

section Doing
variable {P : DB → Prop} {C : Log DB T → List W → Prop} {Q' : α → Log DB T → List W → Prop}
  {E : ε → Log DB T → List W → Prop}

/-- The session is under way as `Proc.Does` describes. -/
structure Session.Doing (P : DB → Prop) (C : Log DB T → List W → Prop)
    (Q' : α → Log DB T → List W → Prop) (E : ε → Log DB T → List W → Prop)
    (c : Session DB W R T ε α) : Prop where
  started : ∀ m, c.snapshot = some m → P m.db
  does : ∀ p, c.code = some p → p.Does P C Q' E c.log c.writes

omit [DecidableEq R] in
theorem Session.Doing.proceeds {c' : Session DB W R T ε α} (doing : c.Doing P C Q' E)
    (proceeds : c.Proceeds P c') : c'.Doing P C Q' E := by
  cases proceeds with
  | read code m holds => exact ⟨doing.started, by rintro _ ⟨⟩; exact doing.does _ code m holds⟩
  | waits m holds => exact ⟨by rintro _ ⟨⟩; exact holds, doing.does⟩
  | granted code waiting db holds grant =>
    refine ⟨nofun, ?_⟩
    rintro _ ⟨⟩
    exact doing.does _ code _ db grant (doing.started _ waiting) holds
  | commit code => exact ⟨doing.started, by rintro _ ⟨⟩; exact (doing.does _ code).2⟩
  | rollback code => exact ⟨doing.started, by rintro _ ⟨⟩; exact doing.does _ code⟩
  | fresh code n => exact ⟨doing.started, by rintro _ ⟨⟩; exact doing.does _ code n⟩
  | tick code m holds => exact ⟨doing.started, by rintro _ ⟨⟩; exact doing.does _ code m holds⟩
  | abort => exact ⟨nofun, nofun⟩

theorem System.Shows.doing (shows_ : s.Shows (·.Doing P C Q' E) i) {s' : System DB W R T ε α}
    (all : ∀ s', Reach program allow s s' → P s'.db) (reached : Reach program allow s s') :
    s'.Shows (·.Doing P C Q' E) i := by
  induction reached with
  | refl => exact shows_
  | step before taken allowed ih =>
    obtain ⟨c, found, doing⟩ := ih
    obtain ⟨c', found', rfl | ⟨_, proceeds⟩⟩ :=
      System.step_proceeds (all _ before) taken found
    · exact ⟨c', found', doing⟩
    · exact ⟨c', found', doing.proceeds proceeds⟩

omit [DecidableEq R] in
theorem System.Shows.doing_committing (shows_ : s.Shows (·.Doing P C Q' E) i) {log : Log DB T}
    {ws : List W} (commits : s.committing (Event.run (Q := Q) i) = some (log, ws)) : C log ws := by
  simp only [System.committing] at commits
  split at commits
  · rename_i found
    cases commits
    exact ((shows_.of found).does _ rfl).1
  · cases commits

end Doing
end Follows
end Engine
