import Mathlib.Data.List.Basic

/-!
Sessions of a row-locking store under READ COMMITTED. A statement sees what was committed when it
started and its session's writes; one that locks rows waits for conflicting locks and goes on with
their newest version. Writes reach the store at commit.
-/
namespace Engine

inductive Mode where
  | keyShare | share | noKeyUpdate | update
deriving DecidableEq, Repr

def Mode.conflicts : Mode → Mode → Bool
  | .keyShare, .update => true
  | .keyShare, _ => false
  | .share, .keyShare => false
  | .share, .share => false
  | .share, _ => true
  | .noKeyUpdate, .keyShare => false
  | .noKeyUpdate, _ => true
  | .update, _ => true

theorem Mode.conflicts_comm (a b : Mode) : a.conflicts b = b.conflicts a := by
  cases a <;> cases b <;> rfl

abbrev Lock (R : Type) := R × Mode

def clash {R : Type} [DecidableEq R] (a b : Lock R) : Bool :=
  decide (a.1 = b.1) && a.2.conflicts b.2

theorem clash_comm {R : Type} [DecidableEq R] (a b : Lock R) : clash a b = clash b a := by
  simp only [clash, Mode.conflicts_comm a.2 b.2, eq_comm (a := a.1) (b := b.1)]

class Store (DB : Type) (W R : outParam Type) where
  apply : W → DB → DB
  needs : W → List (Lock R)

def applyAll {DB W R : Type} [Store DB W R] (ws : List W) (db : DB) : DB :=
  ws.foldl (fun db w => Store.apply w db) db

structure Reply (W R β : Type) where
  locks : List (Lock R)
  writes : List W
  value : β

/-- A client of the store. `read` is one query; `stmt` is one statement that may
    lock and write, given the view it started with, the view after its locks
    were granted, and the locks it could get without waiting. A tag makes the
    session remember what the store held when the statement started. -/
inductive Proc (DB W R T ε α : Type) : Type 1 where
  | done (value : α)
  | fail (error : ε)
  | read {β : Type} (tag : Option T) (query : DB → β) (next : β → Proc DB W R T ε α)
  | stmt {β : Type} (tag : Option T) (exec : DB → DB → (Lock R → Bool) → Reply W R β)
      (next : β → Proc DB W R T ε α)
  | commit (next : Proc DB W R T ε α)
  | rollback (next : Proc DB W R T ε α)
  | clock (tag : Option T) (next : Int → Proc DB W R T ε α)
  | fresh (next : Nat → Proc DB W R T ε α)

namespace Proc
variable {DB W R T ε δ α β : Type}

def bind (p : Proc DB W R T ε α) (f : α → Proc DB W R T ε β) : Proc DB W R T ε β :=
  match p with
  | .done a => f a
  | .fail e => .fail e
  | .read tag query next => .read tag query fun b => (next b).bind f
  | .stmt tag exec next => .stmt tag exec fun b => (next b).bind f
  | .commit next => .commit (next.bind f)
  | .rollback next => .rollback (next.bind f)
  | .clock tag next => .clock tag fun t => (next t).bind f
  | .fresh next => .fresh fun n => (next n).bind f

/-- Run `recover` on the error, inside the same transaction. -/
def handle (p : Proc DB W R T ε α) (recover : ε → Proc DB W R T δ α) : Proc DB W R T δ α :=
  match p with
  | .done a => .done a
  | .fail e => recover e
  | .read tag query next => .read tag query fun b => (next b).handle recover
  | .stmt tag exec next => .stmt tag exec fun b => (next b).handle recover
  | .commit next => .commit (next.handle recover)
  | .rollback next => .rollback (next.handle recover)
  | .clock tag next => .clock tag fun t => (next t).handle recover
  | .fresh next => .fresh fun n => (next n).handle recover

instance : Monad (Proc DB W R T ε) where
  pure := .done
  bind := .bind

def caught (p : Proc DB W R T ε α) : Proc DB W R T δ (Except ε α) :=
  (p.bind fun a => .done (.ok a)).handle fun e => .done (.error e)

def mapError (f : ε → δ) (p : Proc DB W R T ε α) : Proc DB W R T δ α :=
  p.handle fun e => .fail (f e)

def transaction (body : Proc DB W R T ε α) : Proc DB W R T ε α :=
  body.handle fun e => .rollback (.fail e)

/-- Both ends of a process at once: `bind` and `handle` are cases of it. -/
def ends (p : Proc DB W R T ε α) (f : α → Proc DB W R T δ β) (g : ε → Proc DB W R T δ β) :
    Proc DB W R T δ β :=
  match p with
  | .done a => f a
  | .fail e => g e
  | .read tag query next => .read tag query fun b => (next b).ends f g
  | .stmt tag exec next => .stmt tag exec fun b => (next b).ends f g
  | .commit next => .commit (next.ends f g)
  | .rollback next => .rollback (next.ends f g)
  | .clock tag next => .clock tag fun t => (next t).ends f g
  | .fresh next => .fresh fun n => (next n).ends f g

theorem bind_eq_ends (p : Proc DB W R T ε α) (f : α → Proc DB W R T ε β) :
    p.bind f = p.ends f .fail := by induction p <;> simp_all [bind, ends]

theorem handle_eq_ends (p : Proc DB W R T ε α) (recover : ε → Proc DB W R T δ α) :
    p.handle recover = p.ends .done recover := by induction p <;> simp_all [handle, ends]

theorem ends_self (p : Proc DB W R T ε α) : p.ends .done .fail = p := by
  induction p <;> simp_all [ends]

end Proc

structure Moment (DB : Type) where
  db : DB
  now : Int

abbrev Log (DB T : Type) := List (T × Moment DB)

theorem lookup_cons_of_ne [DecidableEq T] {tag other : T} {m : Moment DB} {log : Log DB T}
    (ne : tag ≠ other) : List.lookup tag ((other, m) :: log) = log.lookup tag := by
  simp [List.lookup_cons, beq_false_of_ne ne]

def record {DB T : Type} (tag : Option T) (m : Moment DB) (log : Log DB T) : Log DB T :=
  match tag with
  | none => log
  | some t => (t, m) :: log

theorem subset_record {DB T : Type} (tag : Option T) (m : Moment DB) (log : Log DB T) :
    log ⊆ record tag m log := by
  cases tag with
  | none => exact List.Subset.refl log
  | some t => exact List.subset_cons_self (t, m) log

/-- `snapshot` is set while a statement waits for its locks; `code` is gone once
    the session was lost. -/
structure Session (DB W R T ε α : Type) : Type 1 where
  code : Option (Proc DB W R T ε α)
  held : List (Lock R) := []
  writes : List W := []
  log : Log DB T := []
  snapshot : Option (Moment DB) := none

structure System (DB W R T ε α : Type) : Type 1 where
  db : DB
  now : Int
  nextId : Nat
  sessions : List (Session DB W R T ε α)

/-- `run i` lets session `i` take its next step and `tick i t` gives it the clock
    reading it asks for; `abort i` loses session `i` with its transaction. -/
inductive Event (Q : Type) where
  | spawn (request : Q)
  | run (i : Nat)
  | tick (i : Nat) (t : Int)
  | abort (i : Nat)
deriving Repr

section Semantics
variable {DB W R T ε α Q : Type} [DecidableEq R] [Store DB W R]

def required (DB : Type) [Store DB W R] {β : Type} (r : Reply W R β) : List (Lock R) :=
  r.locks ++ r.writes.flatMap (Store.needs DB)

def free (others : List (Session DB W R T ε α)) (l : Lock R) : Bool :=
  others.all fun c => c.held.all fun h => !clash l h

namespace System

def update (s : System DB W R T ε α) (i : Nat) (c : Session DB W R T ε α) :
    System DB W R T ε α :=
  { s with sessions := s.sessions.set i c }

def runSession (s : System DB W R T ε α) (i : Nat) (c : Session DB W R T ε α) :
    Proc DB W R T ε α → Option (System DB W R T ε α)
  | .done _ => none
  | .fail _ => none
  | .clock _ _ => none
  | .read tag query next =>
      some (s.update i { c with
        code := some (next (query (applyAll c.writes s.db)))
        log := record tag ⟨s.db, s.now⟩ c.log })
  | .stmt tag exec next =>
      match c.snapshot with
      | none => some (s.update i { c with snapshot := some ⟨s.db, s.now⟩ })
      | some m =>
        let grant := free (s.sessions.eraseIdx i)
        let reply := exec (applyAll c.writes m.db) (applyAll c.writes s.db) grant
        let locks := required DB reply
        if locks.all grant then
          some (s.update i { c with
            code := some (next reply.value)
            held := locks ++ c.held
            writes := c.writes ++ reply.writes
            log := record tag m c.log
            snapshot := none })
        else none
  | .commit next =>
      some { s.update i { c with code := some next, held := [], writes := [] } with
        db := applyAll c.writes s.db }
  | .rollback next => some (s.update i { c with code := some next, held := [], writes := [] })
  | .fresh next =>
      some { s.update i { c with code := some (next s.nextId) } with nextId := s.nextId + 1 }

def tickSession (s : System DB W R T ε α) (i : Nat) (t : Int) (c : Session DB W R T ε α) :
    Proc DB W R T ε α → Option (System DB W R T ε α)
  | .clock tag next =>
      some { s.update i { c with code := some (next t), log := record tag ⟨s.db, t⟩ c.log } with
        now := t }
  | _ => none

def step (program : Q → Proc DB W R T ε α) (s : System DB W R T ε α) :
    Event Q → Option (System DB W R T ε α)
  | .spawn q => some { s with sessions := s.sessions ++ [{ code := some (program q) }] }
  | .run i => do
      let c ← s.sessions[i]?
      let p ← c.code
      s.runSession i c p
  | .tick i t => do
      let c ← s.sessions[i]?
      let p ← c.code
      s.tickSession i t c p
  | .abort i => do
      let c ← s.sessions[i]?
      some (s.update i { c with code := none, held := [], writes := [], snapshot := none })

inductive Stepped (program : Q → Proc DB W R T ε α) (s : System DB W R T ε α) :
    Event Q → System DB W R T ε α → Prop where
  | spawn (q : Q) :
      Stepped program s (.spawn q)
        { s with sessions := s.sessions ++ [{ code := some (program q) }] }
  | read {i : Nat} {c : Session DB W R T ε α} {β : Type} {tag : Option T} {query : DB → β}
      {next : β → Proc DB W R T ε α} (found : s.sessions[i]? = some c)
      (code : c.code = some (.read tag query next)) :
      Stepped program s (.run i) (s.update i { c with
        code := some (next (query (applyAll c.writes s.db)))
        log := record tag ⟨s.db, s.now⟩ c.log })
  | waits {i : Nat} {c : Session DB W R T ε α} {β : Type} {tag : Option T}
      {exec : DB → DB → (Lock R → Bool) → Reply W R β} {next : β → Proc DB W R T ε α}
      (found : s.sessions[i]? = some c) (code : c.code = some (.stmt tag exec next))
      (started : c.snapshot = none) :
      Stepped program s (.run i) (s.update i { c with snapshot := some ⟨s.db, s.now⟩ })
  | granted {i : Nat} {c : Session DB W R T ε α} {β : Type} {tag : Option T}
      {exec : DB → DB → (Lock R → Bool) → Reply W R β} {next : β → Proc DB W R T ε α}
      {m : Moment DB} {reply : Reply W R β} (found : s.sessions[i]? = some c)
      (code : c.code = some (.stmt tag exec next)) (waiting : c.snapshot = some m)
      (executed : reply = exec (applyAll c.writes m.db) (applyAll c.writes s.db)
        (free (s.sessions.eraseIdx i)))
      (open_ : ∀ l ∈ required DB reply, free (s.sessions.eraseIdx i) l = true) :
      Stepped program s (.run i) (s.update i { c with
        code := some (next reply.value)
        held := required DB reply ++ c.held
        writes := c.writes ++ reply.writes
        log := record tag m c.log
        snapshot := none })
  | commit {i : Nat} {c : Session DB W R T ε α} {next : Proc DB W R T ε α}
      (found : s.sessions[i]? = some c) (code : c.code = some (.commit next)) :
      Stepped program s (.run i)
        { s.update i { c with code := some next, held := [], writes := [] } with
          db := applyAll c.writes s.db }
  | rollback {i : Nat} {c : Session DB W R T ε α} {next : Proc DB W R T ε α}
      (found : s.sessions[i]? = some c) (code : c.code = some (.rollback next)) :
      Stepped program s (.run i)
        (s.update i { c with code := some next, held := [], writes := [] })
  | fresh {i : Nat} {c : Session DB W R T ε α} {next : Nat → Proc DB W R T ε α}
      (found : s.sessions[i]? = some c) (code : c.code = some (.fresh next)) :
      Stepped program s (.run i)
        { s.update i { c with code := some (next s.nextId) } with nextId := s.nextId + 1 }
  | tick {i : Nat} {t : Int} {c : Session DB W R T ε α} {tag : Option T}
      {next : Int → Proc DB W R T ε α} (found : s.sessions[i]? = some c)
      (code : c.code = some (.clock tag next)) :
      Stepped program s (.tick i t)
        { s.update i { c with code := some (next t), log := record tag ⟨s.db, t⟩ c.log } with
          now := t }
  | abort {i : Nat} {c : Session DB W R T ε α} (found : s.sessions[i]? = some c) :
      Stepped program s (.abort i)
        (s.update i { c with code := none, held := [], writes := [], snapshot := none })

theorem step_inv {program : Q → Proc DB W R T ε α} {s s' : System DB W R T ε α} {e : Event Q}
    (taken : s.step program e = some s') : Stepped program s e s' := by
  cases e with
  | spawn q => cases taken; exact .spawn q
  | abort i =>
    simp only [step, Option.bind_eq_bind, Option.bind_eq_some_iff] at taken
    obtain ⟨c, found, eq⟩ := taken
    cases eq; exact .abort found
  | tick i t =>
    simp only [step, Option.bind_eq_bind, Option.bind_eq_some_iff] at taken
    obtain ⟨c, found, p, code, eq⟩ := taken
    cases p with
    | clock tag next => cases eq; exact .tick found code
    | _ => cases eq
  | run i =>
    simp only [step, Option.bind_eq_bind, Option.bind_eq_some_iff] at taken
    obtain ⟨c, found, p, code, eq⟩ := taken
    cases p with
    | done a => cases eq
    | fail a => cases eq
    | clock tag next => cases eq
    | read tag query next => cases eq; exact .read found code
    | commit next => cases eq; exact .commit found code
    | rollback next => cases eq; exact .rollback found code
    | fresh next => cases eq; exact .fresh found code
    | stmt tag exec next =>
      cases wait : c.snapshot with
      | none =>
        simp only [runSession, wait] at eq
        cases eq; exact .waits found code wait
      | some m =>
        simp only [runSession, wait] at eq
        split at eq
        · rename_i granted
          rw [List.all_eq_true] at granted
          cases eq; exact .granted found code wait rfl granted
        · cases eq

/-- The states of the runs from `init` in which every step is allowed. -/
inductive Reach (program : Q → Proc DB W R T ε α)
    (allow : System DB W R T ε α → Event Q → Prop) (init : System DB W R T ε α) :
    System DB W R T ε α → Prop where
  | refl : Reach program allow init init
  | step {s s' : System DB W R T ε α} {e : Event Q} (before : Reach program allow init s)
      (taken : s.step program e = some s') (allowed : allow s e) : Reach program allow init s'

end System
end Semantics
end Engine
