import CryptoGateway.Storage.Database

/-!
The pieces every repository function is made of: one statement, one query, a
transaction boundary, and the errors they end with.
-/
namespace CryptoGateway
open Engine

inductive RepositoryError where
  | idempotencyConflict
  | duplicateReference
  | paymentIntentNotQuotable
  | paymentIntentNotCancellable
  | collectorUnavailable
  | amountSlotsExhausted
  | corruptData (message : String)
  | leaseLost
  | transitionRefused (what : Text)
  | unavailable
deriving DecidableEq, Repr

abbrev Job (ε α : Type) := Proc Db Write Row Watch ε α

/-- A statement: the view it started with, the view once its locks are granted,
    and which locks could be granted without waiting. -/
abbrev Exec (β : Type) := Db → Db → (Lock Row → Bool) → Reply Write Row β

/-- Which of two rows a query returns first where its `ORDER BY` leaves that open. -/
abbrev RowOrder (κ : Type) := κ → κ → Bool

section
variable {ε β : Type}

def select (query : Db → β) : Job ε β := .read none query .done
def watch (tag : Watch) (query : Db → β) : Job ε β := .read (some tag) query .done
def execute (exec : Exec β) : Job ε β := .stmt none exec .done
def commit : Job ε Unit := .commit (.done ())
def rollback : Job ε Unit := .rollback (.done ())
def now : Job ε Int := .clock none .done
def uuid : Job ε Id := .fresh .done

def orFail (error : ε) : Option β → Job ε β
  | none => .fail error
  | some b => pure b

end

namespace Reply

def value {β : Type} (b : β) : Reply Write Row β := ⟨[], [], b⟩
def locked {β : Type} (locks : List (Lock Row)) (b : β) : Reply Write Row β := ⟨locks, [], b⟩
def wrote {β : Type} (writes : List Write) (b : β) : Reply Write Row β := ⟨[], writes, b⟩

end Reply

/-- `SELECT ... FOR UPDATE` of one row: it has to be there when the statement
    starts, and is read again once it is locked. -/
def forUpdate {ρ : Type} (row : Row) (find : Db → Option ρ) : Exec (Option ρ) :=
  fun seen newest _ =>
    match find seen, find newest with
    | some _, some r => Reply.locked [(row, .update)] (some r)
    | _, _ => Reply.value none

/-- `UPDATE ... WHERE` of one row, with the number of rows it changed. -/
def updateOne {ρ : Type} (row : Row) (find : Db → Option ρ) (write : ρ → List Write) :
    Exec Nat :=
  fun seen newest _ =>
    match find seen, find newest with
    | some _, some r => ⟨[(row, .noKeyUpdate)], write r, 1⟩
    | _, _ => Reply.value 0

/-- A constraint violation ends the transaction. -/
def orViolation (exec : Exec (Option RepositoryError)) : Job RepositoryError Unit := do
  match ← execute exec with
  | some error => .fail error
  | none => pure ()

structure ComponentLease where
  component : Text
  holder : Text
  fenceToken : Nat
deriving DecidableEq, Repr

def ComponentLease.heldAt (lease : ComponentLease) (at_ : Int) (db : Db) : Bool :=
  match db.componentLeases.row lease.component with
  | none => false
  | some row => decide (row.holder = lease.holder) && decide (row.fenceToken = lease.fenceToken) &&
      decide (at_ < row.leaseUntil)

def holdLease (lease : ComponentLease) : Job RepositoryError Unit := do
  let at_ ← now
  let held ← execute fun seen newest _ =>
    if lease.heldAt at_ seen && lease.heldAt at_ newest then
      Reply.locked [(.componentLease lease.component, .share)] true
    else Reply.value false
  if held then pure () else .fail .leaseLost

def enqueueOutbox (merchantId : Option Id) (eventType : EventType) (aggregateId : Id) :
    Job RepositoryError Unit := do
  let id ← uuid
  orViolation fun _ newest _ =>
    if (newest.events.row id).isSome then Reply.value (some .unavailable)
    else Reply.wrote [.insertEvent id { merchantId, eventType, aggregateId }] none

end CryptoGateway
