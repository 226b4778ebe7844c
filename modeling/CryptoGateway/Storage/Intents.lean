import CryptoGateway.Domain.PaymentIntent
import CryptoGateway.Storage.Statements

/-!
`gateway-storage/src/postgres/intents.rs`: creating and cancelling a payment
intent under a merchant-scoped idempotency key.
-/
namespace CryptoGateway
open Engine

inductive IdempotentCreate where
  | created (id : Id) (intent : IntentRow)
  | replayed (id : Id) (intent : IntentRow)
deriving DecidableEq, Repr

def IdempotentCreate.id : IdempotentCreate → Id
  | .created id _ => id
  | .replayed id _ => id

/-- `INSERT INTO api_idempotency_records ... ON CONFLICT DO NOTHING`. -/
def insertIdempotency (merchantId : Id) (route : Route) (key : Text) (row : IdempotencyRow) :
    Exec Bool :=
  fun _ newest _ =>
    match newest.idempotency.row (merchantId, route, key) with
    | none => Reply.wrote [.insertIdempotency merchantId route key row] true
    | some _ => Reply.value false

/-- The resource the key was spent on, if it was spent on the same request. -/
def replayedResource (merchantId : Id) (route : Route) (key : Text) (requestHash : Digest) :
    Job RepositoryError Id := do
  let existing ← select (·.idempotency.row (merchantId, route, key))
  let existing ← orFail .unavailable existing
  if existing.requestHash ≠ requestHash then .fail .idempotencyConflict
  else pure existing.resourceId

def Db.findIntent (merchantId intentId : Id) (db : Db) : Option IntentRow :=
  (db.intents.row intentId).filter (·.merchantId = merchantId)

def findById (merchantId intentId : Id) : Job RepositoryError (Option IntentRow) :=
  select (·.findIntent merchantId intentId)

def intentRow (intent : PaymentIntent) : IntentRow where
  merchantId := intent.merchantId
  amountMinor := intent.amount.minorUnits
  currency := intent.amount.currency
  reference := intent.reference
  status := intent.status

/-- `INSERT INTO payment_intents`, with the constraint it may violate. -/
def insertIntent (intent : PaymentIntent) : Exec (Option RepositoryError) :=
  fun _ newest _ =>
    if (newest.intents.row intent.id).isSome then Reply.value (some .unavailable)
    else if newest.intents.entries.any fun e =>
        e.2.merchantId = intent.merchantId && e.2.reference = intent.reference then
      Reply.value (some .duplicateReference)
    else Reply.wrote [.insertIntent intent.id (intentRow intent)] none

def createIdempotently (intent : PaymentIntent) (key : Text) (requestHash : Digest) :
    Job RepositoryError IdempotentCreate :=
  Proc.transaction do
    let inserted ← execute (insertIdempotency intent.merchantId .create key
      { requestHash, resourceId := intent.id })
    if inserted then do
      match ← execute (insertIntent intent) with
      | some error => .fail error
      | none => do
        commit
        pure (.created intent.id (intentRow intent))
    else do
      let resource ← replayedResource intent.merchantId .create key requestHash
      let replayed ← select (·.findIntent intent.merchantId resource)
      let replayed ← orFail
        (.corruptData "idempotency record references a missing payment intent") replayed
      commit
      pure (.replayed resource replayed)

/-- Money, a hold or a manual decision exists for the intent. -/
def Db.decidedOrClaimed (db : Db) (intentId : Id) : Bool :=
  db.decisions.entries.any (·.1.1 = intentId) ||
    db.claims.entries.any (·.2.paymentIntentId = intentId)

def cancellableStates : List PaymentIntentStatus := [.requiresQuote, .awaitingPayment, .expired]

/-- `UPDATE payment_attempts SET status = 'cancelled'` of the intent's live ones. -/
def cancelAttempts (intentId : Id) : Exec (List Id) :=
  fun seen newest _ =>
    let live (db : Db) (id : Id) : Bool := (db.attempts.row id).any fun row =>
      row.paymentIntentId = intentId && row.status = .awaitingPayment
    let ids := seen.attempts.keys.filter fun id => live seen id && live newest id
    Reply.wrote (ids.map (.setAttemptStatus · .cancelled)) ids

def cancelLocked (merchantId intentId : Id) : Job RepositoryError (Option IdempotentCreate) := do
  let _ ← execute (updateOne (.intent intentId) (·.intents.row intentId)
    fun _ => [.setIntentStatus intentId .cancelled])
  let _ ← execute (cancelAttempts intentId)
  enqueueOutbox (some merchantId) .paymentIntentCancelled intentId
  let cancelled ← select (·.findIntent merchantId intentId)
  let cancelled ← orFail (.corruptData "a cancelled intent is missing") cancelled
  commit
  pure (some (.created intentId cancelled))

def cancelIdempotently (merchantId intentId : Id) (key : Text) (requestHash : Digest) :
    Job RepositoryError (Option IdempotentCreate) :=
  Proc.transaction do
    let recorded ← execute (insertIdempotency merchantId .cancel key
      { requestHash, resourceId := intentId })
    if !recorded then do
      let resource ← replayedResource merchantId .cancel key requestHash
      let intent ← select (·.findIntent merchantId resource)
      commit
      pure (intent.map (.replayed resource))
    else do
      match ← execute (forUpdate (.intent intentId) (·.findIntent merchantId intentId)) with
      | none => do
        rollback
        pure none
      | some intent => do
        let moneyOrDecision ← select (·.decidedOrClaimed intentId)
        if !(intent.status ∈ cancellableStates) || moneyOrDecision then
          .fail .paymentIntentNotCancellable
        else cancelLocked merchantId intentId

end CryptoGateway
