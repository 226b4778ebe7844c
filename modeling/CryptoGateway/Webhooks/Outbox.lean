import CryptoGateway.Application
import CryptoGateway.Webhooks.Store

/-!
`outbox.rs` and `redelivery.rs` of `gateway-storage`: claiming due events, recording attempts,
closing an event, and queueing it again.
-/
namespace CryptoGateway.Webhooks
open Engine

structure PreviousSecret where
  version : Nat
  fingerprint : Text
deriving DecidableEq, Repr

structure WebhookEndpoint where
  id : Id
  merchantId : Id
  url : Text
  secretVersion : Nat
  secretFingerprint : Text
  previousSecret : Option PreviousSecret
deriving DecidableEq, Repr

inductive DeliveryResult where
  | accepted (status durationMs : Nat)
  | refused (status durationMs : Nat) (detail : Text)
  | unreachable (detail : Text) (durationMs : Nat)
deriving DecidableEq, Repr

def DeliveryResult.isAccepted : DeliveryResult → Bool
  | .accepted _ _ => true
  | _ => false

/-- The `t=` and `v1=` parts of a signature line. -/
structure Signature where
  timestamp : Int
  v1 : List Text
deriving DecidableEq, Repr

structure Call where
  event : OutboxEvent
  endpoint : WebhookEndpoint
  signedAt : Int
  signature : Signature
  result : DeliveryResult
deriving DecidableEq, Repr

/-- What a session remembers of its way. `claimed` is the batch a claim returned, `stopped`
    that a merchant's share of it ended in an error. -/
inductive Watch where
  | claimed (batch : List OutboxEvent)
  | asOf (merchantId : Id)
  | endpoints (merchantId : Id) (at_ : Int)
  | signing (event : OutboxEvent) (endpointId : Id)
  | called (call : Call)
  | recording (event : OutboxEvent) (endpointId : Id)
  | ending (event : OutboxEvent)
  | closing (event : OutboxEvent)
  | stopped (merchantId : Option Id)
deriving DecidableEq, Repr

abbrev Job (ε α : Type) := Proc Db Write Row Watch ε α

abbrev Exec (β : Type) := Db → Db → (Lock Row → Bool) → Reply Write Row β

section
variable {ε β : Type}

def select (query : Db → β) : Job ε β := .read none query .done
def watch (tag : Watch) (query : Db → β) : Job ε β := .read (some tag) query .done
def execute (tag : Option Watch) (exec : Exec β) : Job ε β := .stmt tag exec .done
def commit : Job ε Unit := .commit (.done ())
def now : Job ε Int := .clock none .done
def watchedNow (tag : Watch) : Job ε Int := .clock (some tag) .done
def uuid : Job ε Id := .fresh .done

end

/-- The order of the queue: by `available_at`, then by id. -/
def queuedBefore (a b : Id × EventRow) : Bool :=
  decide (a.2.availableAt < b.2.availableAt) ||
    (decide (a.2.availableAt = b.2.availableAt) && decide (a.1 < b.1))

namespace Db
variable (db : Db)

def dueEvents (now : Int) : List (Id × EventRow) := db.events.entries.filter (·.2.dueAt now)

/-- `row_number()` over the due events of the event's merchant. -/
def position (now : Int) (e : Id × EventRow) : Nat :=
  ((db.dueEvents now).filter fun other =>
    decide (other.2.merchantId = e.2.merchantId) && queuedBefore other e).length + 1

/-- The due events with their merchant's share applied, oldest first. -/
def rankedEvents (call : ClaimCall) : List (Id × EventRow) :=
  ((db.dueEvents call.now).filter fun e =>
    decide (db.position call.now e ≤ call.perMerchantLimit)).insertionSort
      fun a b => queuedBefore b a = false

def activeEndpoints (order : RowOrder Id) (at_ : Int) (merchantId : Id) : List WebhookEndpoint :=
  (((db.endpoints.entries.filter fun e => decide (e.2.merchantId = merchantId) &&
    e.2.active).insertionSort
    fun a b => order a.1 b.1).insertionSort fun a b => a.2.createdAt ≤ b.2.createdAt).map
      fun e =>
        { id := e.1
          merchantId := e.2.merchantId
          url := e.2.url
          secretVersion := e.2.secretVersion
          secretFingerprint := e.2.secretFingerprint
          previousSecret := (e.2.previous.filter fun p => decide (at_ < p.validUntil)).map fun p =>
            ⟨p.version, p.fingerprint⟩ }

end Db

/-- The claiming statement. It ranks what it saw when it started, skips the rows that
    others have locked, and checks the newest version of the rows it locks; `UPDATE ...
    RETURNING` hands the rows back in any `order`. -/
def claimDue (order : RowOrder Id) (call : ClaimCall) : Exec (List OutboxEvent) :=
  fun seen newest grant =>
    let due := ((seen.rankedEvents call).filter fun e => grant (.event e.1, .update) &&
      (newest.events.row e.1).any (·.dueAt call.now)).take call.limit
    let batch := ((due.map (·.1)).insertionSort fun a b => order a b).filterMap fun id =>
      (newest.events.row id).map (·.toOutboxEvent id)
    ⟨batch.map fun event => (.event event.id, .update), batch.map (.claim · call), batch⟩

def claimDueEvents (order : RowOrder Id) (call : ClaimCall) :
    Job RepositoryError (List OutboxEvent) := do
  if call.visibilitySeconds ≤ 0 then
    .fail (.corruptData "a delivery claim needs a positive visibility window")
  else
    let batch ← execute none (claimDue order call)
    watch (.claimed batch) fun _ => ()
    commit
    pure batch

/-- The `now()` of the query is the clock reading before it. -/
def activeEndpoints (order : RowOrder Id) (merchantId : Id) :
    Job RepositoryError (List WebhookEndpoint) := do
  let at_ ← watchedNow (.asOf merchantId)
  watch (.endpoints merchantId at_) fun db => db.activeEndpoints order at_ merchantId

structure DeliveryAttempt where
  eventId : Id
  endpointId : Id
  attempt : Nat
  status : Option Nat
  error : Option Text
  durationMs : Nat
deriving DecidableEq, Repr

def DeliveryAttempt.row (attempt : DeliveryAttempt) (now : Int) : DeliveryRow where
  responseStatus := attempt.status
  error := attempt.error
  durationMs := min attempt.durationMs (2 ^ 31 - 1)
  deliveredAt := now

/-- Inserts the record, or overwrites the one with the same event, endpoint and number. -/
def recordAttempt (event : OutboxEvent) (attempt : DeliveryAttempt) (now : Int) :
    Job RepositoryError Unit := do
  execute (some (.recording event attempt.endpointId)) fun _ _ _ =>
    ⟨[], [.putDelivery ⟨attempt.eventId, attempt.endpointId, attempt.attempt⟩
      (attempt.row now)], ()⟩
  commit

def Db.openEvent (id : Id) (db : Db) : Option EventRow := (db.events.row id).filter (·.isOpen)

/-- The update that ends a pass on an event: it applies to an event that is neither
    delivered nor dead-lettered, whoever claims it. -/
def closeEvent (event : OutboxEvent) (outcome : Outcome) : Job RepositoryError Unit := do
  execute (some (.closing event)) fun seen newest _ =>
    match seen.openEvent event.id, newest.openEvent event.id with
    | some _, some _ => ⟨[], [.close event.id outcome], ()⟩
    | _, _ => ⟨[], [], ()⟩
  commit

def markDelivered (event : OutboxEvent) (now : Int) : Job RepositoryError Unit :=
  closeEvent event (.delivered now)

def reschedule (event : OutboxEvent) (availableAt : Int) (error : DeliveryError) :
    Job RepositoryError Unit :=
  closeEvent event (.rescheduled availableAt error)

def deadLetter (event : OutboxEvent) (error : DeliveryError) (now : Int) :
    Job RepositoryError Unit :=
  closeEvent event (.deadLettered now error)

inductive RedeliveryError where
  | invalidIdempotencyKey
  | reasonRequired
  | eventNotFound
  | endpointNotFound
  | stillQueued
  | notAWebhook
  | idempotencyConflict
  | missingScope (scope : OperatorScope)
  | invalidActor
  | repository (error : RepositoryError)
deriving DecidableEq, Repr

structure RedeliveryResult where
  redelivery : RedeliveryRow
  replayed : Bool
deriving DecidableEq, Repr

/-- `delivered` or `dead_lettered`, once the event has ended. -/
def EventRow.endedState (row : EventRow) : Option EndedState :=
  if row.deliveredAt.isSome then some .delivered
  else if row.deadLetteredAt.isSome then some .deadLettered
  else none

def Db.reachable (db : Db) (merchantId : Id) (endpointId : Option Id) : Bool :=
  db.endpoints.entries.any fun e => decide (e.2.merchantId = merchantId) && e.2.active &&
    endpointId.all fun wanted => decide (e.1 = wanted)

/-- `SELECT ... FOR UPDATE` of the event. -/
def lockEvent (id : Id) : Exec (Option EventRow) := fun seen newest _ =>
  match seen.events.row id, newest.events.row id with
  | some _, some row => ⟨[(.event id, .update)], [], some row⟩
  | _, _ => ⟨[], [], none⟩

def requeueEvent (principal : Principal) (key : Text) (request : WebhookRedelivery)
    (merchantId : Id) (event : EventRow) (previousState : EndedState) (now : Int) :
    Job RedeliveryError RedeliveryResult := do
  execute none fun _ _ _ => ⟨[], [.requeue request.eventId now request.endpointId], ()⟩
  let id ← uuid
  let row : RedeliveryRow := ⟨id, merchantId, request, previousState, event.attempts, now⟩
  let refused ← execute none fun _ newest _ =>
    if (newest.redeliveries.row (principal, key)).isSome then ⟨[], [], true⟩
    else ⟨[], [.insertRedelivery principal key row], false⟩
  if refused then .fail (.repository .unavailable)
  else
    commit
    pure ⟨row, false⟩

def redeliverWebhookEvent (principal : Principal) (key : Text) (request : WebhookRedelivery)
    (now : Int) : Job RedeliveryError RedeliveryResult :=
  Proc.transaction do
    execute none fun _ _ _ => ⟨[(.redeliveryKey principal key, .update)], [], ()⟩
    match ← select fun db => db.redeliveries.row (principal, key) with
    | some stored =>
      if stored.request ≠ request then .fail .idempotencyConflict
      else
        commit
        pure ⟨stored, true⟩
    | none =>
      match ← execute none (lockEvent request.eventId) with
      | none => .fail .eventNotFound
      | some event =>
        if event.channel ≠ .webhook then .fail .notAWebhook
        else
          match event.merchantId, event.endedState with
          | none, _ => .fail .notAWebhook
          | _, none => .fail .stillQueued
          | some merchantId, some previousState =>
            let reachable ← select fun db => db.reachable merchantId request.endpointId
            if !reachable then .fail .endpointNotFound
            else requeueEvent principal key request merchantId event previousState now

/-- An operator key at the operator API, or a named person at the command line. -/
inductive RedeliveryActor where
  | operator (credential : OperatorCredential)
  | admin (name : Text)
deriving DecidableEq, Repr

def RedeliveryActor.principal : RedeliveryActor → Except RedeliveryError Principal
  | .operator credential =>
      if credential.scopes.contains .admin then .ok (.operatorKey credential.keyId)
      else .error (.missingScope .admin)
  | .admin name =>
      if 1 ≤ (Text.trim name).length ∧ (Text.trim name).length ≤ 100 then
        .ok (.admin (Text.trim name))
      else .error .invalidActor

def redeliverWebhook (actor : RedeliveryActor) (key : Text) (request : WebhookRedelivery) :
    Job RedeliveryError RedeliveryResult :=
  match actor.principal with
  | .error error => .fail error
  | .ok principal =>
    if !validateIdempotencyKey key then .fail .invalidIdempotencyKey
    else if (Text.trim request.reason).length < 1 ∨ 1000 < (Text.trim request.reason).length then
      .fail .reasonRequired
    else do
      let at_ ← now
      redeliverWebhookEvent principal key request at_

end CryptoGateway.Webhooks
