import CryptoGateway.Domain.Money
import CryptoGateway.Engine.Service

/-!
The tables behind merchant webhooks: the outbox with its claims, the endpoints with their key
ring, the delivery records, and the redeliveries.
-/
namespace CryptoGateway.Webhooks
open Engine

inductive Channel where
  | webhook | operator
deriving DecidableEq, Repr

/-- `last_error`: why an event was rescheduled or dead-lettered. -/
inductive DeliveryError where
  | withoutMerchant | targetInactive | noActiveEndpoint | attemptsExhausted | deliveryFailed
deriving DecidableEq, Repr

/-- A row of `domain_events`. Its counters are `i32`: the numbers here are theirs as long as an
    event has fewer than `2 ^ 31 - 1` attempts. -/
structure EventRow where
  merchantId : Option Id
  channel : Channel
  eventType : Text
  aggregateType : Text
  aggregateId : Id
  payload : Text
  createdAt : Int
  availableAt : Int
  attempts : Nat := 0
  lastError : Option DeliveryError := none
  claimedBy : Option Text := none
  claimedUntil : Option Int := none
  deliveredAt : Option Int := none
  deadLetteredAt : Option Int := none
  targetEndpointId : Option Id := none
  attemptFloor : Nat := 0
deriving DecidableEq, Repr

structure OutboxEvent where
  id : Id
  merchantId : Option Id
  eventType : Text
  aggregateType : Text
  aggregateId : Id
  payload : Text
  attempts : Nat
  createdAt : Int
  targetEndpointId : Option Id
  attemptFloor : Nat
deriving DecidableEq, Repr

def EventRow.toOutboxEvent (row : EventRow) (id : Id) : OutboxEvent where
  id := id
  merchantId := row.merchantId
  eventType := row.eventType
  aggregateType := row.aggregateType
  aggregateId := row.aggregateId
  payload := row.payload
  attempts := row.attempts
  createdAt := row.createdAt
  targetEndpointId := row.targetEndpointId
  attemptFloor := row.attemptFloor

/-- The arguments of one `claim_due_events`. -/
structure ClaimCall where
  holder : Text
  limit : Nat
  perMerchantLimit : Nat
  visibilitySeconds : Int
  now : Int
deriving DecidableEq, Repr

def ClaimCall.claimedUntil (call : ClaimCall) : Int := call.now + call.visibilitySeconds * 1000000

inductive Outcome where
  | delivered (at_ : Int)
  | rescheduled (availableAt : Int) (error : DeliveryError)
  | deadLettered (at_ : Int) (error : DeliveryError)
deriving DecidableEq, Repr

namespace EventRow

def isOpen (row : EventRow) : Bool := row.deliveredAt.isNone && row.deadLetteredAt.isNone

def dueAt (row : EventRow) (now : Int) : Bool :=
  decide (row.channel = .webhook) && row.isOpen && decide (row.availableAt ≤ now) &&
    row.claimedUntil.all fun claimed => decide (claimed < now)

def claim (call : ClaimCall) (row : EventRow) : EventRow :=
  { row with claimedBy := some call.holder, claimedUntil := some call.claimedUntil }

def close (outcome : Outcome) (row : EventRow) : EventRow :=
  let row := { row with attempts := row.attempts + 1, claimedBy := none, claimedUntil := none }
  match outcome with
  | .delivered at_ => { row with deliveredAt := some at_, lastError := none }
  | .rescheduled availableAt error => { row with availableAt, lastError := some error }
  | .deadLettered at_ error => { row with deadLetteredAt := some at_, lastError := some error }

def requeue (at_ : Int) (endpointId : Option Id) (row : EventRow) : EventRow :=
  { row with
    deliveredAt := none
    deadLetteredAt := none
    availableAt := at_
    lastError := none
    claimedBy := none
    claimedUntil := none
    attemptFloor := row.attempts
    targetEndpointId := endpointId }

end EventRow

structure PreviousRow where
  version : Nat
  fingerprint : Text
  validUntil : Int
deriving DecidableEq, Repr

/-- A row of `webhook_endpoints`. -/
structure EndpointRow where
  merchantId : Id
  url : Text
  secretVersion : Nat
  secretFingerprint : Text
  previous : Option PreviousRow := none
  active : Bool := true
  createdAt : Int
deriving DecidableEq, Repr

structure Rotation where
  fromVersion : Nat
  previousFingerprint : Text
  newVersion : Nat
  newFingerprint : Text
  validUntil : Int
deriving DecidableEq, Repr

def EndpointRow.rotate (rotation : Rotation) (row : EndpointRow) : EndpointRow :=
  { row with
    secretVersion := rotation.newVersion
    secretFingerprint := rotation.newFingerprint
    previous := some ⟨rotation.fromVersion, rotation.previousFingerprint, rotation.validUntil⟩ }

/-- A row of `webhook_deliveries`; event, endpoint and attempt number are its key. -/
structure DeliveryRow where
  responseStatus : Option Nat
  error : Option Text
  durationMs : Nat
  deliveredAt : Int
deriving DecidableEq, Repr

structure DeliveryKey where
  eventId : Id
  endpointId : Id
  attempt : Nat
deriving DecidableEq, Repr

/-- Who asked for a redelivery: an operator key, or a named person at the command line. -/
inductive Principal where
  | operatorKey (keyId : Id)
  | admin (name : Text)
deriving DecidableEq, Repr

structure WebhookRedelivery where
  eventId : Id
  endpointId : Option Id
  reason : Text
deriving DecidableEq, Repr

inductive EndedState where
  | delivered | deadLettered
deriving DecidableEq, Repr

/-- A row of `webhook_redeliveries`; the principal and the key are unique. The request
    stands for its hash. -/
structure RedeliveryRow where
  id : Id
  merchantId : Id
  request : WebhookRedelivery
  previousState : EndedState
  previousAttempts : Nat
  createdAt : Int
deriving DecidableEq, Repr

structure Db where
  events : Table Id EventRow := .empty
  endpoints : Table Id EndpointRow := .empty
  deliveries : Table DeliveryKey DeliveryRow := .empty
  redeliveries : Table (Principal × Text) RedeliveryRow := .empty

/-- What is locked: rows, unique index entries, and the advisory lock of a redelivery. -/
inductive Row where
  | event (id : Id)
  | endpoint (id : Id)
  | endpointUrl (merchantId : Id) (url : Text)
  | delivery (key : DeliveryKey)
  | redelivery (principal : Principal) (key : Text)
  | redeliveryKey (principal : Principal) (key : Text)
deriving DecidableEq, Repr

inductive Write where
  | insertEvent (id : Id) (row : EventRow)
  | claim (event : OutboxEvent) (call : ClaimCall)
  | close (id : Id) (outcome : Outcome)
  | requeue (id : Id) (at_ : Int) (endpointId : Option Id)
  | insertEndpoint (id : Id) (row : EndpointRow)
  | rotate (id : Id) (rotation : Rotation)
  | disable (id : Id)
  | putDelivery (key : DeliveryKey) (row : DeliveryRow)
  | insertRedelivery (principal : Principal) (key : Text) (row : RedeliveryRow)
deriving DecidableEq, Repr

namespace Write

def apply : Write → Db → Db
  | .insertEvent id row, db => { db with events := db.events.insert id row }
  | .claim event call, db => { db with events := db.events.modify event.id (·.claim call) }
  | .close id outcome, db => { db with events := db.events.modify id (·.close outcome) }
  | .requeue id at_ endpointId, db =>
      { db with events := db.events.modify id (·.requeue at_ endpointId) }
  | .insertEndpoint id row, db => { db with endpoints := db.endpoints.insert id row }
  | .rotate id rotation, db => { db with endpoints := db.endpoints.modify id (·.rotate rotation) }
  | .disable id, db =>
      { db with endpoints := db.endpoints.modify id fun row => { row with active := false } }
  | .putDelivery key row, db => { db with deliveries := db.deliveries.put key row }
  | .insertRedelivery principal key row, db =>
      { db with redeliveries := db.redeliveries.insert (principal, key) row }

/-- A claim locks its row as `FOR UPDATE` does; the foreign keys share the rows they
    point at. -/
def needs : Write → List (Lock Row)
  | .insertEvent id _ => [(.event id, .update)]
  | .claim event _ => [(.event event.id, .update)]
  | .close id _ => [(.event id, .noKeyUpdate)]
  | .requeue id _ endpointId =>
      (.event id, .noKeyUpdate) :: endpointId.toList.map fun endpoint =>
        (.endpoint endpoint, .keyShare)
  | .insertEndpoint id row =>
      [(.endpoint id, .update), (.endpointUrl row.merchantId row.url, .update)]
  | .rotate id _ => [(.endpoint id, .noKeyUpdate)]
  | .disable id => [(.endpoint id, .noKeyUpdate)]
  | .putDelivery key _ =>
      [(.delivery key, .update), (.event key.eventId, .keyShare),
        (.endpoint key.endpointId, .keyShare)]
  | .insertRedelivery principal key row =>
      [(.redelivery principal key, .update), (.event row.request.eventId, .keyShare)]

def onEvent (id : Id) : Write → Option EventRow → Option EventRow
  | .insertEvent k row, old => if k = id then some (old.getD row) else old
  | .claim event call, old => if event.id = id then old.map (·.claim call) else old
  | .close k outcome, old => if k = id then old.map (·.close outcome) else old
  | .requeue k at_ endpointId, old => if k = id then old.map (·.requeue at_ endpointId) else old
  | _, old => old

def onEndpoint (id : Id) : Write → Option EndpointRow → Option EndpointRow
  | .insertEndpoint k row, old => if k = id then some (old.getD row) else old
  | .rotate k rotation, old => if k = id then old.map (·.rotate rotation) else old
  | .disable k, old => if k = id then old.map fun row => { row with active := false } else old
  | _, old => old

def onDelivery (key : DeliveryKey) : Write → Option DeliveryRow → Option DeliveryRow
  | .putDelivery k row, old => if k = key then some row else old
  | _, old => old

end Write

instance : Store Db Write Row := ⟨Write.apply, Write.needs⟩

section Frames
variable (w : Write) (db : Db)

theorem events_apply (id : Id) :
    (Store.apply w db).events.row id = w.onEvent id (db.events.row id) := by
  cases w <;> simp only [Store.apply, Write.apply, Write.onEvent, Table.row_insert,
    Table.row_modify, eq_comm (a := id)] <;> split <;> simp_all

theorem endpoints_apply (id : Id) :
    (Store.apply w db).endpoints.row id = w.onEndpoint id (db.endpoints.row id) := by
  cases w <;> simp only [Store.apply, Write.apply, Write.onEndpoint, Table.row_insert,
    Table.row_modify, eq_comm (a := id)] <;> split <;> simp_all

theorem deliveries_apply (key : DeliveryKey) :
    (Store.apply w db).deliveries.row key = w.onDelivery key (db.deliveries.row key) := by
  cases w <;> simp only [Store.apply, Write.apply, Write.onDelivery, Table.row_put,
    eq_comm (a := key)]

end Frames

section Lists
variable (ws : List Write) (db : Db)

theorem events_applyAll (id : Id) : (applyAll ws db).events.row id =
    ws.foldl (fun old w => w.onEvent id old) (db.events.row id) := by
  induction ws generalizing db with
  | nil => rfl
  | cons w rest ih => rw [applyAll_cons, ih, events_apply, List.foldl_cons]

theorem endpoints_applyAll (id : Id) : (applyAll ws db).endpoints.row id =
    ws.foldl (fun old w => w.onEndpoint id old) (db.endpoints.row id) := by
  induction ws generalizing db with
  | nil => rfl
  | cons w rest ih => rw [applyAll_cons, ih, endpoints_apply, List.foldl_cons]

theorem deliveries_applyAll (key : DeliveryKey) : (applyAll ws db).deliveries.row key =
    ws.foldl (fun old w => w.onDelivery key old) (db.deliveries.row key) := by
  induction ws generalizing db with
  | nil => rfl
  | cons w rest ih => rw [applyAll_cons, ih, deliveries_apply, List.foldl_cons]

end Lists

theorem event_guarded (id : Id) : Guarded (fun db : Db => db.events.row id) (Row.event id) := by
  intro w db
  simp only [events_apply]
  cases w <;> simp only [Write.onEvent, true_or] <;> split <;>
    simp_all [Store.needs, Write.needs]

theorem endpoint_guarded (id : Id) :
    Guarded (fun db : Db => db.endpoints.row id) (Row.endpoint id) := by
  intro w db
  simp only [endpoints_apply]
  cases w <;> simp only [Write.onEndpoint, true_or] <;> split <;>
    simp_all [Store.needs, Write.needs]

end CryptoGateway.Webhooks
