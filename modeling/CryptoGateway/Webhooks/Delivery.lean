import CryptoGateway.Engine.Interleave
import CryptoGateway.Webhooks.Outbox

/-!
`gateway-application/src/outbox.rs` and the endpoint commands of `provisioning.rs`: one delivery
pass, and the rotation of a signing secret.
-/
namespace CryptoGateway.Webhooks
open Engine

structure Envelope where
  id : Id
  eventType : Text
  createdAt : Int
  object : Text
  aggregateId : Id
  attributes : Text
deriving DecidableEq, Repr

def unixTimestamp (at_ : Int) : Int := at_ / 1000000

def envelope (event : OutboxEvent) : Envelope where
  id := event.id
  eventType := event.eventType
  createdAt := unixTimestamp event.createdAt
  object := event.aggregateType
  aggregateId := event.aggregateId
  attributes := event.payload

/-- The derivation of secrets under the deployment's master key, and the two digests over
    a secret. -/
structure Keys where
  derive : (version : Nat) → (merchantId endpointId : Id) → Text
  fingerprint : Text → Text
  mac : Text → Int → Envelope → Text

structure DeliveryFairness where
  maxEventsPerMerchant : Nat := 20
  concurrency : Nat := 8
deriving DecidableEq, Repr

/-- The deployment; `OutboxService::new` refuses a ceiling below one attempt. -/
structure Config where
  keys : Keys
  holder : Text := []
  maxAttempts : Nat
  fairness : DeliveryFairness := {}
  ceiling : 1 ≤ maxAttempts

def signEventWithAll (keys : Keys) (secrets : List Text) (timestamp : Int) (body : Envelope) :
    Signature where
  timestamp := timestamp
  v1 := secrets.map fun secret => keys.mac secret timestamp body

inductive OutboxError where
  | invalidBatchLimit
  | repository (error : RepositoryError)
deriving DecidableEq, Repr

structure OutboxReport where
  claimed : Nat := 0
  delivered : Nat := 0
  rescheduled : Nat := 0
  deadLettered : Nat := 0
  endpointsMissing : Nat := 0
deriving DecidableEq, Repr

def OutboxReport.absorb (report other : OutboxReport) : OutboxReport where
  claimed := report.claimed + other.claimed
  delivered := report.delivered + other.delivered
  rescheduled := report.rescheduled + other.rescheduled
  deadLettered := report.deadLettered + other.deadLettered
  endpointsMissing := report.endpointsMissing + other.endpointsMissing

/-- The storage calls of a pass. A pass makes each of them at most once. -/
inductive StorageCall where
  | claim
  | endpoints (merchantId : Id)
  | record (eventId endpointId : Id)
  | close (eventId : Id)
deriving DecidableEq, Repr

/-- A storage call that fails: before it reached the database, or after it took effect. -/
inductive Outage where
  | refused | lost
deriving DecidableEq, Repr

/-- What a pass meets outside the database: the order in which rows come back where no
    `ORDER BY` decides, which merchant goes on next, the endpoints' answers, and failures
    of storage. -/
structure Circumstances where
  order : RowOrder Id := fun _ _ => true
  picks : List Nat := []
  sender : (eventId endpointId : Id) → DeliveryResult := fun _ _ => .accepted 200 0
  storage : StorageCall → Option Outage := fun _ => none

def Circumstances.call {α : Type} (circ : Circumstances) (call : StorageCall)
    (job : Job RepositoryError α) : Job OutboxError α :=
  match circ.storage call with
  | none => job.mapError .repository
  | some .refused => .fail (.repository .unavailable)
  | some .lost => do
      let _ ← job.mapError .repository
      .fail (.repository .unavailable)

def DeliveryResult.attempt (result : DeliveryResult) (event : OutboxEvent) (endpointId : Id) :
    DeliveryAttempt :=
  match result with
  | .accepted status duration =>
      ⟨event.id, endpointId, event.attempts + 1, some status, none, duration⟩
  | .refused status duration detail =>
      ⟨event.id, endpointId, event.attempts + 1, some status, some detail, duration⟩
  | .unreachable detail duration =>
      ⟨event.id, endpointId, event.attempts + 1, none, some detail, duration⟩

section Pass
variable (config : Config) (circ : Circumstances)

def WebhookEndpoint.secret (endpoint : WebhookEndpoint) (version : Nat) : Text :=
  config.keys.derive version endpoint.merchantId endpoint.id

/-- The secrets that sign: the current one, and the previous one while it is loaded and
    matches its fingerprint. -/
def WebhookEndpoint.signing (endpoint : WebhookEndpoint) : List Text :=
  endpoint.secret config endpoint.secretVersion ::
    (match endpoint.previousSecret with
    | none => []
    | some previous =>
      if config.keys.fingerprint (endpoint.secret config previous.version) = previous.fingerprint
      then [endpoint.secret config previous.version] else [])

def recordResult (event : OutboxEvent) (attempt : DeliveryAttempt) : Job OutboxError Unit := do
  let at_ ← now
  circ.call (.record event.id attempt.endpointId) (recordAttempt event attempt at_)

/-- One turn of the loop of `deliver_to_all`: whether this endpoint accepted. -/
def deliverTo (event : OutboxEvent) (endpoint : WebhookEndpoint) : Job OutboxError Bool :=
  if config.keys.fingerprint (endpoint.secret config endpoint.secretVersion) ≠
      endpoint.secretFingerprint then do
    recordResult circ event ⟨event.id, endpoint.id, event.attempts + 1, none,
      some "signing_key_mismatch".toList, 0⟩
    pure false
  else do
    let signedAt ← watchedNow (.signing event endpoint.id)
    let signature := signEventWithAll config.keys (endpoint.signing config)
      (unixTimestamp signedAt) (envelope event)
    let result := circ.sender event.id endpoint.id
    watch (.called ⟨event, endpoint, signedAt, signature, result⟩) fun _ => ()
    recordResult circ event (result.attempt event endpoint.id)
    pure result.isAccepted

def deliverToAll (event : OutboxEvent) : List WebhookEndpoint → Job OutboxError Bool
  | [] => pure true
  | endpoint :: rest => do
      let accepted ← deliverTo config circ event endpoint
      let others ← deliverToAll event rest
      pure (accepted && others)

def OutboxEvent.targets (event : OutboxEvent) (endpoints : List WebhookEndpoint) :
    List WebhookEndpoint :=
  match event.targetEndpointId with
  | some target => endpoints.filter fun endpoint => endpoint.id = target
  | none => endpoints

def OutboxEvent.used (event : OutboxEvent) : Nat := event.attempts - event.attemptFloor + 1

def backoffFor (attempt : Nat) : Int :=
  min (60 * 2 ^ (min (max attempt 1) 8 - 1)) (6 * 60 * 60) * 1000000

def close (event : OutboxEvent) (job : Job RepositoryError Unit) : Job OutboxError Unit :=
  circ.call (.close event.id) job

def retryLater (event : OutboxEvent) : Job OutboxError OutboxReport := do
  let at_ ← watchedNow (.ending event)
  if config.maxAttempts ≤ event.used then
    close circ event (deadLetter event .attemptsExhausted at_)
    pure { claimed := 1, deadLettered := 1 }
  else
    close circ event (reschedule event (at_ + backoffFor event.used) .deliveryFailed)
    pure { claimed := 1, rescheduled := 1 }

/-- One turn of the loop of `deliver_merchant`. -/
def deliverEvent (endpoints : List WebhookEndpoint) (event : OutboxEvent) :
    Job OutboxError OutboxReport :=
  if event.targets endpoints = [] then do
    let at_ ← now
    close circ event (deadLetter event
      (if event.targetEndpointId.isSome then .targetInactive else .noActiveEndpoint) at_)
    pure { claimed := 1, deadLettered := 1, endpointsMissing := 1 }
  else do
    let all ← deliverToAll config circ event (event.targets endpoints)
    if all then
      let at_ ← now
      close circ event (markDelivered event at_)
      pure { claimed := 1, delivered := 1 }
    else retryLater config circ event

def deadLetterUnaddressed (event : OutboxEvent) : Job OutboxError OutboxReport := do
  let at_ ← now
  close circ event (deadLetter event .withoutMerchant at_)
  pure { claimed := 1, deadLettered := 1 }

def deliverEach (turn : OutboxEvent → Job OutboxError OutboxReport) :
    List OutboxEvent → Job OutboxError OutboxReport
  | [] => pure {}
  | event :: rest => do
      let part ← turn event
      let others ← deliverEach turn rest
      pure (part.absorb others)

def deliverShare (merchant : Option Id) (events : List OutboxEvent) :
    Job OutboxError OutboxReport :=
  match merchant with
  | none => deliverEach (deadLetterUnaddressed circ) events
  | some merchantId => do
      let endpoints ← circ.call (.endpoints merchantId) (activeEndpoints circ.order merchantId)
      deliverEach (deliverEvent config circ endpoints) events

def deliverMerchant (merchant : Option Id) (events : List OutboxEvent) :
    Job OutboxError OutboxReport :=
  (deliverShare config circ merchant events).handle fun error => do
    watch (.stopped merchant) fun _ => ()
    .fail error

def pushGroup (event : OutboxEvent) :
    List (Option Id × List OutboxEvent) → List (Option Id × List OutboxEvent)
  | [] => [(event.merchantId, [event])]
  | (merchant, queue) :: rest =>
      if merchant = event.merchantId then (merchant, queue ++ [event]) :: rest
      else (merchant, queue) :: pushGroup event rest

def groupByMerchant (events : List OutboxEvent) : List (Option Id × List OutboxEvent) :=
  events.foldl (fun groups event => pushGroup event groups) []

def combine : List (Except OutboxError OutboxReport) → Job OutboxError OutboxReport
  | [] => pure {}
  | .error error :: _ => .fail error
  | .ok part :: rest => do
      let others ← combine rest
      pure (part.absorb others)

def deliverDue (limit : Nat) : Job OutboxError OutboxReport := do
  if limit = 0 ∨ 500 < limit then .fail .invalidBatchLimit
  else
    let at_ ← now
    let events ← circ.call .claim (claimDueEvents circ.order
      ⟨config.holder, limit, config.fairness.maxEventsPerMerchant, 300, at_⟩)
    let shares := (groupByMerchant events).map fun group =>
      deliverMerchant config circ group.1 group.2
    let outcomes ← Proc.boundedJoin config.fairness.concurrency circ.picks shares
    combine outcomes

end Pass

inductive ProvisioningError where
  | invalid (message : String)
  | merchantNotFound | endpointNotFound
  | repository (error : RepositoryError)
deriving DecidableEq, Repr

structure WebhookRegistration where
  endpointId : Id
  merchantId : Id
  secretVersion : Nat
  signingSecret : Text
  previousValidUntil : Option Int
deriving DecidableEq, Repr

section Endpoints
variable (config : Config)

def requiredText {α : Type} (value : Text) (message : String) (job : Job ProvisioningError α) :
    Job ProvisioningError α :=
  if (Text.trim value).isEmpty then .fail (.invalid message) else job

/-- `active` is what `active_merchant` finds in the table of merchants. -/
def addWebhookEndpoint (actor : Text) (merchantId : Id) (url : Text) (active : Bool) :
    Job ProvisioningError WebhookRegistration :=
  requiredText actor "an actor naming the person is required" <|
  if !("https://".toList).isPrefixOf (Text.trim url) ∨ 2048 < Text.byteLength (Text.trim url) then
    .fail (.invalid "the webhook URL must be https and at most 2048 characters")
  else do
    let endpointId ← uuid
    let at_ ← now
    let secret := config.keys.derive 1 merchantId endpointId
    Proc.transaction <| if !active then .fail .merchantNotFound else do
      let refused ← execute none fun _ newest _ =>
        if (newest.endpoints.row endpointId).isSome then
          ⟨[], [], some (ProvisioningError.repository .unavailable)⟩
        else if newest.endpoints.entries.any fun e =>
            decide (e.2.merchantId = merchantId) && decide (e.2.url = Text.trim url) then
          ⟨[], [], some (.invalid "this URL is already registered for the merchant")⟩
        else ⟨[], [.insertEndpoint endpointId
          { merchantId, url := Text.trim url, secretVersion := 1,
            secretFingerprint := config.keys.fingerprint secret, createdAt := at_ }], none⟩
      match refused with
      | some error => .fail error
      | none => do
          commit
          pure ⟨endpointId, merchantId, 1, secret, none⟩

/-- The guarded update of a rotation: the version and the fingerprint it started from are
    still those of an active endpoint. -/
def Db.rotatable (db : Db) (endpointId : Id) (rotation : Rotation) : Option EndpointRow :=
  (db.endpoints.row endpointId).filter fun row =>
    decide (row.secretVersion = rotation.fromVersion) && row.active &&
      decide (row.secretFingerprint = rotation.previousFingerprint)

def rotateStored (endpointId : Id) (rotation : Rotation) : Job ProvisioningError Unit :=
  Proc.transaction do
    let rotated ← execute none fun seen newest _ =>
      match seen.rotatable endpointId rotation, newest.rotatable endpointId rotation with
      | some _, some _ => ⟨[], [.rotate endpointId rotation], true⟩
      | _, _ => ⟨[], [], false⟩
    if rotated then commit else .fail .endpointNotFound

def rotateWebhookSecret (actor : Text) (endpointId : Id) (transition : Int) (reason : Text) :
    Job ProvisioningError WebhookRegistration :=
  requiredText actor "an actor naming the person is required" <|
  requiredText reason "a reason is required" <|
  if transition < 3600 * 1000000 ∨ 30 * 86400 * 1000000 < transition then
    .fail (.invalid "the transition period must be between 1 hour and 30 days")
  else do
    match ← select fun db => (db.endpoints.row endpointId).filter (·.active) with
    | none => .fail .endpointNotFound
    | some state =>
      if 2 ^ 31 ≤ state.secretVersion + 1 then
        .fail (.invalid "the secret version cannot grow further")
      else
        let secretAt := fun version => config.keys.derive version state.merchantId endpointId
        let at_ ← now
        rotateStored endpointId
          { fromVersion := state.secretVersion
            previousFingerprint := config.keys.fingerprint (secretAt state.secretVersion)
            newVersion := state.secretVersion + 1
            newFingerprint := config.keys.fingerprint (secretAt (state.secretVersion + 1))
            validUntil := at_ + transition }
        pure ⟨endpointId, state.merchantId, state.secretVersion + 1,
          secretAt (state.secretVersion + 1), some (at_ + transition)⟩

def disableWebhookEndpoint (actor : Text) (endpointId : Id) (reason : Text) :
    Job ProvisioningError Unit :=
  requiredText actor "an actor naming the person is required" <|
  requiredText reason "a reason is required" <|
  Proc.transaction do
    let disabled ← execute none fun seen newest _ =>
      match (seen.endpoints.row endpointId).filter (·.active),
          (newest.endpoints.row endpointId).filter (·.active) with
      | some _, some _ => ⟨[], [.disable endpointId], true⟩
      | _, _ => ⟨[], [], false⟩
    if disabled then commit else .fail .endpointNotFound

end Endpoints

/-- `enqueue_outbox`, in a transaction of its own. -/
def publish (channel : Channel) (merchantId : Option Id) (eventType aggregateType : Text)
    (aggregateId : Id) (payload : Text) : Job RepositoryError Id := do
  let at_ ← now
  let id ← uuid
  Proc.transaction do
    let refused ← execute none fun _ newest _ =>
      if (newest.events.row id).isSome then ⟨[], [], true⟩
      else ⟨[], [.insertEvent id
        { merchantId, channel, eventType, aggregateType, aggregateId, payload, createdAt := at_,
          availableAt := at_ }], false⟩
    if refused then .fail .unavailable
    else
      commit
      pure id

end CryptoGateway.Webhooks
