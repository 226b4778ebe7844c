import CryptoGateway.Engine.Ranks
import CryptoGateway.Webhooks.Delivery

/-!
The running outbox: workers, operators and publishers over one database, and the
effects that their commits may have on it.
-/
namespace CryptoGateway.Webhooks
open Engine

/-- What starts a process. `claimDue` is a bare call of the repository. -/
inductive Request where
  | publish (channel : Channel) (merchantId : Option Id) (eventType aggregateType : Text)
      (aggregateId : Id) (payload : Text)
  | addEndpoint (actor : Text) (merchantId : Id) (url : Text) (active : Bool := true)
  | rotate (actor : Text) (endpointId : Id) (transition : Int) (reason : Text)
  | disable (actor : Text) (endpointId : Id) (reason : Text)
  | redeliver (actor : RedeliveryActor) (key : Text) (request : WebhookRedelivery)
  | claimDue (call : ClaimCall) (order : RowOrder Id := fun _ _ => true)
  | deliverDue (limit : Nat) (circ : Circumstances := {})

inductive Failure where
  | repository (error : RepositoryError)
  | provisioning (error : ProvisioningError)
  | redelivery (error : RedeliveryError)
  | outbox (error : OutboxError)
deriving DecidableEq, Repr

inductive Response where
  | published (id : Id)
  | registration (registration : WebhookRegistration)
  | redelivery (result : RedeliveryResult)
  | batch (events : List OutboxEvent)
  | report (report : OutboxReport)
  | done
deriving DecidableEq, Repr

def answer {ε α : Type} (wrap : ε → Failure) (respond : α → Response) (job : Job ε α) :
    Job Failure Response := do
  let a ← job.mapError wrap
  pure (respond a)

def program (config : Config) : Request → Job Failure Response
  | .publish channel merchant eventType aggregateType aggregate payload =>
      answer .repository .published
        (publish channel merchant eventType aggregateType aggregate payload)
  | .addEndpoint actor merchant url active =>
      answer .provisioning .registration (addWebhookEndpoint config actor merchant url active)
  | .rotate actor endpoint transition reason =>
      answer .provisioning .registration (rotateWebhookSecret config actor endpoint
        transition reason)
  | .disable actor endpoint reason =>
      answer .provisioning (fun _ => .done) (disableWebhookEndpoint actor endpoint reason)
  | .redeliver actor key request =>
      answer .redelivery .redelivery (redeliverWebhook actor key request)
  | .claimDue call order => answer .repository .batch (claimDueEvents order call)
  | .deliverDue limit circ => answer .outbox .report (deliverDue config circ limit)

structure EventRow.Unsent (row : EventRow) : Prop where
  attempts : row.attempts = 0
  attemptFloor : row.attemptFloor = 0
  isOpen : row.isOpen = true
  claimedUntil : row.claimedUntil = none

structure Db.Hands (db : Db) (call : ClaimCall) (batch : List OutboxEvent) : Prop where
  distinct : (batch.map (·.id)).Nodup
  bounded : batch.length ≤ call.limit
  fair : ∀ merchant, (batch.filter fun e => e.merchantId = merchant).length ≤ call.perMerchantLimit
  due : ∀ event ∈ batch, ∃ row, db.events.row event.id = some row ∧ row.dueAt call.now = true ∧
    event = row.toOutboxEvent event.id

structure Db.Rotates (db : Db) (config : Config) (id : Id) (rotation : Rotation)
    (row : EndpointRow) : Prop where
  stored : db.endpoints.row id = some row
  active : row.active = true
  version : row.secretVersion = rotation.fromVersion
  fingerprint : row.secretFingerprint = rotation.previousFingerprint
  next : rotation.newVersion = rotation.fromVersion + 1
  issued : rotation.newFingerprint =
    config.keys.fingerprint (config.keys.derive rotation.newVersion row.merchantId id)

inductive Effect (config : Config) (db : Db) : List Write → Prop where
  | idle : Effect config db []
  | publish {id : Id} {row : EventRow} (absent : db.events.row id = none) (unsent : row.Unsent) :
      Effect config db [.insertEvent id row]
  | claim {call : ClaimCall} {batch : List OutboxEvent} (visible : 0 < call.visibilitySeconds)
      (hands : db.Hands call batch) : Effect config db (batch.map (.claim · call))
  | close {id : Id} {row : EventRow} {outcome : Outcome} (stored : db.events.row id = some row)
      (isOpen : row.isOpen = true) : Effect config db [.close id outcome]
  | record {key : DeliveryKey} {row : DeliveryRow} : Effect config db [.putDelivery key row]
  | redeliver {id : Id} {endpointId : Option Id} {at_ : Int} {principal : Principal} {key : Text}
      {row : RedeliveryRow} {event : EventRow} (stored : db.events.row id = some event)
      (ended : event.isOpen = false) (webhook : event.channel = .webhook)
      (asked : row.request.eventId = id ∧ row.request.endpointId = endpointId)
      (owned : event.merchantId = some row.merchantId) :
      Effect config db [.requeue id at_ endpointId, .insertRedelivery principal key row]
  | register {id : Id} {row : EndpointRow} (absent : db.endpoints.row id = none)
      (version : row.secretVersion = 1) (previous : row.previous = none)
      (issued : row.secretFingerprint =
        config.keys.fingerprint (config.keys.derive 1 row.merchantId id)) :
      Effect config db [.insertEndpoint id row]
  | rotate {id : Id} {row : EndpointRow} {rotation : Rotation}
      (rotates : db.Rotates config id rotation row) : Effect config db [.rotate id rotation]
  | disable {id : Id} : Effect config db [.disable id]

def contract (config : Config) : Spec Db Write Row Watch where
  inv _ := True
  eff _ db ws := Effect config db ws
  keeps _ _ := trivial

abbrev Steady (config : Config) (held : List (Lock Row)) (K : Db → Prop) : Prop :=
  Stable (contract config) held K

abbrev Assertion : Type := Ctx Db Write Row Watch → Prop

theorem contract_forgetful (config : Config) : (contract config).Forgetful := id

def Refines (config : Config) {ε α : Type} (job : Job ε α) : Prop :=
  ∀ log db, Refining (contract config) job ⟨[], [], log, db⟩

section Rules
variable {config : Config} {ε δ α β : Type} {held : List (Lock Row)} {log : Log Db Watch} {db : Db}

theorem stable_true : Steady config held fun _ => True := .const True

theorem between (log : Log Db Watch) (db : Db) : Between (contract config) ⟨[], [], log, db⟩ :=
  ⟨rfl, rfl, trivial⟩

theorem Refines.pure (a : α) : Refines config (pure a : Job ε α) := fun log db => between log db

theorem Refines.fail (e : ε) : Refines config (.fail e : Job ε α) := fun log db => between log db

theorem Refines.bind {job : Job ε α} {f : α → Job ε β} (first : Refines config job)
    (rest : ∀ a, Refines config (f a)) : Refines config (job >>= f) := by
  intro log db
  rw [Refining, wp_bind]
  refine wp_mono (first log db) ?_ fun _ _ failed => failed
  rintro a ⟨_, _, log', db'⟩ ⟨rfl, rfl, _⟩
  exact rest a log' db'

theorem Refines.handle {job : Job ε α} {recover : ε → Job δ α} (first : Refines config job)
    (rest : ∀ e, Refines config (recover e)) : Refines config (job.handle recover) := by
  intro log db
  rw [Refining, wp_handle]
  refine wp_mono (first log db) (fun _ _ done => done) ?_
  rintro e ⟨_, _, log', db'⟩ ⟨rfl, rfl, _⟩
  exact rest e log' db'

theorem Refines.mapError {job : Job ε α} (first : Refines config job) (f : ε → δ) :
    Refines config (job.mapError f) := first.handle fun e => .fail (f e)

theorem Refines.transaction {body : Job ε α}
    (inside : ∀ log db, wp (contract config) body (fun _ => Between (contract config))
      (fun _ _ => True) ⟨[], [], log, db⟩) : Refines config (Proc.transaction body) :=
  fun log db => wp_transaction (inside log db) fun _ log db _ => between log db

theorem Refines.now : Refines config (now : Job ε Int) := fun log _ m _ _ => between log m.db

theorem Refines.watchedNow (tag : Watch) : Refines config (watchedNow tag : Job ε Int) :=
  fun _ _ m _ _ => between _ m.db

theorem Refines.uuid : Refines config (uuid : Job ε Id) := fun log _ _ db _ _ => between log db

theorem Refines.watch (tag : Watch) (query : Db → β) : Refines config (watch tag query : Job ε β) :=
  fun _ _ m _ _ => between _ m.db

section
variable {ws : List Write} {K : Db → Prop} {fault : ε → Assertion} {post : β → Assertion}

theorem wp_execute {tag : Option Watch} {exec : Exec β}
    (stable : Steady config held K) (known : K db)
    (cont : ∀ (m : Moment Db) (newest : Db) (grant : Lock Row → Bool), K newest →
      Later (contract config) held m.db newest →
      ∀ reply, reply = exec (applyAll ws m.db) (applyAll ws newest) grant →
      post reply.value ⟨required Db reply ++ held, ws ++ reply.writes, record tag m log, newest⟩) :
    wp (contract config) (execute tag exec) post fault ⟨held, ws, log, db⟩ :=
  wp_stmt stable known fun m newest grant _ _ _ => cont m newest grant

theorem wp_select {query : Db → β} (stable : Steady config held K) (known : K db)
    (cont : ∀ db, K db → post (query (applyAll ws db)) ⟨held, ws, log, db⟩) :
    wp (contract config) (select query) post fault ⟨held, ws, log, db⟩ :=
  wp_read stable known fun m _ => cont m.db

theorem wp_watch {tag : Watch} {query : Db → β} (stable : Steady config held K) (known : K db)
    (cont : ∀ m : Moment Db, K m.db →
      post (query (applyAll ws m.db)) ⟨held, ws, (tag, m) :: log, m.db⟩) :
    wp (contract config) (watch tag query) post fault ⟨held, ws, log, db⟩ :=
  wp_read stable known fun m _ => cont m

theorem wp_uuid {post : Id → Assertion} (stable : Steady config held K) (known : K db)
    (cont : ∀ id db, K db → post id ⟨held, ws, log, db⟩) :
    wp (contract config) uuid post fault ⟨held, ws, log, db⟩ :=
  wp_fresh stable known fun id db _ => cont id db

theorem wp_commits {post : Unit → Assertion} (stable : Steady config held K) (known : K db)
    (eff : ∀ db, K db → Effect config db ws) (cont : ∀ db, post () ⟨[], [], log, db⟩) :
    wp (contract config) commit post fault ⟨held, ws, log, db⟩ :=
  wp_commit stable known (fun db _ => eff db) fun db _ => cont db

end

theorem event_stable {id : Id} (row : Option EventRow)
    (locked : (Row.event id, Mode.noKeyUpdate) ∈ held ∨ (Row.event id, Mode.update) ∈ held) :
    Steady config held fun db => db.events.row id = row := (event_guarded id).stable locked row

theorem endpoint_stable {id : Id} (row : Option EndpointRow)
    (locked : (Row.endpoint id, Mode.noKeyUpdate) ∈ held ∨ (Row.endpoint id, Mode.update) ∈ held) :
    Steady config held fun db => db.endpoints.row id = row :=
  (endpoint_guarded id).stable locked row

end Rules

end CryptoGateway.Webhooks
