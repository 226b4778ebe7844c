import CryptoGateway.Engine.Logic
import CryptoGateway.Storage.Statements

/-!
What the row writes leave alone: columns that no write changes, and rows that
only a session with the row's lock can change.
-/
namespace CryptoGateway
open Engine

section
variable (w : Write) (db : Db)

@[simp] theorem apply_intents : (Store.apply w db).intents = w.intents db.intents := rfl
@[simp] theorem apply_quotes : (Store.apply w db).quotes = w.quotes db.quotes := rfl
@[simp] theorem apply_attempts : (Store.apply w db).attempts = w.attempts db.attempts := rfl
@[simp] theorem apply_leases : (Store.apply w db).leases = w.leases db.leases := rfl
@[simp] theorem apply_collectors : (Store.apply w db).collectors = w.collectors db.collectors := rfl
@[simp] theorem apply_transfers : (Store.apply w db).transfers = w.transfers db.transfers := rfl
@[simp] theorem apply_transferStates :
    (Store.apply w db).transferStates = w.transferStates db.transferStates := rfl
@[simp] theorem apply_stateEvents :
    (Store.apply w db).stateEvents = w.stateEvents db.stateEvents := rfl
@[simp] theorem apply_processing : (Store.apply w db).processing = w.processing db.processing := rfl
@[simp] theorem apply_observations :
    (Store.apply w db).observations = w.observations db.observations := rfl
@[simp] theorem apply_attestations :
    (Store.apply w db).attestations = w.attestations db.attestations := rfl
@[simp] theorem apply_verdicts : (Store.apply w db).verdicts = w.verdicts db.verdicts := rfl
@[simp] theorem apply_riskEvaluations :
    (Store.apply w db).riskEvaluations = w.riskEvaluations db.riskEvaluations := rfl
@[simp] theorem apply_claims : (Store.apply w db).claims = w.claims db.claims := rfl
@[simp] theorem apply_allocations :
    (Store.apply w db).allocations = w.allocations db.allocations := rfl
@[simp] theorem apply_decisions : (Store.apply w db).decisions = w.decisions db.decisions := rfl
@[simp] theorem apply_fulfillments :
    (Store.apply w db).fulfillments = w.fulfillments db.fulfillments := rfl
@[simp] theorem apply_events : (Store.apply w db).events = w.events db.events := rfl
@[simp] theorem apply_resolutions :
    (Store.apply w db).resolutions = w.resolutions db.resolutions := rfl
@[simp] theorem apply_proposals : (Store.apply w db).proposals = w.proposals db.proposals := rfl
@[simp] theorem apply_idempotency :
    (Store.apply w db).idempotency = w.idempotency db.idempotency := rfl
@[simp] theorem apply_componentLeases :
    (Store.apply w db).componentLeases = w.componentLeases db.componentLeases := rfl
@[simp] theorem apply_cursors : (Store.apply w db).cursors = w.cursors db.cursors := rfl

end

section Untouched
variable {ws : List Write} {db : Db}

theorem untouched {α : Type} {t : TableName} (view : Db → α)
    (step : ∀ w db, w.table ≠ t → view (Store.apply w db) = view db)
    (other : ∀ w ∈ ws, w.table ≠ t) : view (applyAll ws db) = view db :=
  applyAll_same view db fun w mem db => step w db (other w mem)

theorem cursors_same (other : ∀ w ∈ ws, w.table ≠ .cursors) :
    (applyAll ws db).cursors = db.cursors :=
  untouched Db.cursors (fun w db name => by cases w <;> first | rfl | exact absurd rfl name) other

theorem componentLeases_same (other : ∀ w ∈ ws, w.table ≠ .componentLeases) :
    (applyAll ws db).componentLeases = db.componentLeases :=
  untouched Db.componentLeases
    (fun w db name => by cases w <;> first | rfl | exact absurd rfl name) other

theorem catalog_same (other : ∀ w ∈ ws, w.table ≠ .catalog) :
    (applyAll ws db).catalog = db.catalog :=
  untouched Db.catalog (fun w db name => by cases w <;> first | rfl | exact absurd rfl name) other

theorem intents_same (other : ∀ w ∈ ws, w.table ≠ .intents) :
    (applyAll ws db).intents = db.intents :=
  untouched Db.intents (fun w db name => by cases w <;> first | rfl | exact absurd rfl name) other

theorem quotes_same (other : ∀ w ∈ ws, w.table ≠ .quotes) : (applyAll ws db).quotes = db.quotes :=
  untouched Db.quotes (fun w db name => by cases w <;> first | rfl | exact absurd rfl name) other

theorem attempts_same (other : ∀ w ∈ ws, w.table ≠ .attempts) :
    (applyAll ws db).attempts = db.attempts :=
  untouched Db.attempts (fun w db name => by cases w <;> first | rfl | exact absurd rfl name) other

theorem leases_same (other : ∀ w ∈ ws, w.table ≠ .leases) : (applyAll ws db).leases = db.leases :=
  untouched Db.leases (fun w db name => by cases w <;> first | rfl | exact absurd rfl name) other

theorem transfers_same (other : ∀ w ∈ ws, w.table ≠ .transfers) :
    (applyAll ws db).transfers = db.transfers :=
  untouched Db.transfers (fun w db name => by cases w <;> first | rfl | exact absurd rfl name) other

theorem transferStates_same (other : ∀ w ∈ ws, w.table ≠ .transferStates) :
    (applyAll ws db).transferStates = db.transferStates :=
  untouched Db.transferStates
    (fun w db name => by cases w <;> first | rfl | exact absurd rfl name) other

theorem processing_same (other : ∀ w ∈ ws, w.table ≠ .processing) :
    (applyAll ws db).processing = db.processing :=
  untouched Db.processing
    (fun w db name => by cases w <;> first | rfl | exact absurd rfl name) other

theorem observations_same (other : ∀ w ∈ ws, w.table ≠ .observations) :
    (applyAll ws db).observations = db.observations :=
  untouched Db.observations
    (fun w db name => by cases w <;> first | rfl | exact absurd rfl name) other

theorem attestations_same (other : ∀ w ∈ ws, w.table ≠ .attestations) :
    (applyAll ws db).attestations = db.attestations :=
  untouched Db.attestations
    (fun w db name => by cases w <;> first | rfl | exact absurd rfl name) other

theorem claims_same (other : ∀ w ∈ ws, w.table ≠ .claims) : (applyAll ws db).claims = db.claims :=
  untouched Db.claims (fun w db name => by cases w <;> first | rfl | exact absurd rfl name) other

theorem allocations_same (other : ∀ w ∈ ws, w.table ≠ .allocations) :
    (applyAll ws db).allocations = db.allocations :=
  untouched Db.allocations
    (fun w db name => by cases w <;> first | rfl | exact absurd rfl name) other

theorem decisions_same (other : ∀ w ∈ ws, w.table ≠ .decisions) :
    (applyAll ws db).decisions = db.decisions :=
  untouched Db.decisions (fun w db name => by cases w <;> first | rfl | exact absurd rfl name) other

theorem fulfillments_same (other : ∀ w ∈ ws, w.table ≠ .fulfillments) :
    (applyAll ws db).fulfillments = db.fulfillments :=
  untouched Db.fulfillments
    (fun w db name => by cases w <;> first | rfl | exact absurd rfl name) other

theorem events_same (other : ∀ w ∈ ws, w.table ≠ .events) : (applyAll ws db).events = db.events :=
  untouched Db.events (fun w db name => by cases w <;> first | rfl | exact absurd rfl name) other

theorem resolutions_same (other : ∀ w ∈ ws, w.table ≠ .resolutions) :
    (applyAll ws db).resolutions = db.resolutions :=
  untouched Db.resolutions
    (fun w db name => by cases w <;> first | rfl | exact absurd rfl name) other

theorem proposals_same (other : ∀ w ∈ ws, w.table ≠ .proposals) :
    (applyAll ws db).proposals = db.proposals :=
  untouched Db.proposals (fun w db name => by cases w <;> first | rfl | exact absurd rfl name) other

end Untouched

section Inserted

theorem quotes_inserts : Inserts Db.quotes Write.insertQuote := by
  intro w db
  cases w with
  | insertQuote k row => exact .inr ⟨k, row, rfl, rfl⟩
  | _ => exact .inl rfl

theorem transfers_inserts : Inserts Db.transfers Write.insertTransfer := by
  intro w db
  cases w with
  | insertTransfer k row => exact .inr ⟨k, row, rfl, rfl⟩
  | _ => exact .inl rfl

theorem leaseHistory_inserts : Inserts Db.leaseHistory Write.insertLeaseHistory := by
  intro w db
  cases w with
  | insertLeaseHistory k row => exact .inr ⟨k, row, rfl, rfl⟩
  | _ => exact .inl rfl

theorem claims_inserts : Inserts Db.claims Write.insertClaim := by
  intro w db
  cases w with
  | insertClaim k row => exact .inr ⟨k, row, rfl, rfl⟩
  | _ => exact .inl rfl

theorem fulfillments_inserts : Inserts Db.fulfillments Write.insertFulfillment := by
  intro w db
  cases w with
  | insertFulfillment k row => exact .inr ⟨k, row, rfl, rfl⟩
  | _ => exact .inl rfl

theorem events_inserts : Inserts Db.events Write.insertEvent := by
  intro w db
  cases w with
  | insertEvent k row => exact .inr ⟨k, row, rfl, rfl⟩
  | _ => exact .inl rfl

theorem riskEvaluations_inserts : Inserts Db.riskEvaluations Write.insertRiskEvaluation := by
  intro w db
  cases w with
  | insertRiskEvaluation k row => exact .inr ⟨k, row, rfl, rfl⟩
  | _ => exact .inl rfl

theorem attestations_inserts : Inserts Db.attestations Write.insertAttestation := by
  intro w db
  cases w with
  | insertAttestation k row => exact .inr ⟨k, row, rfl, rfl⟩
  | _ => exact .inl rfl

theorem resolutions_inserts :
    Inserts Db.resolutions fun k row => Write.insertResolution k.1 k.2 row := by
  intro w db
  cases w with
  | insertResolution operator key row => exact .inr ⟨(operator, key), row, rfl, rfl⟩
  | _ => exact .inl rfl

theorem idempotency_inserts :
    Inserts Db.idempotency fun k row => Write.insertIdempotency k.1 k.2.1 k.2.2 row := by
  intro w db
  cases w with
  | insertIdempotency merchant route key row =>
    exact .inr ⟨(merchant, route, key), row, rfl, rfl⟩
  | _ => exact .inl rfl

theorem resolutions_guarded (operator : Id) (key : Text) :
    Guarded (fun db : Db => db.resolutions.row (operator, key)) (.resolutionScope operator key) :=
  resolutions_inserts.guarded (fun k => .resolutionScope k.1 k.2)
    (fun _ _ => by simp [Store.needs]) _

theorem idempotency_guarded (merchantId : Id) (route : Route) (key : Text) :
    Guarded (fun db : Db => db.idempotency.row (merchantId, route, key))
      (.idempotency merchantId route key) :=
  idempotency_inserts.guarded (fun k => .idempotency k.1 k.2.1 k.2.2)
    (fun _ _ => by simp [Store.needs]) _

theorem quotes_guarded (id : Id) : Guarded (fun db : Db => db.quotes.row id) (.quote id) :=
  quotes_inserts.guarded .quote (fun _ _ => by simp [Store.needs]) id

theorem transfers_guarded (id : Id) : Guarded (fun db : Db => db.transfers.row id) (.transfer id) :=
  transfers_inserts.guarded .transfer (fun _ _ => by simp [Store.needs]) id

theorem leaseHistory_guarded (id : Id) : Guarded (fun db : Db => db.leaseHistory.row id)
    (.leaseHistory id) :=
  leaseHistory_inserts.guarded .leaseHistory (fun _ _ => by simp [Store.needs]) id

theorem fulfillments_guarded (id : Id) : Guarded (fun db : Db => db.fulfillments.row id)
    (.fulfillment id) :=
  fulfillments_inserts.guarded .fulfillment (fun _ _ => by simp [Store.needs]) id

theorem events_guarded (id : Id) : Guarded (fun db : Db => db.events.row id) (.event id) :=
  events_inserts.guarded .event (fun _ _ => by simp [Store.needs]) id

theorem riskEvaluations_guarded (id : Id) : Guarded (fun db : Db => db.riskEvaluations.row id)
    (.riskEvaluation id) :=
  riskEvaluations_inserts.guarded .riskEvaluation (fun _ _ => by simp [Store.needs]) id

end Inserted
section Immutable

def Db.intentTerms (id : Id) (db : Db) : Option IntentTerms :=
  (db.intents.row id).map (·.toIntentTerms)

def Db.attemptTerms (id : Id) (db : Db) : Option AttemptTerms :=
  (db.attempts.row id).map (·.toAttemptTerms)

def Db.collectorAsset (id : Id) (db : Db) : Option Id := (db.collectors.row id).map (·.assetId)

def Db.proposalTerms (id : Id) (db : Db) : Option ProposalTerms :=
  (db.proposals.row id).map (·.toProposalTerms)

theorem map_row_insert {κ ρ τ : Type} [DecidableEq κ] {g : ρ → τ} {t : Table κ ρ} {j : κ} {v : τ}
    (stored : (t.row j).map g = some v) (k : κ) (r : ρ) :
    ((t.insert k r).row j).map g = some v := by
  obtain ⟨old, found, rfl⟩ := Option.map_eq_some_iff.mp stored
  rw [Table.row_insert_stored found]; rfl

theorem intentTerms_persists (id : Id) : Persists (Db.intentTerms id) := by
  intro w db v stored
  cases w with
  | insertIntent k row => exact map_row_insert stored k row
  | setIntentStatus k status =>
    exact (Table.map_row_modify ({ · with status }) (fun _ => rfl) _ k id).trans stored
  | _ => exact stored

theorem attemptTerms_persists (id : Id) : Persists (Db.attemptTerms id) := by
  intro w db v stored
  cases w with
  | insertAttempt k row => exact map_row_insert stored k row
  | setAttemptStatus k status =>
    exact (Table.map_row_modify ({ · with status }) (fun _ => rfl) _ k id).trans stored
  | _ => exact stored

theorem collectorAsset_persists (id : Id) : Persists (Db.collectorAsset id) := by
  intro w db v stored
  cases w with
  | insertCollector k row => exact map_row_insert stored k row
  | setCollectorState k state =>
    exact (Table.map_row_modify ({ · with state }) (fun _ => rfl) _ k id).trans stored
  | _ => exact stored

def Db.observationTerms (id : Id) (db : Db) : Option ObservationTerms :=
  (db.observations.row id).map (·.toObservationTerms)

theorem observationTerms_persists (id : Id) : Persists (Db.observationTerms id) := by
  intro w db v stored
  cases w with
  | insertObservation k row => exact map_row_insert stored k _
  | purgeObservation k =>
    exact (Table.map_row_modify ({ · with purged := true }) (fun _ => rfl) _ k id).trans stored
  | _ => exact stored

theorem proposalTerms_persists (id : Id) : Persists (Db.proposalTerms id) := by
  intro w db v stored
  cases w with
  | insertProposal k row => exact map_row_insert stored k row
  | setProposalDecision k decision =>
    exact (Table.map_row_modify ({ · with toProposalDecision := decision }) (fun _ => rfl) _ k
      id).trans stored
  | _ => exact stored

theorem hasState_persists (id : Id) :
    Persists fun db : Db => (db.transferStates.row id).map fun _ => () := by
  intro w db v held
  cases w with
  | insertTransferState k row => exact map_row_insert held k row
  | setTransferState k row =>
    exact (Table.map_row_modify (fun _ : StateRow => row) (fun _ => rfl) _ k id).trans held
  | _ => exact held

theorem allocated_persists (key : Id × Id) :
    Persists fun db : Db => (db.allocations.row key).map fun _ => () := by
  intro w db v held
  cases w with
  | insertAllocation a t row => exact map_row_insert held (a, t) row
  | setAllocationActor a t by_ =>
    exact (Table.map_row_modify (fun row : AllocationRow =>
      { row with allocatedBy := by_, reason := .manual }) (fun _ => rfl) _ (a, t) key).trans held
  | _ => exact held

theorem decided_persists (key : Id × Id) :
    Persists fun db : Db => (db.decisions.row key).map fun _ => () := by
  intro w db v held
  cases w with
  | insertDecision i t row => exact map_row_insert held (i, t) row
  | setDecisionResult i t result =>
    exact (Table.map_row_modify (fun row : DecisionRow => { row with toDecisionResult := result })
      (fun _ => rfl) _ (i, t) key).trans held
  | setDecisionActor i t by_ reason =>
    exact (Table.map_row_modify (fun row : DecisionRow =>
      { row with decidedBy := by_, decidedReason := reason }) (fun _ => rfl) _ (i, t)
      key).trans held
  | _ => exact held

end Immutable
section Locked

/-- A write to the row `k` alone needs the lock of that row. -/
theorem kept_or_locked {κ : Type} {k j : κ} {kept : Prop} {w : Write} {lock : κ → Row}
    (or : kept ∨ k = j) (needs : (lock k, .noKeyUpdate) ∈ Store.needs Db w ∨
      (lock k, .update) ∈ Store.needs Db w) :
    kept ∨ (lock j, .noKeyUpdate) ∈ Store.needs Db w ∨ (lock j, .update) ∈ Store.needs Db w :=
  or.imp_right fun (same : k = j) => same ▸ needs

theorem intents_guarded (id : Id) : Guarded (fun db : Db => db.intents.row id) (.intent id) := by
  intro w db
  cases w with
  | insertIntent k row =>
    exact kept_or_locked (Table.row_insert_or ..) (by simp [Store.needs, Write.needs])
  | setIntentStatus k status =>
    exact kept_or_locked (Table.row_modify_or ..) (by simp [Store.needs, Write.needs])
  | _ => exact .inl rfl

theorem attempts_guarded (id : Id) : Guarded (fun db : Db => db.attempts.row id) (.attempt id) := by
  intro w db
  cases w with
  | insertAttempt k row =>
    exact kept_or_locked (Table.row_insert_or ..) (by simp [Store.needs, Write.needs])
  | setAttemptStatus k status =>
    exact kept_or_locked (Table.row_modify_or ..) (by simp [Store.needs, Write.needs])
  | _ => exact .inl rfl

theorem leases_guarded (id : Id) : Guarded (fun db : Db => db.leases.row id) (.lease id) := by
  intro w db
  cases w with
  | insertLease k row =>
    exact kept_or_locked (Table.row_insert_or ..) (by simp [Store.needs, Write.needs])
  | deleteLease k =>
    exact kept_or_locked (Table.row_erase_or ..) (by simp [Store.needs, Write.needs])
  | _ => exact .inl rfl

theorem transferStates_guarded (id : Id) : Guarded (fun db : Db => db.transferStates.row id)
    (.transferState id) := by
  intro w db
  cases w with
  | insertTransferState k row =>
    exact kept_or_locked (Table.row_insert_or ..) (by simp [Store.needs, Write.needs])
  | setTransferState k row =>
    exact kept_or_locked (Table.row_modify_or ..) (by simp [Store.needs, Write.needs])
  | _ => exact .inl rfl

theorem processing_guarded (id : Id) : Guarded (fun db : Db => db.processing.row id)
    (.processing id) := by
  intro w db
  cases w with
  | insertProcessing k row =>
    exact kept_or_locked (Table.row_insert_or ..) (by simp [Store.needs, Write.needs])
  | setProcessing k row =>
    exact kept_or_locked (Table.row_modify_or ..) (by simp [Store.needs, Write.needs])
  | _ => exact .inl rfl

theorem proposals_guarded (id : Id) : Guarded (fun db : Db => db.proposals.row id)
    (.proposal id) := by
  intro w db
  cases w with
  | insertProposal k row =>
    exact kept_or_locked (Table.row_insert_or ..) (by simp [Store.needs, Write.needs])
  | setProposalDecision k decision =>
    exact kept_or_locked (Table.row_modify_or ..) (by simp [Store.needs, Write.needs])
  | _ => exact .inl rfl

theorem railStops_guarded (id : Id) : Guarded (fun db : Db => db.railStops.row id)
    (.railStop id) := by
  intro w db
  cases w with
  | insertRailStop k row =>
    exact kept_or_locked (Table.row_insert_or ..) (by simp [Store.needs, Write.needs])
  | clearRailStop k =>
    exact kept_or_locked (Table.row_modify_or ..) (by simp [Store.needs, Write.needs])
  | _ => exact .inl rfl

theorem decisions_guarded (intent transfer : Id) :
    Guarded (fun db : Db => db.decisions.row (intent, transfer)) (.decision intent transfer) := by
  intro w db
  cases w with
  | insertDecision i t row =>
    rcases Table.row_insert_or db.decisions (i, t) (intent, transfer) row with same | eq
    · exact .inl same
    · cases eq; simp [Store.needs, Write.needs]
  | setDecisionResult i t result =>
    rcases Table.row_modify_or db.decisions (i, t) (intent, transfer)
      fun row => { row with toDecisionResult := result } with same | eq
    · exact .inl same
    · cases eq; simp [Store.needs, Write.needs]
  | setDecisionActor i t by_ reason =>
    rcases Table.row_modify_or db.decisions (i, t) (intent, transfer)
      fun row => { row with decidedBy := by_, decidedReason := reason } with same | eq
    · exact .inl same
    · cases eq; simp [Store.needs, Write.needs]
  | _ => exact .inl rfl

theorem collectors_guarded (id : Id) :
    Guarded (fun db : Db => db.collectors.row id) (.collector id) := by
  intro w db
  cases w with
  | insertCollector k row =>
    exact kept_or_locked (Table.row_insert_or ..) (by simp [Store.needs, Write.needs])
  | setCollectorState k state =>
    exact kept_or_locked (Table.row_modify_or ..) (by simp [Store.needs, Write.needs])
  | _ => exact .inl rfl

theorem observations_guarded (id : Id) :
    Guarded (fun db : Db => db.observations.row id) (.observation id) := by
  intro w db
  cases w with
  | insertObservation k row =>
    exact kept_or_locked (Table.row_insert_or ..) (by simp [Store.needs, Write.needs])
  | purgeObservation k =>
    exact kept_or_locked (Table.row_modify_or ..) (by simp [Store.needs, Write.needs])
  | _ => exact .inl rfl

theorem componentLeases_guarded (component : Text) :
    Guarded (fun db : Db => db.componentLeases.row component) (.componentLease component) := by
  intro w db
  cases w with
  | putComponentLease k row =>
    exact kept_or_locked (Table.row_put_or ..) (by simp [Store.needs, Write.needs])
  | _ => exact .inl rfl

theorem cursors_guarded (key : CursorKey) :
    Guarded (fun db : Db => db.cursors.row key) (.cursor key) := by
  intro w db
  cases w with
  | putCursor k row =>
    exact kept_or_locked (Table.row_put_or ..) (by simp [Store.needs, Write.needs])
  | _ => exact .inl rfl

end Locked
section Origins
variable {ws : List Write} {db : Db}

theorem map_row_insert_cases {κ ρ τ : Type} [DecidableEq κ] {g : ρ → τ} {t : Table κ ρ} {j k : κ}
    {r : ρ} {v : τ} (after : ((t.insert k r).row j).map g = some v) :
    (t.row j).map g = some v ∨ (j = k ∧ g r = v) := by
  obtain ⟨found, row, rfl⟩ := Option.map_eq_some_iff.mp after
  rcases Table.row_insert_cases row with old | ⟨_, rfl, rfl⟩
  · exact .inl (by rw [old]; rfl)
  · exact .inr ⟨rfl, rfl⟩

theorem attemptTerms_origin {a : Id} {terms : AttemptTerms}
    (after : (applyAll ws db).attemptTerms a = some terms) : db.attemptTerms a = some terms ∨
      ∃ row, .insertAttempt a row ∈ ws ∧ row.toAttemptTerms = terms := by
  have each : ∀ (w : Write) (db : Db), (Store.apply w db).attemptTerms a = some terms →
      db.attemptTerms a = some terms ∨
        ∃ row : AttemptRow, w = .insertAttempt a row ∧ row.toAttemptTerms = terms := by
    intro w db put
    cases w with
    | insertAttempt k row =>
      exact (map_row_insert_cases put).imp_right fun ⟨same, eq⟩ => ⟨row, by rw [same], eq⟩
    | setAttemptStatus k status =>
      refine .inl (Eq.trans ?_ put)
      exact (Table.map_row_modify (fun row : AttemptRow => { row with status })
        (fun _ => rfl) _ k a).symm
    | _ => exact .inl put
  rcases applyAll_origin (Db.attemptTerms a) (fun w _ => each w) after with old |
    ⟨_, mem, row, rfl, eq⟩
  · exact .inl old
  · exact .inr ⟨row, mem, eq⟩

theorem attemptStatus_origin {a : Id} {status : AttemptStatus}
    (after : ((applyAll ws db).attempts.row a).map (·.status) = some status) :
    (db.attempts.row a).map (·.status) = some status ∨ .setAttemptStatus a status ∈ ws ∨
      ∃ row, .insertAttempt a row ∈ ws ∧ row.status = status := by
  have each : ∀ (w : Write) (db : Db),
      ((Store.apply w db).attempts.row a).map (·.status) = some status →
      (db.attempts.row a).map (·.status) = some status ∨ (w = .setAttemptStatus a status ∨
        ∃ row : AttemptRow, w = .insertAttempt a row ∧ row.status = status) := by
    intro w db put
    cases w with
    | insertAttempt k row =>
      exact (map_row_insert_cases put).imp_right fun ⟨same, eq⟩ => .inr ⟨row, by rw [same], eq⟩
    | setAttemptStatus k new =>
      rcases Table.row_modify_or db.attempts k a ({ · with status := new }) with same | rfl
      · exact .inl ((congrArg _ same).symm.trans put)
      · simp only [apply_attempts, Write.attempts, Table.row_modify_self, Option.map_map,
          Option.map_eq_some_iff, Function.comp_apply] at put
        obtain ⟨_, _, rfl⟩ := put
        exact .inr (.inl rfl)
    | _ => exact .inl put
  rcases applyAll_origin (fun db : Db => (db.attempts.row a).map (·.status)) (fun w _ => each w)
    after with old | ⟨_, mem, rfl | ⟨row, rfl, eq⟩⟩
  · exact .inl old
  · exact .inr (.inl mem)
  · exact .inr (.inr ⟨row, mem, eq⟩)

theorem intentStatus_origin {i : Id} {status : PaymentIntentStatus}
    (after : ((applyAll ws db).intents.row i).map (·.status) = some status) :
    (db.intents.row i).map (·.status) = some status ∨ .setIntentStatus i status ∈ ws ∨
      ∃ row, .insertIntent i row ∈ ws ∧ row.status = status := by
  have each : ∀ (w : Write) (db : Db),
      ((Store.apply w db).intents.row i).map (·.status) = some status →
      (db.intents.row i).map (·.status) = some status ∨ (w = .setIntentStatus i status ∨
        ∃ row : IntentRow, w = .insertIntent i row ∧ row.status = status) := by
    intro w db put
    cases w with
    | insertIntent k row =>
      exact (map_row_insert_cases put).imp_right fun ⟨same, eq⟩ => .inr ⟨row, by rw [same], eq⟩
    | setIntentStatus k new =>
      rcases Table.row_modify_or db.intents k i ({ · with status := new }) with same | rfl
      · exact .inl ((congrArg _ same).symm.trans put)
      · simp only [apply_intents, Write.intents, Table.row_modify_self, Option.map_map,
          Option.map_eq_some_iff, Function.comp_apply] at put
        obtain ⟨_, _, rfl⟩ := put
        exact .inr (.inl rfl)
    | _ => exact .inl put
  rcases applyAll_origin (fun db : Db => (db.intents.row i).map (·.status)) (fun w _ => each w)
    after with old | ⟨_, mem, rfl | ⟨row, rfl, eq⟩⟩
  · exact .inl old
  · exact .inr (.inl mem)
  · exact .inr (.inr ⟨row, mem, eq⟩)

variable {id : Id}

theorem leases_origin {row : LeaseRow} (after : (applyAll ws db).leases.row id = some row) :
    db.leases.row id = some row ∨ .insertLease id row ∈ ws := by
  have each : ∀ (w : Write) (db : Db), (Store.apply w db).leases.row id = some row →
      db.leases.row id = some row ∨ w = .insertLease id row := by
    intro w db put
    cases w with
    | insertLease k new =>
      exact (Table.row_insert_cases put).imp_right fun ⟨_, same, eq⟩ => by rw [same, eq]
    | deleteLease k =>
      simp only [apply_leases, Write.leases, Table.row_erase] at put
      split at put
      · cases put
      · exact .inl put
    | _ => exact .inl put
  simpa using applyAll_origin (fun db : Db => db.leases.row id) (fun w _ => each w) after

theorem proposals_origin {row : ProposalRow}
    (after : (applyAll ws db).proposals.row id = some row) :
    db.proposals.row id = some row ∨ .insertProposal id row ∈ ws ∨
      .setProposalDecision id row.toProposalDecision ∈ ws := by
  have each : ∀ (w : Write) (db : Db), (Store.apply w db).proposals.row id = some row →
      db.proposals.row id = some row ∨ (w = .insertProposal id row ∨
        w = .setProposalDecision id row.toProposalDecision) := by
    intro w db put
    cases w with
    | insertProposal k new =>
      exact (Table.row_insert_cases put).imp_right fun ⟨_, same, eq⟩ => .inl (by rw [same, eq])
    | setProposalDecision k decision =>
      rcases Table.row_modify_or db.proposals k id ({ · with toProposalDecision := decision })
        with same | rfl
      · exact .inl (same.symm.trans put)
      · obtain ⟨old, _, rfl⟩ :=
          Option.map_eq_some_iff.mp ((Table.row_modify_self _ _ _).symm.trans put)
        exact .inr (.inr rfl)
    | _ => exact .inl put
  rcases applyAll_origin (fun db : Db => db.proposals.row id) (fun w _ => each w) after with
    old | ⟨_, mem, rfl | rfl⟩
  · exact .inl old
  · exact .inr (.inl mem)
  · exact .inr (.inr mem)

end Origins
end CryptoGateway
