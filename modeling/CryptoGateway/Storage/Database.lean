import CryptoGateway.Engine.Table
import CryptoGateway.Engine.Process
import CryptoGateway.Domain.Settlement
import CryptoGateway.Domain.Quote
import CryptoGateway.Domain.Verification

/-!
The gateway's tables, its row writes and the locks each write takes. A row is split where the
schema keeps columns immutable: no write names the terms after the insert.
-/
namespace CryptoGateway
open Engine

structure ManualResolution where
  action : ManualResolutionAction
  transferId : Id
  paymentIntentId : Option Id
  attemptId : Option Id
  allocateRaw : Option Nat
  remainderRaw : Option Nat
  disposition : Option RemainderDisposition
  externalReference : Option Text
  reason : Text
deriving DecidableEq, Repr

/-- A request hash, by the fields that are digested. -/
inductive Digest where
  | create (amountMinor currency reference : Text) (description : Option Text) (metadata : Text)
  | quote (paymentIntentId assetId : Id)
  | cancel (paymentIntentId : Id) (reason : Option Text)
  | resolution (action : ManualResolutionAction) (transferId : Id)
      (paymentIntentId attemptId : Option Id) (allocateRaw remainderRaw : Option Nat)
      (disposition : Option RemainderDisposition) (externalReference reason : Text)
deriving DecidableEq, Repr

inductive Route where
  | create | quote | cancel
deriving DecidableEq, Repr

structure IntentTerms where
  merchantId : Id
  amountMinor : Int
  currency : CurrencyCode
  reference : Text
deriving DecidableEq, Repr

structure IntentRow extends IntentTerms where
  status : PaymentIntentStatus
deriving DecidableEq, Repr

structure QuoteRow where
  plan : QuotePlan
  amountRaw : Nat
deriving DecidableEq, Repr

structure AttemptTerms where
  merchantId : Id
  paymentIntentId : Id
  quoteId : Id
  collectorAddressId : Id
  expectedAmountRaw : Nat
  memoReference : Option Memo
  quoteExpiresAt : Int
  latePaymentUntil : Int
  createdAt : Int
deriving DecidableEq, Repr

structure AttemptRow extends AttemptTerms where
  status : AttemptStatus
deriving DecidableEq, Repr

structure LeaseRow where
  collectorAddressId : Id
  amountRaw : Nat
  attemptId : Id
  leasedFrom : Int
  leaseUntil : Int
deriving DecidableEq, Repr

structure LeaseHistoryRow where
  collectorAddressId : Id
  amountRaw : Nat
  attemptId : Id
  leasedFrom : Int
  leasedUntil : Int
  releasedAt : Int
deriving DecidableEq, Repr

structure TransferRow where
  event : ChainEventKey
  assetId : Id
  collectorAddressId : Id
  blockNumber : Int
  blockHash : Text
  blockTime : Int
  tokenKey : AddressKey
  toAddress : AddressKey
  amountRaw : Nat
  memo : Option Memo
deriving DecidableEq, Repr

structure StateRow where
  state : TransferState
  stateVersion : Nat
deriving DecidableEq, Repr

structure StateEventRow where
  previousState : Option TransferState
  newState : TransferState
deriving DecidableEq, Repr

inductive ProcessingState where
  | pending | matched | settled | unmatched | held | resolved
deriving DecidableEq, Repr

structure ProcessingRow where
  processingState : ProcessingState
  allocatedRaw : Nat
  lastError : Option Text
deriving DecidableEq, Repr

structure ClaimRow where
  paymentIntentId : Id
  attemptId : Id
  merchantId : Id
  matchStrategy : MatchStrategy
  collectorAddressId : Id
deriving DecidableEq, Repr

inductive AllocationReason where
  | exact | partialPay | overpayRemainder | manual
deriving DecidableEq, Repr

structure AllocationRow where
  paymentIntentId : Id
  merchantId : Id
  allocatedRaw : Nat
  allocatedBy : Text
  reason : AllocationReason
  collectorAddressId : Id
deriving DecidableEq, Repr

inductive DecisionOutcome where
  | settled | partialPay | overpaid | held | manualRequired | rejected
deriving DecidableEq, Repr

/-- The columns that a later decision about the same money replaces. -/
structure DecisionResult where
  outcome : DecisionOutcome
  decidedReason : Text
  allocatedRaw : Nat
  remainderRaw : Nat
  decidedAt : Int
deriving DecidableEq, Repr

structure DecisionRow extends DecisionResult where
  attemptId : Id
  merchantId : Id
  fiatAmountMinor : Int
  matchStrategy : MatchStrategy
  decidedBy : Text
deriving DecidableEq, Repr

inductive FulfillmentStatus where
  | claimed | succeeded | failed | manualReview
deriving DecidableEq, Repr

structure FulfillmentRow where
  merchantId : Id
  status : FulfillmentStatus
  claimedAt : Int
deriving DecidableEq, Repr

inductive EventType where
  | paymentIntentPaid | paymentIntentPartiallyPaid | paymentIntentCancelled | overpaid
  | ambiguousMatch | unmatchedInbound
deriving DecidableEq, Repr

structure EventRow where
  merchantId : Option Id
  eventType : EventType
  aggregateId : Id
deriving DecidableEq, Repr

structure ResolutionRow where
  id : Id
  requestHash : Digest
  action : ManualResolutionAction
  transferId : Id
  paymentIntentId : Option Id
  attemptId : Option Id
  merchantId : Option Id
  allocatedRaw : Option Nat
  remainderRaw : Option Nat
  disposition : Option RemainderDisposition
  externalReference : Option Text
  reason : Text
  actorLabel : Text
  createdAt : Int
deriving DecidableEq, Repr

structure DispositionRow where
  resolutionId : Id
  merchantId : Id
  remainderRaw : Nat
  disposition : RemainderDisposition
  externalReference : Option Text
  recordedBy : Id
  reason : Text
deriving DecidableEq, Repr

inductive ProposalStatus where
  | pending | approved | rejected | expired
deriving DecidableEq, Repr

structure ProposalTerms where
  proposerKeyId : Id
  proposerLabel : Text
  idempotencyKey : Text
  requestHash : Digest
  transferId : Id
  paymentIntentId : Id
  attemptId : Id
  merchantId : Id
  allocateRaw : Nat
  thresholdRaw : Nat
  reason : Text
  createdAt : Int
  expiresAt : Int
deriving DecidableEq, Repr

structure ProposalDecision where
  status : ProposalStatus
  decidedByKeyId : Option Id := none
  decidedByLabel : Option Text := none
  decisionIdempotencyKey : Option Text := none
  decisionReason : Option Text := none
  decidedAt : Option Int := none
  resolutionId : Option Id := none
deriving DecidableEq, Repr

structure ProposalRow extends ProposalTerms, ProposalDecision
deriving DecidableEq, Repr

structure RailStopRow where
  assetId : Id
  reasonCode : Text
  openedBy : Text
  cleared : Bool
deriving DecidableEq, Repr

structure IdempotencyRow where
  requestHash : Digest
  resourceId : Id
deriving DecidableEq, Repr

structure ComponentLeaseRow where
  holder : Text
  fenceToken : Nat
  leaseUntil : Int
deriving DecidableEq, Repr

inductive CollectorState where
  | active | receivingOnly | retired
deriving DecidableEq, Repr

inductive CollectorPolicy where
  | own | shared
deriving DecidableEq, Repr

structure CollectorRow where
  assetId : Id
  addressKey : AddressKey
  addressText : Text
  validFrom : Int
  merchantId : Option Id
  state : CollectorState
deriving DecidableEq, Repr

structure RiskRow where
  transferId : Id
  provider : Text
  decision : RiskDecision
  evaluatedAt : Int
deriving DecidableEq, Repr

structure AttestationRow where
  transferId : Id
  providerGroup : Text
  ownNode : Bool
deriving DecidableEq, Repr

structure ObservationTerms where
  sourceId : Id
  sourcePrincipal : Text
  assetId : Option Id
  collectorAddressId : Option Id
  kind : ObservationKind
  transfer : ObservedTransfer
  observedAt : Int
deriving DecidableEq, Repr

/-- A deleted reading stays behind as `purged`, so that its id is not used again. -/
structure ObservationRow extends ObservationTerms where
  purged : Bool := false
deriving DecidableEq, Repr

inductive CursorKind where
  | block | logicalTime | eventPosition
deriving DecidableEq, Repr

def CursorKind.isNumeric : CursorKind → Bool
  | .block => true
  | .logicalTime => true
  | .eventPosition => false

/-- Where a lane resumes reading, and under which fence token that was written. -/
structure CursorRow where
  kind : CursorKind
  value : Text
  lastBlockHash : Option Text
  fenceToken : Nat
deriving DecidableEq, Repr

/-- Source, kind of observation and collector. -/
abbrev CursorKey := Id × ObservationKind × Id

inductive VerdictKind where
  | verified | conflicted | insufficient | rejected
deriving DecidableEq, Repr

structure VerdictRow where
  verdict : VerdictKind
  reason : Text
  transferId : Option Id
  decidedAt : Int
deriving DecidableEq, Repr

structure AssetRow where
  active : Bool
  chain : Text
  network : Text
  chainEnvironment : Text
  contractAddressKey : AddressKey
deriving DecidableEq, Repr

structure SourceRow where
  chain : Text
  network : Text
  chainEnvironment : Text
  providerGroup : Text
  kind : SourceKind
  dbPrincipal : Text
deriving DecidableEq, Repr

/-- A finality policy with the chain it is for and whether it is active. -/
structure FinalityPolicyRow where
  chain : Text
  network : Text
  chainEnvironment : Text
  active : Bool
  policy : FinalityPolicy
deriving DecidableEq, Repr

/-- The tables that operators, price feeds and policy files write: merchants,
    assets, prices, policies, rail health, chain sources and the providers an
    operator key may submit for. Any later content may replace them at any time. -/
structure Catalog where
  merchants : Id → Option CollectorPolicy := fun _ => none
  assets : Id → Option AssetRow := fun _ => none
  prices : List (Id × CurrencyCode × PriceSnapshot) := []
  quotePolicies : List (Id × CurrencyCode × Bool × QuotePolicySnapshot) := []
  railHealth : List (Id × RailHealthSnapshot) := []
  settlementPolicies : List (CurrencyCode × Bool × Id × Text) := []
  tiers : Id → List SettlementTier := fun _ => []
  sources : Id → Option SourceRow := fun _ => none
  finalityPolicies : List FinalityPolicyRow := []
  riskProviders : Id → Text → Bool := fun _ _ => false

structure Db where
  catalog : Catalog := {}
  intents : Table Id IntentRow := .empty
  quotes : Table Id QuoteRow := .empty
  attempts : Table Id AttemptRow := .empty
  leases : Table Id LeaseRow := .empty
  leaseHistory : Table Id LeaseHistoryRow := .empty
  collectors : Table Id CollectorRow := .empty
  transfers : Table Id TransferRow := .empty
  transferStates : Table Id StateRow := .empty
  stateEvents : Table (Id × Nat) StateEventRow := .empty
  processing : Table Id ProcessingRow := .empty
  observations : Table Id ObservationRow := .empty
  verdicts : Table ChainEventKey VerdictRow := .empty
  attestations : Table Id AttestationRow := .empty
  riskEvaluations : Table Id RiskRow := .empty
  claims : Table Id ClaimRow := .empty
  allocations : Table (Id × Id) AllocationRow := .empty
  decisions : Table (Id × Id) DecisionRow := .empty
  fulfillments : Table Id FulfillmentRow := .empty
  events : Table Id EventRow := .empty
  resolutions : Table (Id × Text) ResolutionRow := .empty
  dispositions : Table (Id × Id) DispositionRow := .empty
  proposals : Table Id ProposalRow := .empty
  railStops : Table Id RailStopRow := .empty
  idempotency : Table (Id × Route × Text) IdempotencyRow := .empty
  componentLeases : Table Text ComponentLeaseRow := .empty
  cursors : Table CursorKey CursorRow := .empty

/-- A lockable row, unique-index entry or advisory scope. -/
inductive Row where
  | intent (id : Id) | intentReference (merchantId : Id) (reference : Text)
  | quote (id : Id)
  | attempt (id : Id) | liveAttempt (paymentIntentId : Id)
  | lease (id : Id) | leaseSlot (collectorAddressId : Id) (amountRaw : Nat)
  | leaseAttempt (attemptId : Id) | leaseHistory (leaseId : Id)
  | collector (id : Id)
  | transfer (id : Id) | chainEvent (event : ChainEventKey)
  | transferState (transferId : Id) | stateEvent (transferId : Id) (stateVersion : Nat)
  | processing (transferId : Id)
  | observation (id : Id) | observationHash (hash : SemanticHash)
  | verdict (event : ChainEventKey)
  | attestation (observationId : Id)
  | riskEvaluation (id : Id) | riskSubmission (transferId : Id) (provider : Text)
    (evaluatedAt : Int)
  | claim (transferId : Id)
  | allocation (attemptId transferId : Id)
  | decision (paymentIntentId transferId : Id)
  | fulfillment (paymentIntentId : Id)
  | event (id : Id)
  | resolution (operatorKeyId : Id) (idempotencyKey : Text) | resolutionId (id : Id)
  | resolutionScope (operatorKeyId : Id) (idempotencyKey : Text)
  | disposition (transferId paymentIntentId : Id)
  | proposal (id : Id) | pendingProposal (transferId : Id)
  | proposalKey (proposerKeyId : Id) (idempotencyKey : Text)
  | proposalScope (proposerKeyId : Id) (idempotencyKey : Text)
  | railStop (id : Id) | openRailStop (assetId : Id)
  | idempotency (merchantId : Id) (route : Route) (idempotencyKey : Text)
  | componentLease (component : Text)
  | cursor (key : CursorKey)
  | catalog
deriving DecidableEq, Repr

inductive Write where
  | setCatalog (catalog : Catalog)
  | insertCollector (id : Id) (row : CollectorRow)
  | setCollectorState (id : Id) (state : CollectorState)
  | insertIntent (id : Id) (row : IntentRow)
  | setIntentStatus (id : Id) (status : PaymentIntentStatus)
  | insertQuote (id : Id) (row : QuoteRow)
  | insertAttempt (id : Id) (row : AttemptRow)
  | setAttemptStatus (id : Id) (status : AttemptStatus)
  | insertLease (id : Id) (row : LeaseRow)
  | deleteLease (id : Id)
  | insertLeaseHistory (leaseId : Id) (row : LeaseHistoryRow)
  | insertTransfer (id : Id) (row : TransferRow)
  | insertTransferState (transferId : Id) (row : StateRow)
  | setTransferState (transferId : Id) (row : StateRow)
  | insertStateEvent (transferId : Id) (stateVersion : Nat) (row : StateEventRow)
  | insertProcessing (transferId : Id) (row : ProcessingRow)
  | setProcessing (transferId : Id) (row : ProcessingRow)
  | insertObservation (id : Id) (row : ObservationTerms)
  | purgeObservation (id : Id)
  | putVerdict (event : ChainEventKey) (row : VerdictRow)
  | insertAttestation (observationId : Id) (row : AttestationRow)
  | insertRiskEvaluation (id : Id) (row : RiskRow)
  | insertClaim (transferId : Id) (row : ClaimRow)
  | insertAllocation (attemptId transferId : Id) (row : AllocationRow)
  | setAllocationActor (attemptId transferId : Id) (allocatedBy : Text)
  | insertDecision (paymentIntentId transferId : Id) (row : DecisionRow)
  | setDecisionResult (paymentIntentId transferId : Id) (result : DecisionResult)
  | setDecisionActor (paymentIntentId transferId : Id) (decidedBy decidedReason : Text)
  | insertFulfillment (paymentIntentId : Id) (row : FulfillmentRow)
  | insertEvent (id : Id) (row : EventRow)
  | insertResolution (operatorKeyId : Id) (idempotencyKey : Text) (row : ResolutionRow)
  | insertDisposition (transferId paymentIntentId : Id) (row : DispositionRow)
  | insertProposal (id : Id) (row : ProposalRow)
  | setProposalDecision (id : Id) (decision : ProposalDecision)
  | insertRailStop (id : Id) (row : RailStopRow)
  | clearRailStop (id : Id)
  | insertIdempotency (merchantId : Id) (route : Route) (idempotencyKey : Text)
      (row : IdempotencyRow)
  | putComponentLease (component : Text) (row : ComponentLeaseRow)
  | putCursor (key : CursorKey) (row : CursorRow)

inductive TableName where
  | catalog | intents | quotes | attempts | leases | leaseHistory | collectors | transfers
  | transferStates | stateEvents | processing | observations | verdicts | attestations
  | riskEvaluations | claims | allocations | decisions | fulfillments | events | resolutions
  | dispositions | proposals | railStops | idempotency | componentLeases | cursors
deriving DecidableEq, Repr

namespace Write

def table : Write → TableName
  | .setCatalog _ => .catalog
  | .insertCollector _ _ => .collectors
  | .setCollectorState _ _ => .collectors
  | .insertIntent _ _ => .intents
  | .setIntentStatus _ _ => .intents
  | .insertQuote _ _ => .quotes
  | .insertAttempt _ _ => .attempts
  | .setAttemptStatus _ _ => .attempts
  | .insertLease _ _ => .leases
  | .deleteLease _ => .leases
  | .insertLeaseHistory _ _ => .leaseHistory
  | .insertTransfer _ _ => .transfers
  | .insertTransferState _ _ => .transferStates
  | .setTransferState _ _ => .transferStates
  | .insertStateEvent _ _ _ => .stateEvents
  | .insertProcessing _ _ => .processing
  | .setProcessing _ _ => .processing
  | .insertObservation _ _ => .observations
  | .purgeObservation _ => .observations
  | .putVerdict _ _ => .verdicts
  | .insertAttestation _ _ => .attestations
  | .insertRiskEvaluation _ _ => .riskEvaluations
  | .insertClaim _ _ => .claims
  | .insertAllocation _ _ _ => .allocations
  | .setAllocationActor _ _ _ => .allocations
  | .insertDecision _ _ _ => .decisions
  | .setDecisionResult _ _ _ => .decisions
  | .setDecisionActor _ _ _ _ => .decisions
  | .insertFulfillment _ _ => .fulfillments
  | .insertEvent _ _ => .events
  | .insertResolution _ _ _ => .resolutions
  | .insertDisposition _ _ _ => .dispositions
  | .insertProposal _ _ => .proposals
  | .setProposalDecision _ _ => .proposals
  | .insertRailStop _ _ => .railStops
  | .clearRailStop _ => .railStops
  | .insertIdempotency _ _ _ _ => .idempotency
  | .putComponentLease _ _ => .componentLeases
  | .putCursor _ _ => .cursors

def catalog : Write → Catalog → Catalog
  | .setCatalog catalog, _ => catalog
  | _, t => t

def intents : Write → Table Id IntentRow → Table Id IntentRow
  | .insertIntent id row, t => t.insert id row
  | .setIntentStatus id status, t => t.modify id ({ · with status })
  | _, t => t

def quotes : Write → Table Id QuoteRow → Table Id QuoteRow
  | .insertQuote id row, t => t.insert id row
  | _, t => t

def attempts : Write → Table Id AttemptRow → Table Id AttemptRow
  | .insertAttempt id row, t => t.insert id row
  | .setAttemptStatus id status, t => t.modify id ({ · with status })
  | _, t => t

def leases : Write → Table Id LeaseRow → Table Id LeaseRow
  | .insertLease id row, t => t.insert id row
  | .deleteLease id, t => t.erase id
  | _, t => t

def leaseHistory : Write → Table Id LeaseHistoryRow → Table Id LeaseHistoryRow
  | .insertLeaseHistory id row, t => t.insert id row
  | _, t => t

def collectors : Write → Table Id CollectorRow → Table Id CollectorRow
  | .insertCollector id row, t => t.insert id row
  | .setCollectorState id state, t => t.modify id ({ · with state })
  | _, t => t

def transfers : Write → Table Id TransferRow → Table Id TransferRow
  | .insertTransfer id row, t => t.insert id row
  | _, t => t

def transferStates : Write → Table Id StateRow → Table Id StateRow
  | .insertTransferState id row, t => t.insert id row
  | .setTransferState id row, t => t.modify id fun _ => row
  | _, t => t

def stateEvents : Write → Table (Id × Nat) StateEventRow → Table (Id × Nat) StateEventRow
  | .insertStateEvent id version row, t => t.insert (id, version) row
  | _, t => t

def processing : Write → Table Id ProcessingRow → Table Id ProcessingRow
  | .insertProcessing id row, t => t.insert id row
  | .setProcessing id row, t => t.modify id fun _ => row
  | _, t => t

def observations : Write → Table Id ObservationRow → Table Id ObservationRow
  | .insertObservation id row, t => t.insert id { toObservationTerms := row }
  | .purgeObservation id, t => t.modify id ({ · with purged := true })
  | _, t => t

def verdicts : Write → Table ChainEventKey VerdictRow → Table ChainEventKey VerdictRow
  | .putVerdict event row, t => t.put event row
  | _, t => t

def attestations : Write → Table Id AttestationRow → Table Id AttestationRow
  | .insertAttestation id row, t => t.insert id row
  | _, t => t

def riskEvaluations : Write → Table Id RiskRow → Table Id RiskRow
  | .insertRiskEvaluation id row, t => t.insert id row
  | _, t => t

def claims : Write → Table Id ClaimRow → Table Id ClaimRow
  | .insertClaim id row, t => t.insert id row
  | _, t => t

def allocations : Write → Table (Id × Id) AllocationRow → Table (Id × Id) AllocationRow
  | .insertAllocation attempt transfer row, t => t.insert (attempt, transfer) row
  | .setAllocationActor attempt transfer allocatedBy, t =>
      t.modify (attempt, transfer) fun row => { row with allocatedBy, reason := .manual }
  | _, t => t

def decisions : Write → Table (Id × Id) DecisionRow → Table (Id × Id) DecisionRow
  | .insertDecision intent transfer row, t => t.insert (intent, transfer) row
  | .setDecisionResult intent transfer result, t =>
      t.modify (intent, transfer) fun row => { row with toDecisionResult := result }
  | .setDecisionActor intent transfer decidedBy decidedReason, t =>
      t.modify (intent, transfer) fun row => { row with decidedBy, decidedReason }
  | _, t => t

def fulfillments : Write → Table Id FulfillmentRow → Table Id FulfillmentRow
  | .insertFulfillment intent row, t => t.insert intent row
  | _, t => t

def events : Write → Table Id EventRow → Table Id EventRow
  | .insertEvent id row, t => t.insert id row
  | _, t => t

def resolutions : Write → Table (Id × Text) ResolutionRow → Table (Id × Text) ResolutionRow
  | .insertResolution operator key row, t => t.insert (operator, key) row
  | _, t => t

def dispositions : Write → Table (Id × Id) DispositionRow → Table (Id × Id) DispositionRow
  | .insertDisposition transfer intent row, t => t.insert (transfer, intent) row
  | _, t => t

def proposals : Write → Table Id ProposalRow → Table Id ProposalRow
  | .insertProposal id row, t => t.insert id row
  | .setProposalDecision id decision, t =>
      t.modify id ({ · with toProposalDecision := decision })
  | _, t => t

def railStops : Write → Table Id RailStopRow → Table Id RailStopRow
  | .insertRailStop id row, t => t.insert id row
  | .clearRailStop id, t => t.modify id ({ · with cleared := true })
  | _, t => t

def idempotency : Write → Table (Id × Route × Text) IdempotencyRow →
    Table (Id × Route × Text) IdempotencyRow
  | .insertIdempotency merchant route key row, t => t.insert (merchant, route, key) row
  | _, t => t

def componentLeases : Write → Table Text ComponentLeaseRow → Table Text ComponentLeaseRow
  | .putComponentLease component row, t => t.put component row
  | _, t => t

def cursors : Write → Table CursorKey CursorRow → Table CursorKey CursorRow
  | .putCursor key row, t => t.put key row
  | _, t => t

def apply (w : Write) (db : Db) : Db where
  catalog := w.catalog db.catalog
  intents := w.intents db.intents
  quotes := w.quotes db.quotes
  attempts := w.attempts db.attempts
  leases := w.leases db.leases
  leaseHistory := w.leaseHistory db.leaseHistory
  collectors := w.collectors db.collectors
  transfers := w.transfers db.transfers
  transferStates := w.transferStates db.transferStates
  stateEvents := w.stateEvents db.stateEvents
  processing := w.processing db.processing
  observations := w.observations db.observations
  verdicts := w.verdicts db.verdicts
  attestations := w.attestations db.attestations
  riskEvaluations := w.riskEvaluations db.riskEvaluations
  claims := w.claims db.claims
  allocations := w.allocations db.allocations
  decisions := w.decisions db.decisions
  fulfillments := w.fulfillments db.fulfillments
  events := w.events db.events
  resolutions := w.resolutions db.resolutions
  dispositions := w.dispositions db.dispositions
  proposals := w.proposals db.proposals
  railStops := w.railStops db.railStops
  idempotency := w.idempotency db.idempotency
  componentLeases := w.componentLeases db.componentLeases
  cursors := w.cursors db.cursors

/-- An optional foreign key takes a lock only when it is set. -/
def reference (row : Id → Row) : Option Id → List (Lock Row)
  | none => []
  | some id => [(row id, .keyShare)]

@[simp] def needs : Write → List (Lock Row)
  | .setCatalog _ => [(.catalog, .noKeyUpdate)]
  | .insertCollector id _ => [(.collector id, .update)]
  | .setCollectorState id _ => [(.collector id, .noKeyUpdate)]
  | .insertIntent id row =>
      [(.intent id, .update), (.intentReference row.merchantId row.reference, .update)]
  | .setIntentStatus id _ => [(.intent id, .noKeyUpdate)]
  | .insertQuote id row =>
      [(.quote id, .update), (.intent row.plan.paymentIntentId, .keyShare),
        (.collector row.plan.collectorAddressId, .keyShare)]
  | .insertAttempt id row =>
      [(.attempt id, .update), (.liveAttempt row.paymentIntentId, .update),
        (.intent row.paymentIntentId, .keyShare), (.quote row.quoteId, .keyShare),
        (.collector row.collectorAddressId, .keyShare)]
  | .setAttemptStatus id _ => [(.attempt id, .noKeyUpdate)]
  | .insertLease id row =>
      [(.lease id, .update), (.leaseSlot row.collectorAddressId row.amountRaw, .update),
        (.leaseAttempt row.attemptId, .update), (.attempt row.attemptId, .keyShare),
        (.collector row.collectorAddressId, .keyShare)]
  | .deleteLease id => [(.lease id, .update)]
  | .insertLeaseHistory id row =>
      [(.leaseHistory id, .update), (.attempt row.attemptId, .keyShare),
        (.collector row.collectorAddressId, .keyShare)]
  | .insertTransfer id row =>
      [(.transfer id, .update), (.chainEvent row.event, .update),
        (.collector row.collectorAddressId, .keyShare)]
  | .insertTransferState id _ => [(.transferState id, .update), (.transfer id, .keyShare)]
  | .setTransferState id _ => [(.transferState id, .noKeyUpdate)]
  | .insertStateEvent id version _ => [(.stateEvent id version, .update), (.transfer id, .keyShare)]
  | .insertProcessing id _ => [(.processing id, .update), (.transfer id, .keyShare)]
  | .setProcessing id _ => [(.processing id, .noKeyUpdate)]
  | .insertObservation id row =>
      [(.observation id, .update),
        (.observationHash (row.transfer.semanticHash row.sourceId row.kind), .update)] ++
        reference .collector row.collectorAddressId
  | .purgeObservation id => [(.observation id, .update)]
  | .putVerdict event row => (.verdict event, .update) :: reference .transfer row.transferId
  | .insertAttestation id row =>
      [(.attestation id, .update), (.transfer row.transferId, .keyShare),
        (.observation id, .keyShare)]
  | .insertRiskEvaluation id row =>
      [(.riskEvaluation id, .update),
        (.riskSubmission row.transferId row.provider row.evaluatedAt, .update),
        (.transfer row.transferId, .keyShare)]
  | .insertClaim id row =>
      [(.claim id, .update), (.transfer id, .keyShare), (.intent row.paymentIntentId, .keyShare),
        (.attempt row.attemptId, .keyShare)]
  | .insertAllocation attempt transfer row =>
      [(.allocation attempt transfer, .update), (.attempt attempt, .keyShare),
        (.transfer transfer, .keyShare), (.intent row.paymentIntentId, .keyShare)]
  | .setAllocationActor attempt transfer _ => [(.allocation attempt transfer, .noKeyUpdate)]
  | .insertDecision intent transfer row =>
      [(.decision intent transfer, .update), (.intent intent, .keyShare),
        (.transfer transfer, .keyShare), (.attempt row.attemptId, .keyShare)]
  | .setDecisionResult intent transfer _ => [(.decision intent transfer, .noKeyUpdate)]
  | .setDecisionActor intent transfer _ _ => [(.decision intent transfer, .noKeyUpdate)]
  | .insertFulfillment intent _ => [(.fulfillment intent, .update), (.intent intent, .keyShare)]
  | .insertEvent id _ => [(.event id, .update)]
  | .insertResolution operator key row =>
      -- both callers take the scope's advisory lock before they write under it
      [(.resolution operator key, .update), (.resolutionId row.id, .update),
        (.resolutionScope operator key, .update), (.transfer row.transferId, .keyShare)] ++
        reference .intent row.paymentIntentId ++ reference .attempt row.attemptId
  | .insertDisposition transfer intent _ =>
      [(.disposition transfer intent, .update), (.transfer transfer, .keyShare),
        (.intent intent, .keyShare)]
  | .insertProposal id row =>
      [(.proposal id, .update), (.proposalKey row.proposerKeyId row.idempotencyKey, .update),
        (.pendingProposal row.transferId, .update), (.transfer row.transferId, .keyShare),
        (.intent row.paymentIntentId, .keyShare), (.attempt row.attemptId, .keyShare)]
  | .setProposalDecision id _ => [(.proposal id, .noKeyUpdate)]
  | .insertRailStop id row => [(.railStop id, .update), (.openRailStop row.assetId, .update)]
  | .clearRailStop id => [(.railStop id, .noKeyUpdate)]
  | .insertIdempotency merchant route key _ => [(.idempotency merchant route key, .update)]
  | .putComponentLease component _ => [(.componentLease component, .noKeyUpdate)]
  | .putCursor key _ => [(.cursor key, .noKeyUpdate), (.collector key.2.2, .keyShare)]

end Write

instance : Store Db Write Row := ⟨Write.apply, Write.needs⟩

/-- The readings whose age the properties speak about. -/
inductive Watch where
  | allocated (attemptId : Id)
  | railStop (assetId : Id)
  | planned
  | swept
  | expiring (paymentIntentId : Id)
  | screening (transferId : Id)
  | risk (transferId : Id)
  | evidence (event : ChainEventKey)
  | asked (event : ChainEventKey)
  | dictated (event : ChainEventKey)
  | slot (collectorAddressId : Id) (baseAmountRaw amountSlotCount : Nat)
  | reserved (collectorAddressId : Id)
  | attesting (observationId : Id)
deriving DecidableEq, Repr

end CryptoGateway
