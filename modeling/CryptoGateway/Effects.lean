import CryptoGateway.Gateway

/-!
What the gateway may do to its database, one committed transaction at a time. Where the code
decides by an older reading, the effect speaks about that reading.
-/
namespace CryptoGateway
open Engine

def SettlementOutcome.decision : SettlementOutcome → DecisionOutcome
  | .settle _ => .settled
  | .partialPay _ => .partialPay
  | .overpaid _ _ => .overpaid
  | .hold _ => .held
  | .manualRequired _ => .manualRequired

def Db.Final (db : Db) (transferId : Id) : Prop :=
  ∃ version, db.transferStates.row transferId = some ⟨.finalized, version⟩

def Db.NewId (db : Db) (id : Id) : Prop :=
  ∀ k row, db.resolutions.row k = some row → row.id ≠ id

structure Db.NewResolution (db : Db) (operator : Id) (key : Text) (row : ResolutionRow) :
    Prop where
  unspent : db.resolutions.row (operator, key) = none
  newId : db.NewId row.id

def Screened (log : Log Db Watch) (transferId : Id) : Prop :=
  ∃ order asked m, log.lookup (.screening transferId) = some asked ∧
    log.lookup (.risk transferId) = some m ∧
    m.db.latestRisk order asked.now transferId ≠ .deny

inductive Authority where
  | automatic
  | direct (operator : OperatorCredential) (key : Text) (resolution : ResolutionRow)
  | approval (operator : OperatorCredential) (key : Text) (resolution : ResolutionRow)
      (proposalId : Id) (reason : Text)

structure Payment where
  command : SettlementCommand
  authority : Authority
  attempt : AttemptRow
  intent : IntentRow
  transfer : TransferRow
  processing : ProcessingRow
  decidedAt : Int
  eventId : Id
  remainderEventId : Id

namespace Payment

def allocateRaw (p : Payment) : Nat := p.command.outcome.allocateRaw
def remainderRaw (p : Payment) : Nat := p.command.outcome.remainderRaw
def completes (p : Payment) : Bool := p.command.outcome.completes

def resolutionWrites (p : Payment) : List Write :=
  match p.authority with
  | .automatic => []
  | .direct operator key row => [.insertResolution operator.keyId key row]
  | .approval operator key row _ _ => [.insertResolution operator.keyId key row]

def booked (p : Payment) : ProcessingRow :=
  { p.processing with
    allocatedRaw := p.processing.allocatedRaw + p.allocateRaw
    processingState := if p.command.outcome.decision = .settled then .settled else .matched }

def allocation (p : Payment) : AllocationRow :=
  allocationOf p.command p.attempt p.allocateRaw (allocationReason p.command.outcome.decision)

def bookWrites (p : Payment) : List Write :=
  [.insertClaim p.command.transferId (claimOf p.command p.attempt),
    .setProcessing p.command.transferId p.booked,
    .insertAllocation p.command.attemptId p.command.transferId p.allocation]

def event (p : Payment) (eventType : EventType) : EventRow :=
  { merchantId := some p.command.merchantId, eventType, aggregateId := p.command.paymentIntentId }

def fulfillmentWrites (p : Payment) (db : Db) : List Write :=
  if (db.fulfillments.row p.command.paymentIntentId).isSome then []
  else
    [.insertFulfillment p.command.paymentIntentId (fulfillmentOf p.command p.decidedAt),
      .insertEvent p.eventId (p.event .paymentIntentPaid)]

def statusWrites (p : Payment) (db : Db) : List Write :=
  if p.completes then
    [.setAttemptStatus p.command.attemptId .settled,
      .setIntentStatus p.command.paymentIntentId .paid] ++ p.fulfillmentWrites db
  else
    [.setIntentStatus p.command.paymentIntentId .partiallyPaid,
      .insertEvent p.eventId (p.event .paymentIntentPartiallyPaid)]

def result (p : Payment) : DecisionResult where
  outcome := p.command.outcome.decision
  decidedReason := p.command.matchStrategy.asStr
  allocatedRaw := p.allocateRaw
  remainderRaw := p.remainderRaw
  decidedAt := p.decidedAt

def remainderWrites (p : Payment) : List Write :=
  if p.remainderRaw = 0 then [] else [.insertEvent p.remainderEventId (p.event .overpaid)]

def actorWrites (p : Payment) (operator : OperatorCredential) (reason : Text) : List Write :=
  [.setAllocationActor p.command.attemptId p.command.transferId operator.label,
    .setDecisionActor p.command.paymentIntentId p.command.transferId operator.label reason]

def operatorWrites (p : Payment) : List Write :=
  match p.authority with
  | .automatic => []
  | .direct operator _ row => p.actorWrites operator row.reason
  | .approval operator key row proposalId reason =>
      p.actorWrites operator row.reason ++
        [.setProposalDecision proposalId (approvedDecision operator key reason p.decidedAt row.id)]

def writes (p : Payment) (db : Db) : List Write :=
  p.resolutionWrites ++ p.bookWrites ++ p.statusWrites db ++
    [decisionWrite p.command p.result db] ++ p.remainderWrites ++ p.operatorWrites

structure Names (p : Payment) (row : ResolutionRow) : Prop where
  action : row.action = .honor
  transferId : row.transferId = p.command.transferId
  paymentIntentId : row.paymentIntentId = some p.command.paymentIntentId
  attemptId : row.attemptId = some p.command.attemptId
  allocatedRaw : row.allocatedRaw = some p.allocateRaw

structure Approves (p : Payment) (operator : OperatorCredential) (row : ResolutionRow)
    (proposal : ProposalRow) : Prop where
  pending : proposal.status = .pending
  other : operator.keyId ≠ proposal.proposerKeyId
  inTime : p.decidedAt < proposal.expiresAt
  transferId : proposal.transferId = p.command.transferId
  paymentIntentId : proposal.paymentIntentId = p.command.paymentIntentId
  attemptId : proposal.attemptId = p.command.attemptId
  allocateRaw : proposal.allocateRaw = p.allocateRaw
  requestHash : row.requestHash = proposal.requestHash

def Authorized (config : Config) (db : Db) (p : Payment) : Prop :=
  match p.authority with
  | .automatic =>
      p.processing.processingState = .pending ∧ p.attempt.createdAt ≤ p.transfer.blockTime
  | .direct operator key row =>
      p.processing.processingState ∈ [ProcessingState.held, .unmatched] ∧
      db.NewResolution operator.keyId key row ∧ p.Names row ∧
      config.honorPolicy.requiresSecondOperator p.allocateRaw = false
  | .approval operator key row proposalId _ =>
      p.processing.processingState ∈ [ProcessingState.held, .unmatched] ∧
      db.NewResolution operator.keyId key row ∧ p.Names row ∧
      ∃ proposal, db.proposals.row proposalId = some proposal ∧ p.Approves operator row proposal

structure Booked (db : Db) (p : Payment) : Prop where
  attempt : db.attempts.row p.command.attemptId = some p.attempt
  ofIntent : p.attempt.paymentIntentId = p.command.paymentIntentId
  allocatable : p.attempt.status ∈ allocatableAttemptStates
  intent : db.intents.row p.command.paymentIntentId = some p.intent
  ofMerchant : p.intent.merchantId = p.command.merchantId
  payable : p.intent.status ∈ payableIntentStates
  transfer : db.transfers.row p.command.transferId = some p.transfer
  collector : p.transfer.collectorAddressId = p.attempt.collectorAddressId
  final : db.Final p.command.transferId
  processing : db.processing.row p.command.transferId = some p.processing
  fits : p.processing.allocatedRaw + p.allocateRaw ≤ p.transfer.amountRaw
  positive : 0 < p.allocateRaw
  unclaimed : db.claims.row p.command.transferId = none
  unallocated : db.allocations.row (p.command.attemptId, p.command.transferId) = none
  newEvent : db.fulfillments.row p.command.paymentIntentId = none →
    db.events.row p.eventId = none

structure Founded (log : Log Db Watch) (db : Db) (p : Payment) : Prop extends p.Booked db where
  inWindow : p.transfer.blockTime < p.attempt.latePaymentUntil
  seen : ∃ m, log.lookup (.allocated p.command.attemptId) = some m ∧
    Takes (p.attempt.expectedAmountRaw - m.db.allocatedTo p.command.attemptId)
      p.transfer.amountRaw p.command.outcome

structure Sound (config : Config) (log : Log Db Watch) (db : Db) (p : Payment) : Prop
    extends p.Founded log db where
  authorized : p.Authorized config db
  strategy : p.command.matchStrategy = .manual ↔ p.authority ≠ .automatic
  screened : p.authority = .automatic → Screened log p.command.transferId

end Payment

structure Issue where
  plan : QuotePlan
  amountRaw : Nat
  leaseId : Id
  key : Text
  requestHash : Digest
  intent : IntentRow

namespace Issue

def writes (q : Issue) : List Write :=
  [.insertIdempotency q.plan.merchantId .quote q.key
      { requestHash := q.requestHash, resourceId := q.plan.quoteId },
    .insertQuote q.plan.quoteId { plan := q.plan, amountRaw := q.amountRaw },
    .insertAttempt q.plan.attemptId (attemptOf q.plan q.amountRaw),
    .insertLease q.leaseId (leaseOf q.plan q.amountRaw),
    .setIntentStatus q.plan.paymentIntentId .awaitingPayment]

structure Sound (log : Log Db Watch) (db : Db) (q : Issue) : Prop where
  intent : db.intents.row q.plan.paymentIntentId = some q.intent
  ofMerchant : q.intent.merchantId = q.plan.merchantId
  quotable : q.intent.status = .requiresQuote ∨
    (q.intent.status = .expired ∧ db.decidedOrClaimed q.plan.paymentIntentId = false)
  collector : ∃ row, db.collectors.row q.plan.collectorAddressId = some row ∧
    row.assetId = q.plan.assetId
  newQuote : db.quotes.row q.plan.quoteId = none
  newAttempt : db.attempts.row q.plan.attemptId = none
  newLease : db.leases.row q.leaseId = none
  noneLive : ∀ a row, db.attempts.row a = some row → row.paymentIntentId = q.plan.paymentIntentId →
    row.status ≠ .awaitingPayment
  freeSlot : ∀ id row, db.leases.row id = some row →
    ¬(row.collectorAddressId = q.plan.collectorAddressId ∧ row.amountRaw = q.amountRaw)
  active : ∃ row, db.collectors.row q.plan.collectorAddressId = some row ∧ row.state = .active
  chosen : ∃ m slot, log.lookup (.slot q.plan.collectorAddressId q.plan.baseAmountRaw
    q.plan.amountSlotCount) = some m ∧ CryptoGateway.freeSlot q.plan m.db = some slot ∧
    q.amountRaw = q.plan.baseAmountRaw + slot
  unspent : db.idempotency.row (q.plan.merchantId, .quote, q.key) = none
  railOpen : ∃ m, (Watch.railStop q.plan.assetId, m) ∈ log ∧
    m.db.openRailStop q.plan.assetId = none
  planned : ∃ m, log.lookup .planned = some m ∧ q.plan.createdAt = m.now

end Issue

structure Expiry where
  attemptId : Id
  attempt : AttemptRow
  closesIntent : Bool

def Expiry.writes (x : Expiry) : List Write :=
  .setAttemptStatus x.attemptId .expired ::
    if x.closesIntent then [.setIntentStatus x.attempt.paymentIntentId .expired] else []

structure Expiry.Sound (log : Log Db Watch) (db : Db) (at_ : Int) (x : Expiry) : Prop where
  attempt : db.attempts.row x.attemptId = some x.attempt
  awaiting : x.attempt.status = .awaitingPayment
  due : x.attempt.quoteExpiresAt ≤ at_
  seen : x.closesIntent = true → ∃ m row, (Watch.expiring x.attempt.paymentIntentId, m) ∈ log ∧
    m.db.intents.row x.attempt.paymentIntentId = some row ∧ row.status = .awaitingPayment

structure Sweep where
  at_ : Int
  expired : List Expiry
  archived : List (Id × LeaseRow)

namespace Sweep

def archiveWrites (at_ : Int) (e : Id × LeaseRow) : List Write :=
  [.insertLeaseHistory e.1 (historyOf e.2 at_), .deleteLease e.1]

def writes (x : Sweep) : List Write :=
  x.expired.flatMap Expiry.writes ++ x.archived.flatMap (archiveWrites x.at_)

structure Sound (log : Log Db Watch) (db : Db) (x : Sweep) : Prop where
  clock : ∃ m, (Watch.swept, m) ∈ log ∧ m.now = x.at_
  expired : ∀ e ∈ x.expired, e.Sound log db x.at_
  archived : ∀ e ∈ x.archived, db.leases.row e.1 = some e.2 ∧ e.2.leaseUntil ≤ x.at_ ∧
    db.leaseHistory.row e.1 = none

end Sweep

structure StateStep where
  previous : TransferState
  next : StateRow

def StateStep.writes (transferId : Id) (step : StateStep) : List Write :=
  [.setTransferState transferId step.next,
    .insertStateEvent transferId step.next.stateVersion ⟨some step.previous, step.next.state⟩]

/-- The steps of a transfer's current state towards `target`. -/
inductive Advances (target : TransferState) : StateRow → List StateStep → Prop where
  | stay {current : StateRow} : Advances target current []
  | move {current : StateRow} {next : TransferState} {rest : List StateStep}
      (step : nextStep current.state target = some next)
      (after : Advances target ⟨next, current.stateVersion + 1⟩ rest) :
      Advances target current (⟨current.state, ⟨next, current.stateVersion + 1⟩⟩ :: rest)

def cancelledEvent (merchantId intentId : Id) : EventRow :=
  { merchantId := some merchantId, eventType := .paymentIntentCancelled, aggregateId := intentId }

structure VerdictRow.Verifies (verdict : VerdictRow) (transferId : Id) : Prop where
  verified : verdict.verdict = .verified
  names : verdict.transferId = some transferId

def asideTables : List TableName := [.catalog, .riskEvaluations]

inductive Db.Grants (db : Db) (component : Text) (row : ComponentLeaseRow) : Prop where
  | first (unset : db.componentLeases.row component = none) (token : row.fenceToken = 1)
  | renewal {held : ComponentLeaseRow} (found : db.componentLeases.row component = some held)
      (holder : row.holder = held.holder) (token : row.fenceToken = held.fenceToken)
  | takeover {held : ComponentLeaseRow} (found : db.componentLeases.row component = some held)
      (holder : row.holder ≠ held.holder) (token : row.fenceToken = held.fenceToken + 1)

structure Db.Resumes (db : Db) (key : CursorKey) (position : CursorRow) : Prop where
  numeric : position.kind.isNumeric = true → ∃ n, position.value.asNumeric = some n
  admitted : ∀ stored, db.cursors.row key = some stored → stored.admits position = some true

def recordWrites (rows : List (Id × ObservationTerms)) (moved : Option (CursorKey × CursorRow)) :
    List Write :=
  rows.map (fun e => .insertObservation e.1 e.2) ++ moved.toList.map fun e => .putCursor e.1 e.2

@[simp] theorem mem_recordWrites {rows : List (Id × ObservationTerms)}
    {moved : Option (CursorKey × CursorRow)} {w : Write} : w ∈ recordWrites rows moved ↔
      (∃ e ∈ rows, .insertObservation e.1 e.2 = w) ∨ ∃ e ∈ moved, .putCursor e.1 e.2 = w := by
  simp [recordWrites]

def attestationWrites (attested : List (Id × AttestationRow)) : List Write :=
  attested.map fun e => .insertAttestation e.1 e.2

def Judged (log : Log Db Watch) (fact : VerifiedTransfer) : Prop :=
  (∃ m, (.dictated fact.transfer.event, m) ∈ log) ∨
    ∃ m policy at_, (.evidence fact.transfer.event, m) ∈ log ∧
      verify (m.db.evidenceFor fact.transfer.event) policy at_ = .ok (.verified fact)

theorem Judged.mono {log log' : Log Db Watch} {fact : VerifiedTransfer} (judged : Judged log fact)
    (more : log ⊆ log') : Judged log' fact :=
  judged.imp (fun ⟨m, mem⟩ => ⟨m, more mem⟩)
    fun ⟨m, policy, at_, mem, decided⟩ => ⟨m, policy, at_, more mem, decided⟩

structure Attests (db : Db) (fact : VerifiedTransfer) (transferId : Id) (e : Id × AttestationRow) :
    Prop where
  named : e.1 ∈ fact.attestations.map (·.1)
  ofTransfer : e.2.transferId = transferId
  stored : (db.observation e.1).isSome

/-- A reading that the verdict rests on is attested, unless it was gone with its source
    when the session looked for it; `latest` is what the session saw since it decided. -/
def Covered (latest : Log Db Watch) (db : Db) (attested : List (Id × AttestationRow))
    (observation : Id) : Prop :=
  observation ∈ attested.map (·.1) ∨ (db.attestations.row observation).isSome ∨
    ∃ m, (Watch.attesting observation, m) ∈ latest ∧ m.db.sourceOf observation = none

def AllCovered (log : Log Db Watch) (db : Db) (fact : VerifiedTransfer)
    (attested : List (Id × AttestationRow)) : Prop :=
  ∃ latest before, log = latest ++ before ∧ Judged before fact ∧
    ∀ o ∈ fact.attestations.map (·.1), Covered latest db attested o

structure Purges (db : Db) (id : Id) : Prop where
  unattested : db.attestations.row id = none
  final : ∃ row t transfer, db.observations.row id = some row ∧
    db.transfers.row t = some transfer ∧ transfer.event = row.transfer.event ∧
    ∃ state, db.transferStates.row t = some state ∧ state.state.closed

/-- The transactions of the gateway, by what they commit. -/
inductive Effect (config : Config) (log : Log Db Watch) (db : Db) : List Write → Prop where
  | aside {ws : List Write} (only : ∀ w ∈ ws, w.table ∈ asideTables) : Effect config log db ws
  | create (id : Id) (row : IntentRow) {key : Text} {requestHash : Digest}
      (absent : db.intents.row id = none) (opens : row.status = .requiresQuote)
      (unspent : db.idempotency.row (row.merchantId, .create, key) = none) :
      Effect config log db
        [.insertIdempotency row.merchantId .create key ⟨requestHash, id⟩, .insertIntent id row]
  | cancel {id merchantId eventId : Id} {intent : IntentRow} {key : Text}
      {requestHash : Digest} {live : List Id}
      (found : db.intents.row id = some intent) (cancellable : intent.status ∈ cancellableStates)
      (untouched : db.decidedOrClaimed id = false)
      (all : ∀ a, a ∈ live ↔ ∃ row, db.attempts.row a = some row ∧ row.paymentIntentId = id ∧
        row.status = .awaitingPayment)
      (unspent : db.idempotency.row (merchantId, .cancel, key) = none)
      (ofMerchant : intent.merchantId = merchantId) :
      Effect config log db
        ([.insertIdempotency merchantId .cancel key ⟨requestHash, id⟩, .setIntentStatus id
          .cancelled] ++
          live.map (.setAttemptStatus · .cancelled) ++
          [.insertEvent eventId (cancelledEvent merchantId id)])
  | issue (q : Issue) (sound : q.Sound log db) : Effect config log db q.writes
  | sweep (x : Sweep) (sound : x.Sound log db) : Effect config log db x.writes
  | pay (p : Payment) (sound : p.Sound config log db) : Effect config log db (p.writes db)
  | park {command : SettlementCommand} {processing : ProcessingRow} {row : AttemptRow}
      {result : DecisionResult} {reason : Text}
      (found : db.processing.row command.transferId = some processing)
      (pending : processing.processingState = .pending)
      (attempt : db.attempts.row command.attemptId = some row)
      (ofIntent : row.paymentIntentId = command.paymentIntentId)
      (noMoney : result.outcome = .held ∨ result.outcome = .manualRequired) :
      Effect config log db
        [.setProcessing command.transferId
            { processing with processingState := .held, lastError := some reason },
          decisionWrite command result db]
  | unresolved {transferId eventId : Id} {processing : ProcessingRow} {reason : Text}
      {event : EventRow} (found : db.processing.row transferId = some processing)
      (pending : processing.processingState = .pending)
      (notPaid : event.eventType ≠ .paymentIntentPaid) :
      Effect config log db
        [.setProcessing transferId
            { processing with processingState := .unmatched, lastError := some reason },
          .insertEvent eventId event]
  | notice {eventId : Id} {event : EventRow} (notPaid : event.eventType ≠ .paymentIntentPaid) :
      Effect config log db [.insertEvent eventId event]
  | reject {operator : Id} {key reason : Text} {row : ResolutionRow} {processing : ProcessingRow}
      (found : db.processing.row row.transferId = some processing)
      (held : processing.processingState ∈ [ProcessingState.held, .unmatched])
      (new : db.NewResolution operator key row) (action : row.action = .reject) :
      Effect config log db
        [.insertResolution operator key row,
          .setProcessing row.transferId
            { processing with processingState := .resolved, lastError := some reason }]
  | dispose {operator intentId : Id} {key : Text} {row : ResolutionRow}
      {disposition : DispositionRow} {processing : ProcessingRow}
      (found : db.processing.row row.transferId = some processing)
      (matched : processing.processingState = .matched)
      (new : db.NewResolution operator key row)
      (action : row.action = .recordRemainderDisposition) :
      Effect config log db
        [.insertResolution operator key row,
          .insertDisposition row.transferId intentId disposition,
          .setProcessing row.transferId
            { processing with processingState := .resolved, lastError := none }]
  | propose {id : Id} {row : ProposalRow} {at_ : Int} {stale : List Id}
      (absent : db.proposals.row id = none) (pending : row.status = .pending)
      (unresolved : row.resolutionId = none)
      (passed : ∀ p ∈ stale, ∃ old, db.proposals.row p = some old ∧ old.status = .pending)
      (others : ∀ p old, db.proposals.row p = some old → old.transferId = row.transferId →
        old.status = .pending → p ∈ stale) :
      Effect config log db
        (stale.map (.setProposalDecision · (expiredDecision at_)) ++ [.insertProposal id row])
  | withdraw {id : Id} {proposal : ProposalRow} {operator : OperatorCredential} {key reason : Text}
      {at_ : Int} (found : db.proposals.row id = some proposal)
      (pending : proposal.status = .pending) :
      Effect config log db
        [.setProposalDecision id (rejectedDecision operator key reason at_)]
  | stopRail {id : Id} {row : RailStopRow} (absent : db.railStops.row id = none)
      (opens : row.cleared = false) : Effect config log db [.insertRailStop id row]
  | clearRail {ids : List Id} : Effect config log db (ids.map .clearRailStop)
  | register {id : Id} {row : CollectorRow} (absent : db.collectors.row id = none) :
      Effect config log db [.insertCollector id row]
  | stopQuoting {id : Id} {row : CollectorRow} (found : db.collectors.row id = some row)
      (active : row.state = .active) : Effect config log db [.setCollectorState id .receivingOnly]
  | retire {id : Id} {row : CollectorRow} (found : db.collectors.row id = some row)
      (counted : ∃ m, log.lookup (.reserved id) = some m ∧ ∀ k lease,
        db.leases.row k = some lease → lease.collectorAddressId = id →
        m.db.leases.row k = some lease) :
      Effect config log db [.setCollectorState id .retired]
  | record {rows : List (Id × ObservationTerms)} {moved : Option (CursorKey × CursorRow)}
      (resumes : ∀ e ∈ moved, db.Resumes e.1 e.2) : Effect config log db (recordWrites rows moved)
  | lease {component : Text} {row : ComponentLeaseRow} (grants : db.Grants component row) :
      Effect config log db [.putComponentLease component row]
  | purge {ids : List Id} (purges : ∀ id ∈ ids, Purges db id) :
      Effect config log db (ids.map .purgeObservation)
  | observe {id : Id} {fact : VerifiedTransfer} {attested : List (Id × AttestationRow)}
      {steps : List StateStep} {verdict : VerdictRow} (judged : Judged log fact)
      (newTransfer : db.transfers.row id = none) (newState : db.transferStates.row id = none)
      (newProcessing : db.processing.row id = none)
      (collector : ∃ c, db.collectors.row fact.transfer.collectorAddressId = some c ∧
        c.assetId = fact.transfer.assetId)
      (newOf : ∀ t row, db.transfers.row t = some row → row.event ≠ fact.transfer.event)
      (attests : ∀ e ∈ attested, Attests db fact id e)
      (walk : Advances fact.state canonicalState steps) (verified : verdict.Verifies id)
      (covered : AllCovered log db fact attested) :
      Effect config log db
        ([.insertTransfer id fact.transfer.row, .insertStateEvent id 1 ⟨none, .canonical⟩,
            .insertTransferState id canonicalState, .insertProcessing id pendingProcessing] ++
          attestationWrites attested ++ steps.flatMap (·.writes id) ++
          [.putVerdict fact.transfer.event verdict])
  | advance {id : Id} {row : TransferRow} {fact : VerifiedTransfer}
      {attested : List (Id × AttestationRow)} {current : StateRow} {steps : List StateStep}
      {verdict : VerdictRow} (judged : Judged log fact)
      (found : db.transferStates.row id = some current) (walk : Advances fact.state current steps)
      (transfer : db.transfers.row id = some row) (ofEvent : row.event = fact.transfer.event)
      (attests : ∀ e ∈ attested, Attests db fact id e) (verified : verdict.Verifies id) :
      Effect config log db
        (attestationWrites attested ++ steps.flatMap (·.writes id) ++
          [.putVerdict fact.transfer.event verdict])
  | judge {event : ChainEventKey} {verdict : VerdictRow} (other : verdict.verdict ≠ .verified) :
      Effect config log db [.putVerdict event verdict]

section Tables
variable {w : Write}

def issueTables : List TableName := [.idempotency, .quotes, .attempts, .leases, .intents]

theorem Issue.writes_table {q : Issue} (mem : w ∈ q.writes) : w.table ∈ issueTables := by
  simp only [writes, List.mem_cons, List.not_mem_nil, or_false] at mem
  rcases mem with rfl | rfl | rfl | rfl | rfl <;> simp [Write.table, issueTables]

def sweepTables : List TableName := [.attempts, .intents, .leaseHistory, .leases]

theorem Sweep.writes_table {x : Sweep} (mem : w ∈ x.writes) : w.table ∈ sweepTables := by
  simp only [writes, List.mem_append, List.mem_flatMap] at mem
  rcases mem with ⟨e, _, mem⟩ | ⟨e, _, mem⟩
  · unfold Expiry.writes at mem
    split at mem
    · simp only [List.mem_cons, List.not_mem_nil, or_false] at mem
      rcases mem with rfl | rfl <;> simp [Write.table, sweepTables]
    · simp only [List.mem_cons, List.not_mem_nil, or_false] at mem
      subst mem; simp [Write.table, sweepTables]
  · simp only [archiveWrites, List.mem_cons, List.not_mem_nil, or_false] at mem
    rcases mem with rfl | rfl <;> simp [Write.table, sweepTables]

variable {attested : List (Id × AttestationRow)}

theorem attestationWrites_table
    (mem : w ∈ attestationWrites attested) : w.table = .attestations := by
  obtain ⟨e, _, rfl⟩ := List.mem_map.mp mem
  rfl

def advanceTables : List TableName := [.attestations, .transferStates, .stateEvents, .verdicts]

theorem advance_table {steps : List StateStep} {id : Id}
    {event : ChainEventKey} {verdict : VerdictRow}
    (mem : w ∈ attestationWrites attested ++ steps.flatMap (·.writes id) ++
      [.putVerdict event verdict]) : w.table ∈ advanceTables := by
  simp only [List.mem_append, List.mem_flatMap, StateStep.writes, List.mem_cons, List.not_mem_nil,
    or_false] at mem
  rcases mem with (mem | ⟨_, _, rfl | rfl⟩) | rfl
  · rw [attestationWrites_table mem]; decide
  all_goals simp [Write.table, advanceTables]

def observeTables : List TableName := [.transfers, .processing] ++ advanceTables

theorem observe_table {row : TransferRow} {event : StateEventRow} {state : StateRow}
    {processing : ProcessingRow} {steps : List StateStep}
    {id : Id} {key : ChainEventKey} {verdict : VerdictRow}
    (mem : w ∈ [.insertTransfer id row, .insertStateEvent id 1 event,
        .insertTransferState id state, .insertProcessing id processing] ++
      attestationWrites attested ++ steps.flatMap (·.writes id) ++ [.putVerdict key verdict]) :
    w.table ∈ observeTables := by
  rw [List.append_assoc, List.append_assoc, List.mem_append, ← List.append_assoc] at mem
  rcases mem with mem | mem
  · simp only [List.mem_cons, List.not_mem_nil, or_false] at mem
    rcases mem with rfl | rfl | rfl | rfl <;> simp [Write.table, observeTables, advanceTables]
  · exact List.mem_append_right _ (advance_table mem)

def recordTables : List TableName := [.observations, .cursors]

theorem record_table {rows : List (Id × ObservationTerms)} {moved : Option (CursorKey × CursorRow)}
    (mem : w ∈ recordWrites rows moved) : w.table ∈ recordTables := by
  rcases mem_recordWrites.mp mem with ⟨_, _, rfl⟩ | ⟨_, _, rfl⟩ <;> simp [Write.table, recordTables]

end Tables

def Write.isDecision : Write → Bool
  | .insertResolution _ _ _ => true
  | .insertClaim _ _ => true
  | .setProcessing _ _ => true
  | .insertAllocation _ _ _ => true
  | .setAttemptStatus _ _ => true
  | .setIntentStatus _ _ => true
  | .insertFulfillment _ _ => true
  | .insertEvent _ _ => true
  | .insertDecision _ _ _ => true
  | .setDecisionResult _ _ _ => true
  | .setAllocationActor _ _ _ => true
  | .setDecisionActor _ _ _ _ => true
  | .setProposalDecision _ _ => true
  | _ => false

theorem decisionWrite_isDecision (command : SettlementCommand) (result : DecisionResult)
    (db : Db) : (decisionWrite command result db).isDecision = true := by
  unfold decisionWrite
  split <;> rfl

theorem decisionWrite_table (command : SettlementCommand) (result : DecisionResult) (db : Db) :
    (decisionWrite command result db).table = .decisions := by
  unfold decisionWrite
  split <;> rfl

theorem Payment.isDecision_of_mem {p : Payment} {db : Db} {w : Write} (mem : w ∈ p.writes db) :
    w.isDecision = true := by
  have all : (p.writes db).all Write.isDecision = true := by
    simp only [writes, List.all_append, List.all_cons, List.all_nil, decisionWrite_isDecision,
      Bool.and_true, Bool.and_eq_true]
    refine ⟨⟨⟨⟨?_, rfl⟩, ?_⟩, ?_⟩, ?_⟩
    · unfold resolutionWrites
      split <;> rfl
    · unfold statusWrites fulfillmentWrites
      split
      · split <;> rfl
      · rfl
    · unfold remainderWrites
      split <;> rfl
    · unfold operatorWrites
      split <;> rfl
  exact List.all_eq_true.mp all w mem

theorem isDecision_of_mem_park {command : SettlementCommand} {result : DecisionResult} {db : Db}
    {row : ProcessingRow} {w : Write}
    (mem : w ∈ [.setProcessing command.transferId row, decisionWrite command result db]) :
    w.isDecision = true := by
  simp only [List.mem_cons, List.not_mem_nil, or_false] at mem
  rcases mem with rfl | rfl
  · rfl
  · exact decisionWrite_isDecision _ _ _

section Inversion
variable {config : Config} {log : Log Db Watch} {db : Db} {ws : List Write}

theorem Effect.insertAttempt_mem {id : Id} {row : AttemptRow} (eff : Effect config log db ws)
    (mem : .insertAttempt id row ∈ ws) :
    ∃ q : Issue, q.Sound log db ∧ ws = q.writes ∧ id = q.plan.attemptId ∧
      row = attemptOf q.plan q.amountRaw := by
  cases eff with
  | issue q sound =>
    simp [Issue.writes] at mem
    exact ⟨q, sound, rfl, mem⟩
  | aside only => exact absurd (only _ mem) (by simp [Write.table, asideTables])
  | pay p => cases p.isDecision_of_mem mem
  | park => cases isDecision_of_mem_park mem
  | _ => simp [Sweep.writes, Expiry.writes, Sweep.archiveWrites, attestationWrites,
    StateStep.writes] at mem

theorem Effect.insertQuote_mem {id : Id} {row : QuoteRow} (eff : Effect config log db ws)
    (mem : .insertQuote id row ∈ ws) :
    ∃ q : Issue, q.Sound log db ∧ ws = q.writes ∧ id = q.plan.quoteId ∧
      row = ⟨q.plan, q.amountRaw⟩ := by
  cases eff with
  | issue q sound =>
    simp [Issue.writes] at mem
    exact ⟨q, sound, rfl, mem.1, mem.2⟩
  | aside only => exact absurd (only _ mem) (by simp [Write.table, asideTables])
  | pay p => cases p.isDecision_of_mem mem
  | park => cases isDecision_of_mem_park mem
  | _ => simp [Sweep.writes, Expiry.writes, Sweep.archiveWrites, attestationWrites,
    StateStep.writes] at mem

theorem Effect.insertLease_mem {id : Id} {row : LeaseRow} (eff : Effect config log db ws)
    (mem : .insertLease id row ∈ ws) :
    ∃ q : Issue, q.Sound log db ∧ ws = q.writes ∧ id = q.leaseId ∧
      row = leaseOf q.plan q.amountRaw := by
  cases eff with
  | issue q sound =>
    simp [Issue.writes] at mem
    exact ⟨q, sound, rfl, mem⟩
  | aside only => exact absurd (only _ mem) (by simp [Write.table, asideTables])
  | pay p => cases p.isDecision_of_mem mem
  | park => cases isDecision_of_mem_park mem
  | _ => simp [Sweep.writes, Expiry.writes, Sweep.archiveWrites, attestationWrites,
    StateStep.writes] at mem

theorem Effect.insertLeaseHistory_mem {id : Id} {row : LeaseHistoryRow}
    (eff : Effect config log db ws) (mem : .insertLeaseHistory id row ∈ ws) :
    ∃ x : Sweep, x.Sound log db ∧ ws = x.writes ∧
      ∃ lease, (id, lease) ∈ x.archived ∧ row = historyOf lease x.at_ := by
  cases eff with
  | sweep x sound =>
    refine ⟨x, sound, rfl, ?_⟩
    simp only [Sweep.writes, Expiry.writes, Sweep.archiveWrites, List.mem_append,
      List.mem_flatMap] at mem
    rcases mem with ⟨e, _, mem⟩ | ⟨⟨k, lease⟩, listed, mem⟩
    · split at mem <;> simp at mem
    · simp at mem
      exact ⟨lease, mem.1 ▸ listed, mem.2⟩
  | aside only => exact absurd (only _ mem) (by simp [Write.table, asideTables])
  | pay p => cases p.isDecision_of_mem mem
  | park => cases isDecision_of_mem_park mem
  | _ => simp [Issue.writes, attestationWrites, StateStep.writes] at mem

theorem Effect.insertIntent_mem {id : Id} {row : IntentRow} (eff : Effect config log db ws)
    (mem : .insertIntent id row ∈ ws) : db.intents.row id = none ∧ row.status = .requiresQuote := by
  cases eff with
  | create _ _ absent opens =>
    simp at mem
    obtain ⟨rfl, rfl⟩ := mem
    exact ⟨absent, opens⟩
  | aside only => exact absurd (only _ mem) (by simp [Write.table, asideTables])
  | pay p => cases p.isDecision_of_mem mem
  | park => cases isDecision_of_mem_park mem
  | _ => simp [Issue.writes, Sweep.writes, Expiry.writes, Sweep.archiveWrites,
      attestationWrites, StateStep.writes] at mem

theorem Effect.insertTransfer_mem {id : Id} {row : TransferRow} (eff : Effect config log db ws)
    (mem : .insertTransfer id row ∈ ws) :
    ∃ c, db.collectors.row row.collectorAddressId = some c ∧ c.assetId = row.assetId := by
  cases eff with
  | observe _ _ _ _ collector =>
    simp [attestationWrites, StateStep.writes] at mem
    rw [mem.2]; exact collector
  | aside only => exact absurd (only _ mem) (by simp [Write.table, asideTables])
  | pay p => cases p.isDecision_of_mem mem
  | park => cases isDecision_of_mem_park mem
  | _ => simp [Issue.writes, Sweep.writes, Expiry.writes, Sweep.archiveWrites,
      attestationWrites, StateStep.writes] at mem

inductive Parks (db : Db) : List Write → Prop where
  | mk {command : SettlementCommand} {processing : ProcessingRow} {result : DecisionResult}
      {reason : Text} (found : db.processing.row command.transferId = some processing)
      (pending : processing.processingState = .pending)
      (noMoney : result.outcome = .held ∨ result.outcome = .manualRequired) :
      Parks db
        [.setProcessing command.transferId
            { processing with processingState := .held, lastError := some reason },
          decisionWrite command result db]

def moneyTables : List TableName := [.claims, .allocations, .fulfillments, .decisions]

theorem Effect.pay_or_park (eff : Effect config log db ws) :
    (∃ p : Payment, p.Sound config log db ∧ ws = p.writes db) ∨ Parks db ws ∨
      ∀ w ∈ ws, w.table ∉ moneyTables := by
  cases eff with
  | pay p sound => exact .inl ⟨p, sound, rfl⟩
  | park found pending _ _ noMoney => exact .inr (.inl ⟨found, pending, noMoney⟩)
  | aside only =>
    exact .inr (.inr fun w mem => (by decide : ∀ n ∈ asideTables, n ∉ _) _ (only w mem))
  | issue q =>
    exact .inr (.inr fun w mem =>
      (by decide : ∀ n ∈ issueTables, n ∉ _) _ (Issue.writes_table mem))
  | sweep x =>
    exact .inr (.inr fun w mem =>
      (by decide : ∀ n ∈ sweepTables, n ∉ _) _ (Sweep.writes_table mem))
  | cancel =>
    refine .inr (.inr fun w mem => ?_)
    simp only [List.mem_append, List.mem_cons, List.not_mem_nil, or_false, List.mem_map] at mem
    rcases mem with ((rfl | rfl) | ⟨_, _, rfl⟩) | rfl <;> simp [Write.table, moneyTables]
  | propose =>
    refine .inr (.inr fun w mem => ?_)
    simp only [List.mem_append, List.mem_cons, List.not_mem_nil, or_false, List.mem_map] at mem
    rcases mem with ⟨_, _, rfl⟩ | rfl <;> simp [Write.table, moneyTables]
  | clearRail | purge =>
    refine .inr (.inr fun w mem => ?_)
    obtain ⟨_, _, rfl⟩ := List.mem_map.mp mem
    simp [Write.table, moneyTables]
  | record =>
    exact .inr (.inr fun w mem => (by decide : ∀ n ∈ recordTables, n ∉ _) _ (record_table mem))
  | observe =>
    exact .inr (.inr fun w mem => (by decide : ∀ n ∈ observeTables, n ∉ _) _ (observe_table mem))
  | advance =>
    exact .inr (.inr fun w mem => (by decide : ∀ n ∈ advanceTables, n ∉ _) _ (advance_table mem))
  | _ => exact .inr (.inr (by simp [Write.table, moneyTables]))

theorem Effect.pay_or (eff : Effect config log db ws) :
    (∃ p : Payment, p.Sound config log db ∧ ws = p.writes db) ∨
      ∀ w ∈ ws, w.table ∉ [TableName.claims, .allocations, .fulfillments] := by
  rcases eff.pay_or_park with pays | ⟨_, _, _⟩ | other
  · exact .inl pays
  · refine .inr fun w mem => ?_
    simp only [List.mem_cons, List.not_mem_nil, or_false] at mem
    rcases mem with rfl | rfl
    · simp [Write.table]
    · rw [decisionWrite_table]; decide
  · exact .inr fun w mem listed => other w mem (by
      simp only [moneyTables, List.mem_cons, List.not_mem_nil, or_false] at listed ⊢
      tauto)

/-- A verdict that the evidence proves a transfer: `known` is the transfer's row unless
    the verdict opens it, and `current` the state that the walk starts from. -/
structure Verification where
  id : Id
  fact : VerifiedTransfer
  known : Option TransferRow
  attested : List (Id × AttestationRow)
  current : StateRow
  steps : List StateStep
  verdict : VerdictRow

namespace Verification

def opening (v : Verification) : List Write :=
  match v.known with
  | some _ => []
  | none => [.insertTransfer v.id v.fact.transfer.row, .insertStateEvent v.id 1 ⟨none, .canonical⟩,
      .insertTransferState v.id canonicalState, .insertProcessing v.id pendingProcessing]

def writes (v : Verification) : List Write :=
  v.opening ++ attestationWrites v.attested ++ v.steps.flatMap (·.writes v.id) ++
    [.putVerdict v.fact.transfer.event v.verdict]

inductive Starts (log : Log Db Watch) (db : Db) (v : Verification) : Prop where
  | new (opens : v.known = none) (transfer : db.transfers.row v.id = none)
      (state : db.transferStates.row v.id = none)
      (collector : ∃ c, db.collectors.row v.fact.transfer.collectorAddressId = some c ∧
        c.assetId = v.fact.transfer.assetId)
      (first : ∀ t row, db.transfers.row t = some row → row.event ≠ v.fact.transfer.event)
      (current : v.current = canonicalState)
      (covered : AllCovered log db v.fact v.attested)
  | on {row : TransferRow} (found : v.known = some row)
    (transfer : db.transfers.row v.id = some row)
      (state : db.transferStates.row v.id = some v.current)
      (ofEvent : row.event = v.fact.transfer.event)

structure Sound (log : Log Db Watch) (db : Db) (v : Verification) : Prop where
  judged : Judged log v.fact
  starts : v.Starts log db
  attests : ∀ e ∈ v.attested, Attests db v.fact v.id e
  walk : Advances v.fact.state v.current v.steps
  verified : v.verdict.Verifies v.id

end Verification

def verifiedTables : List TableName := [.transfers, .transferStates, .stateEvents, .attestations]

theorem Effect.evidence_or (eff : Effect config log db ws) :
    (∃ v : Verification, v.Sound log db ∧ ws = v.writes) ∨
      (∃ rows moved, ws = recordWrites rows moved) ∨
      (∃ ids : List Id, (∀ id ∈ ids, Purges db id) ∧ ws = ids.map .purgeObservation) ∨
      ∀ w ∈ ws, w.table ∉ .observations :: verifiedTables := by
  cases eff with
  | @observe id fact attested steps verdict judged transfer state _ collector first attests walk
      verified covered =>
    exact .inl ⟨⟨id, fact, none, attested, canonicalState, steps, verdict⟩,
      ⟨judged, .new rfl transfer state collector first rfl covered, attests, walk, verified⟩, rfl⟩
  | @advance id row fact attested current steps verdict judged state walk transfer ofEvent attests
      verified =>
    exact .inl ⟨⟨id, fact, some row, attested, current, steps, verdict⟩,
      ⟨judged, .on rfl transfer state ofEvent, attests, walk, verified⟩, rfl⟩
  | @record rows moved => exact .inr (.inl ⟨rows, moved, rfl⟩)
  | @purge ids purges => exact .inr (.inr (.inl ⟨ids, purges, rfl⟩))
  | pay p =>
    refine .inr (.inr (.inr fun w mem => ?_))
    have decides := p.isDecision_of_mem mem
    cases w with
    | insertTransfer | insertTransferState | setTransferState | insertStateEvent
    | insertAttestation | insertObservation | purgeObservation => cases decides
    | _ => simp [Write.table, verifiedTables]
  | park =>
    refine .inr (.inr (.inr fun w mem => ?_))
    have decides := isDecision_of_mem_park mem
    cases w with
    | insertTransfer | insertTransferState | setTransferState | insertStateEvent
    | insertAttestation | insertObservation | purgeObservation => cases decides
    | _ => simp [Write.table, verifiedTables]
  | aside only =>
    exact .inr (.inr (.inr fun w mem => (by decide : ∀ n ∈ asideTables, n ∉ _) _ (only w mem)))
  | issue q =>
    exact .inr (.inr (.inr fun w mem =>
      (by decide : ∀ n ∈ issueTables, n ∉ _) _ (Issue.writes_table mem)))
  | sweep x =>
    exact .inr (.inr (.inr fun w mem =>
      (by decide : ∀ n ∈ sweepTables, n ∉ _) _ (Sweep.writes_table mem)))
  | cancel =>
    refine .inr (.inr (.inr fun w mem => ?_))
    simp only [List.mem_append, List.mem_cons, List.not_mem_nil, or_false, List.mem_map] at mem
    rcases mem with ((rfl | rfl) | ⟨_, _, rfl⟩) | rfl <;> simp [Write.table, verifiedTables]
  | propose =>
    refine .inr (.inr (.inr fun w mem => ?_))
    simp only [List.mem_append, List.mem_cons, List.not_mem_nil, or_false, List.mem_map] at mem
    rcases mem with ⟨_, _, rfl⟩ | rfl <;> simp [Write.table, verifiedTables]
  | clearRail =>
    refine .inr (.inr (.inr fun w mem => ?_))
    obtain ⟨_, _, rfl⟩ := List.mem_map.mp mem
    simp [Write.table, verifiedTables]
  | _ => exact .inr (.inr (.inr (by simp [Write.table, verifiedTables])))

theorem Effect.verifies_or (eff : Effect config log db ws) :
    (∃ v : Verification, v.Sound log db ∧ ws = v.writes) ∨ ∀ w ∈ ws, w.table ∉ verifiedTables := by
  rcases eff.evidence_or with verified | ⟨rows, moved, rfl⟩ | ⟨ids, _, rfl⟩ | other
  · exact .inl verified
  · exact .inr fun w mem => (by decide : ∀ n ∈ recordTables, n ∉ _) _ (record_table mem)
  · refine .inr fun w mem => ?_
    obtain ⟨_, _, rfl⟩ := List.mem_map.mp mem
    simp [Write.table, verifiedTables]
  · exact .inr fun w mem listed => other w mem (List.mem_cons_of_mem _ listed)

theorem Effect.fence_or (eff : Effect config log db ws) :
    (∃ component row, db.Grants component row ∧ ws = [.putComponentLease component row]) ∨
      (∃ rows moved, (∀ e ∈ moved, db.Resumes e.1 e.2) ∧ ws = recordWrites rows moved) ∨
      ∀ w ∈ ws, w.table ∉ [TableName.componentLeases, .cursors] := by
  cases eff with
  | lease grants => exact .inl ⟨_, _, grants, rfl⟩
  | record resumes => exact .inr (.inl ⟨_, _, resumes, rfl⟩)
  | pay p =>
    refine .inr (.inr fun w mem => ?_)
    have decides := p.isDecision_of_mem mem
    cases w with
    | putComponentLease | putCursor => cases decides
    | _ => simp [Write.table]
  | park =>
    refine .inr (.inr fun w mem => ?_)
    have decides := isDecision_of_mem_park mem
    cases w with
    | putComponentLease | putCursor => cases decides
    | _ => simp [Write.table]
  | aside only =>
    exact .inr (.inr fun w mem => (by decide : ∀ n ∈ asideTables, n ∉ _) _ (only w mem))
  | issue q =>
    exact .inr (.inr fun w mem =>
      (by decide : ∀ n ∈ issueTables, n ∉ _) _ (Issue.writes_table mem))
  | sweep x =>
    exact .inr (.inr fun w mem =>
      (by decide : ∀ n ∈ sweepTables, n ∉ _) _ (Sweep.writes_table mem))
  | observe =>
    exact .inr (.inr fun w mem => (by decide : ∀ n ∈ observeTables, n ∉ _) _ (observe_table mem))
  | advance =>
    exact .inr (.inr fun w mem => (by decide : ∀ n ∈ advanceTables, n ∉ _) _ (advance_table mem))
  | cancel =>
    refine .inr (.inr fun w mem => ?_)
    simp only [List.mem_append, List.mem_cons, List.not_mem_nil, or_false, List.mem_map] at mem
    rcases mem with ((rfl | rfl) | ⟨_, _, rfl⟩) | rfl <;> simp [Write.table]
  | propose =>
    refine .inr (.inr fun w mem => ?_)
    simp only [List.mem_append, List.mem_cons, List.not_mem_nil, or_false, List.mem_map] at mem
    rcases mem with ⟨_, _, rfl⟩ | rfl <;> simp [Write.table]
  | clearRail | purge =>
    refine .inr (.inr fun w mem => ?_)
    obtain ⟨_, _, rfl⟩ := List.mem_map.mp mem
    simp [Write.table]
  | _ => exact .inr (.inr (by simp [Write.table]))

end Inversion
end CryptoGateway
