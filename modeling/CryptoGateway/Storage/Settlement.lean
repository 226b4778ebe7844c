import CryptoGateway.Storage.Statements

/-!
`gateway-storage/src/settlement.rs`: the queries a settlement pass reads and the
transactions that turn one decision into claims, allocations and statuses.
-/
namespace CryptoGateway
open Engine

structure SettlementCommand where
  transferId : Id
  attemptId : Id
  paymentIntentId : Id
  merchantId : Id
  fiatAmountMinor : Int
  matchStrategy : MatchStrategy
  outcome : SettlementOutcome
deriving DecidableEq, Repr

inductive SettlementRecord where
  | settled | partiallyAllocated | overpaid | held | manualRequired | foreignClaim
  | alreadyProcessed
deriving DecidableEq, Repr

structure PendingTransfer where
  facts : TransferFacts
  allocatedRaw : Nat
  independentGroups : Nat
  hadOwnNode : Bool
deriving DecidableEq, Repr

structure AttemptSnapshot where
  attemptId : Id
  paymentIntentId : Id
  merchantId : Id
  currency : CurrencyCode
  fiatAmountMinor : Int
  expectedAmountRaw : Nat
  allocatedRaw : Nat
  status : AttemptStatus
deriving DecidableEq, Repr

inductive UnresolvedTransfer where
  | ambiguous (attemptIds : List Id)
  | unmatched
deriving DecidableEq, Repr

def settlementActor : Text := "system".toList

def Db.allocatedTo (db : Db) (attemptId : Id) : Nat :=
  db.allocations.total fun key row => if key.1 = attemptId then row.allocatedRaw else 0

def Db.allocatedFrom (db : Db) (transferId : Id) : Nat :=
  db.allocations.total fun key row => if key.2 = transferId then row.allocatedRaw else 0

def MatchStrategy.asStr : MatchStrategy → Text
  | .memo => "memo".toList
  | .exactAmount => "exact_amount".toList
  | .historicalSlot => "historical_slot".toList
  | .manual => "manual".toList

def HoldReason.asStr : HoldReason → Text
  | .notFinal => "not_final".toList
  | .invalidated => "invalidated".toList
  | .riskDenied => "risk_denied".toList
  | .alreadyCovered => "already_covered".toList
  | .cancelled => "cancelled".toList

def ManualReason.asStr : ManualReason → Text
  | .aboveAutomaticBand => "above_automatic_band".toList
  | .notEnoughIndependentGroups => "not_enough_independent_groups".toList
  | .ownNodeRequired => "own_node_required".toList
  | .riskReview => "risk_review".toList
  | .latePayment => "late_payment".toList
  | .uncoveredAmount => "uncovered_amount".toList

def pendingTransfer (db : Db) (transferId : Id) : Option PendingTransfer := do
  let transfer ← db.transfers.row transferId
  let state ← db.transferStates.row transferId
  let processing ← db.processing.row transferId
  if processing.processingState = .pending ∧
      (state.state = .finalized ∨ state.state = .invalidated) then
    let attestations := db.attestations.entries.filter (·.2.transferId = transferId)
    some
      { facts :=
          { transferId
            collectorAddressId := transfer.collectorAddressId
            amountRaw := transfer.amountRaw
            memo := transfer.memo
            blockTime := transfer.blockTime
            state := state.state }
        allocatedRaw := processing.allocatedRaw
        independentGroups := (attestations.map (·.2.providerGroup)).eraseDups.length
        hadOwnNode := attestations.any (·.2.ownNode) }
  else none

/-- The order a settlement pass works in: block time, then id. -/
def PendingTransfer.before (a b : PendingTransfer) : Prop :=
  a.facts.blockTime < b.facts.blockTime ∨
    (a.facts.blockTime = b.facts.blockTime ∧ a.facts.transferId ≤ b.facts.transferId)

instance : DecidableRel PendingTransfer.before :=
  fun _ _ => inferInstanceAs (Decidable (_ ∨ _))

def transfersAwaitingSettlement (limit : Nat) : Job RepositoryError (List PendingTransfer) :=
  select fun db =>
    ((db.transfers.keys.filterMap (pendingTransfer db)).insertionSort
      PendingTransfer.before).take limit

def candidate (db : Db) (attemptId : Id) (leasedFrom leasedUntil : Int) :
    Option AttemptCandidate :=
  (db.attempts.row attemptId).map fun attempt =>
    { attemptId
      paymentIntentId := attempt.paymentIntentId
      merchantId := attempt.merchantId
      collectorAddressId := attempt.collectorAddressId
      expectedAmountRaw := attempt.expectedAmountRaw
      memoReference := attempt.memoReference
      leasedFrom, leasedUntil
      quoteExpiresAt := attempt.quoteExpiresAt
      status := attempt.status }

def liveCandidate (transfer : TransferFacts) (db : Db) (lease : Id × LeaseRow) :
    Option AttemptCandidate := do
  let c ← candidate db lease.2.attemptId lease.2.leasedFrom lease.2.leaseUntil
  if lease.2.collectorAddressId = transfer.collectorAddressId ∧
      (lease.2.amountRaw = transfer.amountRaw ∨
        (transfer.memo.isSome ∧ c.memoReference = transfer.memo)) then some c
  else none

def archivedCandidate (transfer : TransferFacts) (db : Db) (lease : Id × LeaseHistoryRow) :
    Option AttemptCandidate := do
  let c ← candidate db lease.2.attemptId lease.2.leasedFrom lease.2.leasedUntil
  if lease.2.collectorAddressId = transfer.collectorAddressId ∧
      lease.2.amountRaw = transfer.amountRaw ∧ lease.2.leasedFrom ≤ transfer.blockTime ∧
      transfer.blockTime < lease.2.leasedUntil then some c
  else none

def matchCandidates (transfer : TransferFacts) : Job RepositoryError (List AttemptCandidate) :=
  select fun db =>
    db.leases.entries.filterMap (liveCandidate transfer db) ++
      db.leaseHistory.entries.filterMap (archivedCandidate transfer db)

def attemptSnapshot (attemptId : Id) : Job RepositoryError (Option AttemptSnapshot) :=
  watch (.allocated attemptId) fun db => do
    let attempt ← db.attempts.row attemptId
    let intent ← db.intents.row attempt.paymentIntentId
    some
      { attemptId
        paymentIntentId := attempt.paymentIntentId
        merchantId := attempt.merchantId
        currency := intent.currency
        fiatAmountMinor := intent.amountMinor
        expectedAmountRaw := attempt.expectedAmountRaw
        allocatedRaw := db.allocatedTo attemptId
        status := attempt.status }

def findSettlementPolicy (currency : CurrencyCode) :
    Job RepositoryError (Option SettlementPolicy) := do
  let policy ← select fun db =>
    db.catalog.settlementPolicies.find? fun policy => policy.1 = currency && policy.2.1
  match policy with
  | none => pure none
  | some (_, _, id, version) => do
    let tiers ← select fun db =>
      (db.catalog.tiers id).insertionSort fun a b => a.maxFiatMinor ≤ b.maxFiatMinor
    if tiers.isEmpty then .fail (.corruptData "an active settlement policy has no bands")
    else pure (some { id, version, tiers })

/-- The evaluations of a transfer that are current at a time, latest first. Rows of
    one time come in the order the database happens to return them in. -/
def Db.currentRisks (db : Db) (order : RowOrder Id) (at_ : Int) (transferId : Id) :
    List (Id × RiskRow) :=
  ((db.riskEvaluations.entries.filter fun e =>
      e.2.transferId = transferId && decide (at_ - 3600 * 1000000 ≤ e.2.evaluatedAt) &&
        decide (e.2.evaluatedAt ≤ at_ + 30 * 1000000)).insertionSort
      fun a b => order a.1 b.1).insertionSort fun a b => b.2.evaluatedAt ≤ a.2.evaluatedAt

def Db.latestRisk (db : Db) (order : RowOrder Id) (at_ : Int) (transferId : Id) : RiskDecision :=
  (db.currentRisks order at_ transferId).head?.elim .skipped (·.2.decision)

def latestRisk (order : RowOrder Id) (transferId : Id) : Job RepositoryError RiskDecision := do
  let at_ ← Proc.clock (some (.screening transferId)) .done
  watch (.risk transferId) fun db => db.latestRisk order at_ transferId

def lockProcessing (transferId : Id) : Job RepositoryError ProcessingRow := do
  let row ← execute (forUpdate (.processing transferId) (·.processing.row transferId))
  orFail (.corruptData "a canonical transfer has no processing row") row

/-- `UPDATE chain_transfer_processing ... WHERE transfer_id`, rows not counted. -/
def setProcessing {ε : Type} (transferId : Id) (change : ProcessingRow → ProcessingRow) :
    Job ε Nat :=
  execute (updateOne (.processing transferId) (·.processing.row transferId)
    fun row => [.setProcessing transferId (change row)])

/-- The event row is read by nothing here; its foreign keys still take locks. -/
def insertPaymentEvent {ε : Type} (command : SettlementCommand) : Job ε Unit :=
  execute fun _ _ _ => Reply.locked
    [(.intent command.paymentIntentId, .keyShare), (.attempt command.attemptId, .keyShare),
      (.transfer command.transferId, .keyShare)] ()

/-- The upsert of the decision about one intent and one transfer. -/
def decisionWrite (command : SettlementCommand) (result : DecisionResult) (db : Db) : Write :=
  match db.decisions.row (command.paymentIntentId, command.transferId) with
  | none => .insertDecision command.paymentIntentId command.transferId
      { toDecisionResult := result
        attemptId := command.attemptId
        merchantId := command.merchantId
        fiatAmountMinor := command.fiatAmountMinor
        matchStrategy := command.matchStrategy
        decidedBy := settlementActor }
  | some _ => .setDecisionResult command.paymentIntentId command.transferId result

def recordDecision {ε : Type} (command : SettlementCommand) (result : DecisionResult) :
    Job ε Unit :=
  execute fun _ newest _ => Reply.wrote [decisionWrite command result newest] ()

def finishWithoutMoney (command : SettlementCommand) (state : ProcessingState)
    (outcome : DecisionOutcome) (reason : Text) (at_ : Int) : Job RepositoryError Unit := do
  let _ ← setProcessing command.transferId fun row =>
    { row with processingState := state, lastError := some reason }
  recordDecision command
    { outcome, decidedReason := reason, allocatedRaw := 0, remainderRaw := 0, decidedAt := at_ }
  insertPaymentEvent command

def transferNotAtCollector : Text := "the transfer is not at the attempt's collector".toList
def attemptNotOpen : Text := "the attempt is not open for payment".toList
def intentNotPayable : Text := "the payment intent is not payable".toList
def claimedByAnother : Text := "claimed_by_another_intent".toList

def claimOf (command : SettlementCommand) (attempt : AttemptRow) : ClaimRow where
  paymentIntentId := command.paymentIntentId
  attemptId := command.attemptId
  merchantId := command.merchantId
  matchStrategy := command.matchStrategy
  collectorAddressId := attempt.collectorAddressId

/-- `INSERT ... SELECT ... FROM payment_attempts ... ON CONFLICT DO NOTHING` into
    the claims; `false` is the foreign key's refusal. -/
def insertClaim (command : SettlementCommand) : Exec Bool :=
  fun seen newest _ =>
    match seen.attempts.row command.attemptId with
    | none => Reply.value true
    | some attempt =>
      match newest.claims.row command.transferId with
      | some _ => Reply.value true
      | none =>
        if (newest.transfers.row command.transferId).map (·.collectorAddressId) =
            some attempt.collectorAddressId then
          Reply.wrote [.insertClaim command.transferId (claimOf command attempt)] true
        else Reply.value false

def claimTransfer (command : SettlementCommand) (at_ : Int) : Job RepositoryError Bool := do
  let bound ← execute (insertClaim command)
  if !bound then .fail (.transitionRefused transferNotAtCollector)
  else do
    let owner ← select fun db => (db.claims.row command.transferId).map (·.paymentIntentId)
    let owner ← orFail .unavailable owner
    if owner = command.paymentIntentId then pure true
    else do
      let _ ← setProcessing command.transferId fun row =>
        { row with processingState := .held, lastError := some claimedByAnother }
      recordDecision command
        { outcome := .rejected, decidedReason := claimedByAnother, allocatedRaw := 0,
          remainderRaw := 0, decidedAt := at_ }
      pure false

def payableIntentStates : List PaymentIntentStatus :=
  [.awaitingPayment, .partiallyPaid, .riskHold, .expired]

def allocatableAttemptStates : List AttemptStatus := [.awaitingPayment, .expired]

def requireOneRow (rows : Nat) (what : Text) : Job RepositoryError Unit :=
  if rows = 1 then pure () else .fail (.transitionRefused what)

/-- The attempt, while the guarded `UPDATE`s of a payment still match it. -/
def allocatableAttempt (command : SettlementCommand) (db : Db) : Option AttemptRow :=
  (db.attempts.row command.attemptId).filter fun row =>
    row.paymentIntentId = command.paymentIntentId && row.status ∈ allocatableAttemptStates

def payableIntent (command : SettlementCommand) (db : Db) : Option IntentRow :=
  (db.intents.row command.paymentIntentId).filter fun row =>
    row.merchantId = command.merchantId && row.status ∈ payableIntentStates

def fulfillmentOf (command : SettlementCommand) (at_ : Int) : FulfillmentRow where
  merchantId := command.merchantId
  status := .claimed
  claimedAt := at_

/-- `INSERT INTO payment_fulfillments ... ON CONFLICT DO NOTHING`. -/
def insertFulfillment (command : SettlementCommand) (at_ : Int) : Exec Bool :=
  fun _ newest _ =>
    match newest.fulfillments.row command.paymentIntentId with
    | none => Reply.wrote
        [.insertFulfillment command.paymentIntentId (fulfillmentOf command at_)] true
    | some _ => Reply.value false

def advanceToPaid (command : SettlementCommand) (at_ : Int) : Job RepositoryError Unit := do
  let attempt ← execute (updateOne (.attempt command.attemptId) (allocatableAttempt command)
    fun _ => [.setAttemptStatus command.attemptId .settled])
  requireOneRow attempt attemptNotOpen
  let intent ← execute (updateOne (.intent command.paymentIntentId) (payableIntent command)
    fun _ => [.setIntentStatus command.paymentIntentId .paid])
  requireOneRow intent intentNotPayable
  let claimed ← execute (insertFulfillment command at_)
  insertPaymentEvent command
  if claimed then
    enqueueOutbox (some command.merchantId) .paymentIntentPaid command.paymentIntentId
  else pure ()

def advanceToPartiallyPaid (command : SettlementCommand) : Job RepositoryError Unit := do
  let attempt ← execute (updateOne (.attempt command.attemptId) (allocatableAttempt command)
    fun _ => [])
  requireOneRow attempt attemptNotOpen
  let intent ← execute (updateOne (.intent command.paymentIntentId) (payableIntent command)
    fun _ => [.setIntentStatus command.paymentIntentId .partiallyPaid])
  requireOneRow intent intentNotPayable
  insertPaymentEvent command
  enqueueOutbox (some command.merchantId) .paymentIntentPartiallyPaid command.paymentIntentId

/-- The processing row, while `allocateRaw` more still fits the transfer. -/
def fittingProcessing (command : SettlementCommand) (allocateRaw : Nat) (db : Db) :
    Option ProcessingRow :=
  match db.processing.row command.transferId, db.transfers.row command.transferId with
  | some row, some transfer =>
    if row.allocatedRaw + allocateRaw ≤ transfer.amountRaw then some row else none
  | _, _ => none

/-- What the insert into `payment_allocations` did. -/
inductive Inserted where
  | inserted | conflict | notAtCollector | invalid
deriving DecidableEq, Repr

def allocationOf (command : SettlementCommand) (attempt : AttemptRow) (allocateRaw : Nat)
    (reason : AllocationReason) : AllocationRow where
  paymentIntentId := command.paymentIntentId
  merchantId := command.merchantId
  allocatedRaw := allocateRaw
  allocatedBy := settlementActor
  reason := reason
  collectorAddressId := attempt.collectorAddressId

def insertAllocation (command : SettlementCommand) (allocateRaw : Nat)
    (reason : AllocationReason) : Exec Inserted :=
  fun seen newest _ =>
    match seen.attempts.row command.attemptId with
    | none => Reply.value .conflict
    | some attempt =>
      -- the CHECK on the amount comes before the conflict target and the keys
      if allocateRaw = 0 then Reply.value .invalid
      else
        match newest.allocations.row (command.attemptId, command.transferId) with
        | some _ => Reply.value .conflict
        | none =>
          if (newest.transfers.row command.transferId).map (·.collectorAddressId) =
              some attempt.collectorAddressId then
            Reply.wrote [.insertAllocation command.attemptId command.transferId
              (allocationOf command attempt allocateRaw reason)] .inserted
          else Reply.value .notAtCollector

def allocationReason : DecisionOutcome → AllocationReason
  | .settled => .exact
  | .overpaid => .overpayRemainder
  | _ => .partialPay

def advanceBy (command : SettlementCommand) (outcome : DecisionOutcome) (at_ : Int) :
    Job RepositoryError SettlementRecord :=
  if outcome = .settled ∨ outcome = .overpaid then do
    advanceToPaid command at_
    pure (if outcome = .overpaid then .overpaid else .settled)
  else do
    advanceToPartiallyPaid command
    pure .partiallyAllocated

def finishAllocation (command : SettlementCommand) (allocateRaw remainderRaw : Nat)
    (outcome : DecisionOutcome) (at_ : Int) : Job RepositoryError SettlementRecord := do
  let record ← advanceBy command outcome at_
  recordDecision command
    { outcome, decidedReason := command.matchStrategy.asStr, allocatedRaw := allocateRaw,
      remainderRaw, decidedAt := at_ }
  if remainderRaw ≠ 0 then do
    insertPaymentEvent command
    enqueueOutbox (some command.merchantId) .overpaid command.paymentIntentId
    pure record
  else pure record

def allocateAndFinish (command : SettlementCommand) (allocateRaw remainderRaw : Nat)
    (outcome : DecisionOutcome) (at_ : Int) : Job RepositoryError SettlementRecord := do
  let owned ← claimTransfer command at_
  if !owned then pure .foreignClaim
  else do
    let allocated ← execute (updateOne (.processing command.transferId)
      (fittingProcessing command allocateRaw) fun row =>
        [.setProcessing command.transferId
          { row with
            allocatedRaw := row.allocatedRaw + allocateRaw
            processingState := if outcome = .settled then .settled else .matched }])
    if allocated = 0 then
      .fail (.corruptData "an allocation would have exceeded the transfer it belongs to")
    else do
      let insertion ← execute (insertAllocation command allocateRaw (allocationReason outcome))
      match insertion with
      | .invalid => .fail .unavailable
      | .notAtCollector => .fail (.transitionRefused transferNotAtCollector)
      -- the same transfer and attempt were already allocated: a replay
      | .conflict => pure .alreadyProcessed
      | .inserted => finishAllocation command allocateRaw remainderRaw outcome at_

def manualAllocateAndFinish (command : SettlementCommand) (allocateRaw remainderRaw : Nat)
    (outcome : DecisionOutcome) (actor reason : Text) (at_ : Int) :
    Job RepositoryError SettlementRecord := do
  let result ← allocateAndFinish command allocateRaw remainderRaw outcome at_
  if result = .foreignClaim ∨ result = .alreadyProcessed then pure result
  else do
    let _ ← execute (updateOne (.allocation command.attemptId command.transferId)
      (·.allocations.row (command.attemptId, command.transferId))
      fun _ => [.setAllocationActor command.attemptId command.transferId actor])
    let _ ← execute (updateOne (.decision command.paymentIntentId command.transferId)
      (·.decisions.row (command.paymentIntentId, command.transferId))
      fun _ => [.setDecisionActor command.paymentIntentId command.transferId actor reason])
    pure result

def applyOutcome (command : SettlementCommand) (at_ : Int) :
    Job RepositoryError SettlementRecord :=
  match command.outcome with
  | .hold reason => do
    finishWithoutMoney command .held .held reason.asStr at_
    pure .held
  | .manualRequired reason => do
    finishWithoutMoney command .held .manualRequired reason.asStr at_
    pure .manualRequired
  | .settle allocateRaw => allocateAndFinish command allocateRaw 0 .settled at_
  | .partialPay allocateRaw => allocateAndFinish command allocateRaw 0 .partialPay at_
  | .overpaid allocateRaw remainderRaw =>
    allocateAndFinish command allocateRaw remainderRaw .overpaid at_

/-- Hands a matched transfer to an operator when its payment could not take the
    money, in a fresh transaction after the refused one rolled back. -/
def parkRefused (lease : ComponentLease) (command : SettlementCommand) (refusal : Text) :
    Job RepositoryError SettlementRecord := do
  holdLease lease
  let row ← lockProcessing command.transferId
  if row.processingState ≠ .pending then do
    commit
    pure .alreadyProcessed
  else do
    let at_ ← now
    finishWithoutMoney command .held .manualRequired ("payment_not_payable: ".toList ++ refusal) at_
    commit
    pure .manualRequired

def settle (lease : ComponentLease) (command : SettlementCommand) :
    Job RepositoryError SettlementRecord :=
  Proc.transaction do
    holdLease lease
    let processing ← lockProcessing command.transferId
    if processing.processingState ≠ .pending then do
      commit
      pure .alreadyProcessed
    else do
      let at_ ← now
      match ← Proc.caught (applyOutcome command at_) with
      | .ok record => do
        commit
        pure record
      | .error (.transitionRefused reason) => do
        rollback
        parkRefused lease command reason
      | .error error => .fail error

def UnresolvedTransfer.asStr : UnresolvedTransfer → Text
  | .ambiguous _ => "ambiguous".toList
  | .unmatched => "unmatched".toList

def recordUnresolved (lease : ComponentLease) (transfer : PendingTransfer)
    (unresolved : UnresolvedTransfer) : Job RepositoryError Unit :=
  Proc.transaction do
    holdLease lease
    let _ ← execute (updateOne (.processing transfer.facts.transferId)
      (fun db => (db.processing.row transfer.facts.transferId).filter
        (·.processingState = .pending))
      fun row => [.setProcessing transfer.facts.transferId
        { row with processingState := .unmatched, lastError := some unresolved.asStr }])
    enqueueOutbox none
      (match unresolved with
        | .ambiguous _ => .ambiguousMatch
        | .unmatched => .unmatchedInbound)
      transfer.facts.transferId
    commit

end CryptoGateway
