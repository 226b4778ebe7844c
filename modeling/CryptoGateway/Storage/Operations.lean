import CryptoGateway.Storage.Settlement
import CryptoGateway.Storage.Quotes

/-!
`gateway-storage/src/operations.rs`: rail stops and manual resolutions.
-/
namespace CryptoGateway
open Engine

inductive OperatorScope where
  | ingest | riskIngest | read | admin
deriving DecidableEq, Repr

structure OperatorCredential where
  keyId : Id
  label : Text
  scopes : List OperatorScope
deriving DecidableEq, Repr

inductive OperationsError where
  | missingScope (scope : OperatorScope)
  | noOpenRailStop
  | reasonRequired
  | invalidIdempotencyKey
  | invalidManualResolution
  | manualResolutionConflict
  | manualResolutionNotFound
  | dualControlRequired
  | honorProposalNotFound
  | honorProposalNotPending
  | honorProposalExpired
  | sameOperator
  | invalidRiskEvaluation
  | riskProviderNotAllowed
  | repository (error : RepositoryError)
deriving DecidableEq, Repr

structure ManualResolutionResult where
  id : Id
  action : ManualResolutionAction
  transferId : Id
  paymentIntentId : Option Id
  attemptId : Option Id
  merchantId : Option Id
  allocatedRaw : Option Nat
  remainderRaw : Option Nat
  replayed : Bool
deriving DecidableEq, Repr

/-- `INSERT INTO rail_stops ... ON CONFLICT DO NOTHING`: one open stop an asset. -/
def insertRailStop (id : Id) (row : RailStopRow) : Exec Bool :=
  fun _ newest _ =>
    if (newest.railStops.row id).isSome || (newest.openRailStop row.assetId).isSome then
      Reply.value false
    else Reply.wrote [.insertRailStop id row] true

def openRailStop (assetId : Id) (reasonCode openedBy : Text) :
    Job RepositoryError (Id × RailStopRow) := do
  let id ← uuid
  let row := { assetId, reasonCode, openedBy, cleared := false : RailStopRow }
  let inserted ← execute (insertRailStop id row)
  commit
  if inserted then pure (id, row)
  else do
    let stop ← select (·.openRailStop assetId)
    orFail (.corruptData "a rail stop conflicted with nothing that is open") stop

def clearOpenRailStops (assetId : Id) : Exec Nat :=
  fun seen newest _ =>
    let isOpen (db : Db) (id : Id) : Bool :=
      (db.railStops.row id).any fun row => row.assetId = assetId && !row.cleared
    let ids := seen.railStops.keys.filter fun id => isOpen seen id && isOpen newest id
    Reply.wrote (ids.map .clearRailStop) ids.length

def clearRailStop (assetId : Id) : Job RepositoryError Bool := do
  let cleared ← execute (clearOpenRailStops assetId)
  commit
  pure (decide (0 < cleared))

/-- `INSERT INTO payment_risk_evaluations ... ON CONFLICT (transfer_id, provider,
    evaluated_at) DO NOTHING`: the evaluation that was submitted first stays. -/
def insertRiskEvaluation (id : Id) (row : RiskRow) : Exec (Option RepositoryError) :=
  fun _ newest _ =>
    if newest.riskEvaluations.entries.any fun e => e.2.transferId = row.transferId &&
        e.2.provider = row.provider && e.2.evaluatedAt = row.evaluatedAt then Reply.value none
    else if (newest.riskEvaluations.row id).isSome ||
      (newest.transfers.row row.transferId).isNone then
      Reply.value (some .unavailable)
    else Reply.wrote [.insertRiskEvaluation id row] none

def recordRiskEvaluation (submission : RiskRow) : Job RepositoryError Id := do
  let id ← uuid
  orViolation (insertRiskEvaluation id submission)
  commit
  pure id

structure ManualHonorRow where
  merchantId : Id
  fiatAmountMinor : Int
  expectedRaw : Nat
  attemptAllocatedRaw : Nat
  transferRaw : Nat
  transferAllocatedRaw : Nat
  finality : TransferState
  processingState : ProcessingState
  boundToAttempt : Bool
  attemptStatus : AttemptStatus
  intentStatus : PaymentIntentStatus
  withinLateWindow : Bool
deriving DecidableEq, Repr

/-- The row an honor is decided on. The attempt, the intent and the processing
    row come from `rows`; the subquery and the other joined tables from `seen`. -/
def honorRow (transferId attemptId intentId : Id) (seen rows : Db) : Option ManualHonorRow := do
  let attempt ← rows.attempts.row attemptId
  let intent ← rows.intents.row intentId
  let processing ← rows.processing.row transferId
  let quote ← seen.quotes.row attempt.quoteId
  let asset ← seen.catalog.assets quote.plan.assetId
  let transfer ← seen.transfers.row transferId
  let state ← seen.transferStates.row transferId
  if attempt.paymentIntentId = intentId ∧ intent.merchantId = attempt.merchantId ∧
      quote.plan.paymentIntentId = intentId ∧ quote.plan.merchantId = attempt.merchantId ∧
      quote.plan.collectorAddressId = attempt.collectorAddressId then
    some
      { merchantId := intent.merchantId
        fiatAmountMinor := intent.amountMinor
        expectedRaw := attempt.expectedAmountRaw
        attemptAllocatedRaw := seen.allocatedTo attemptId
        transferRaw := transfer.amountRaw
        transferAllocatedRaw := processing.allocatedRaw
        finality := state.state
        processingState := processing.processingState
        boundToAttempt := transfer.collectorAddressId = attempt.collectorAddressId &&
          transfer.assetId = quote.plan.assetId && transfer.event.chain = asset.chain &&
          transfer.event.network = asset.network &&
          transfer.event.chainEnvironment = asset.chainEnvironment
        attemptStatus := attempt.status
        intentStatus := intent.status
        withinLateWindow := decide (transfer.blockTime < attempt.latePaymentUntil) }
  else none

/-- `FOR UPDATE OF a,i,p`. -/
def honorRowForUpdate (transferId attemptId intentId : Id) : Exec (Option ManualHonorRow) :=
  fun seen newest _ =>
    match honorRow transferId attemptId intentId seen seen,
        honorRow transferId attemptId intentId seen newest with
    | some _, some row => Reply.locked
        [(.attempt attemptId, .update), (.intent intentId, .update),
          (.processing transferId, .update)] (some row)
    | _, _ => Reply.value none

structure HonorPlan where
  row : ManualHonorRow
  outcome : SettlementOutcome
  outcomeName : DecisionOutcome
  allocate : Nat
  remainder : Nat
deriving DecidableEq, Repr

def honorIsBound (row : ManualHonorRow) : Bool :=
  row.boundToAttempt && row.attemptStatus ∈ [AttemptStatus.awaitingPayment, .expired] &&
    row.intentStatus ∈ [PaymentIntentStatus.awaitingPayment, .partiallyPaid, .riskHold, .expired] &&
    row.withinLateWindow

/-- What an honor of `allocate` would do to the locked row. -/
def honorPlan (row : ManualHonorRow) (allocate : Nat) : Except OperationsError HonorPlan :=
  if row.finality ≠ .finalized ∨
      row.processingState ∉ [ProcessingState.held, .unmatched] then
    .error .manualResolutionConflict
  else if !honorIsBound row then .error .manualResolutionConflict
  else if row.expectedRaw < row.attemptAllocatedRaw then .error .manualResolutionConflict
  else if row.transferRaw < row.transferAllocatedRaw then .error .manualResolutionConflict
  else
    let outstanding := row.expectedRaw - row.attemptAllocatedRaw
    let available := row.transferRaw - row.transferAllocatedRaw
    if allocate ≠ min outstanding available then .error .manualResolutionConflict
    else
      let remainder := available - allocate
      let completes := allocate = outstanding
      .ok
        (if completes ∧ remainder ≠ 0 then
          { row, outcome := .overpaid allocate remainder, outcomeName := .overpaid, allocate,
            remainder }
        else if completes then
          { row, outcome := .settle allocate, outcomeName := .settled, allocate, remainder }
        else
          { row, outcome := .partialPay allocate, outcomeName := .partialPay, allocate,
            remainder })

def planHonor (resolution : ManualResolution) : Job OperationsError HonorPlan := do
  let intentId ← orFail .invalidManualResolution resolution.paymentIntentId
  let attemptId ← orFail .invalidManualResolution resolution.attemptId
  let allocate ← orFail .invalidManualResolution resolution.allocateRaw
  let row ← Proc.stmt (some (.allocated attemptId))
    (honorRowForUpdate resolution.transferId attemptId intentId) .done
  let row ← orFail .manualResolutionNotFound row
  match honorPlan row allocate with
  | .error error => .fail error
  | .ok plan => pure plan

def loadResolution (operator : Id) (key : Text) (hash : Digest) (replayed : Bool) :
    Job OperationsError ManualResolutionResult := do
  let row ← select (·.resolutions.row (operator, key))
  let row ← orFail (.repository .unavailable) row
  if row.requestHash ≠ hash then .fail (.repository .idempotencyConflict)
  else
    pure
      { id := row.id, action := row.action, transferId := row.transferId,
        paymentIntentId := row.paymentIntentId, attemptId := row.attemptId,
        merchantId := row.merchantId, allocatedRaw := row.allocatedRaw,
        remainderRaw := row.remainderRaw, replayed }

def resolutionRow (id : Id) (credential : OperatorCredential) (hash : Digest)
    (resolution : ManualResolution) (merchantId : Option Id) (allocated remainder : Option Nat)
    (at_ : Int) : ResolutionRow :=
  { id, requestHash := hash, action := resolution.action, transferId := resolution.transferId,
    paymentIntentId := resolution.paymentIntentId, attemptId := resolution.attemptId, merchantId,
    allocatedRaw := allocated, remainderRaw := remainder, disposition := resolution.disposition,
    externalReference := resolution.externalReference, reason := resolution.reason,
    actorLabel := credential.label, createdAt := at_ }

/-- `INSERT INTO manual_resolution_requests ... ON CONFLICT DO NOTHING` on the key;
    `none` is a violation of the primary key. -/
def insertResolutionRow (operator : Id) (key : Text) (row : ResolutionRow) :
    Exec (Option Bool) :=
  fun _ newest _ =>
    match newest.resolutions.row (operator, key) with
    | some _ => Reply.value (some false)
    | none =>
      if newest.resolutions.entries.any (·.2.id = row.id) then Reply.value none
      else Reply.wrote [.insertResolution operator key row] (some true)

/-- The stored result when the key is spent already, nothing when it is now. -/
def insertResolution (credential : OperatorCredential) (key : Text) (hash : Digest)
    (resolution : ManualResolution) (merchantId : Option Id) (allocated remainder : Option Nat)
    (at_ : Int) : Job OperationsError (Option ManualResolutionResult) := do
  let id ← uuid
  match ← execute (insertResolutionRow credential.keyId key
    (resolutionRow id credential hash resolution merchantId allocated remainder at_)) with
  | none => .fail (.repository .unavailable)
  | some true => pure none
  | some false => do
    let replay ← loadResolution credential.keyId key hash true
    pure (some replay)

def settlementError : RepositoryError → OperationsError
  | .transitionRefused _ => .manualResolutionConflict
  | other => .repository other

def honorCommand (resolution : ManualResolution) (attemptId intentId : Id) (plan : HonorPlan) :
    SettlementCommand where
  transferId := resolution.transferId
  attemptId := attemptId
  paymentIntentId := intentId
  merchantId := plan.row.merchantId
  fiatAmountMinor := plan.row.fiatAmountMinor
  matchStrategy := .manual
  outcome := plan.outcome

def honorTransfer (credential : OperatorCredential) (key : Text) (hash : Digest)
    (resolution : ManualResolution) (at_ : Int) : Job OperationsError ManualResolutionResult := do
  let intentId ← orFail .invalidManualResolution resolution.paymentIntentId
  let attemptId ← orFail .invalidManualResolution resolution.attemptId
  let plan ← planHonor resolution
  let replay ← insertResolution credential key hash resolution (some plan.row.merchantId)
    (some plan.allocate) (if plan.remainder = 0 then none else some plan.remainder) at_
  match replay with
  | some replay => pure replay
  | none => do
    let record ← (manualAllocateAndFinish (honorCommand resolution attemptId intentId plan)
      plan.allocate plan.remainder plan.outcomeName credential.label resolution.reason
      at_).mapError settlementError
    if record = .foreignClaim ∨ record = .alreadyProcessed then .fail .manualResolutionConflict
    else loadResolution credential.keyId key hash false

/-- `FOR UPDATE OF p`: the current state is read as of the statement's start. -/
def rejectableForUpdate (transferId : Id) : Exec (Option (TransferState × ProcessingState)) :=
  fun seen newest _ =>
    match seen.transferStates.row transferId, seen.processing.row transferId,
        newest.processing.row transferId with
    | some state, some _, some row =>
      Reply.locked [(.processing transferId, .update)] (some (state.state, row.processingState))
    | _, _, _ => Reply.value none

def rejectTransfer (credential : OperatorCredential) (key : Text) (hash : Digest)
    (resolution : ManualResolution) (at_ : Int) : Job OperationsError ManualResolutionResult := do
  let state ← execute (rejectableForUpdate resolution.transferId)
  let state ← orFail .manualResolutionNotFound state
  if state.1 ≠ .finalized ∨ state.2 ∉ [ProcessingState.held, .unmatched] then
    .fail .manualResolutionConflict
  else do
    let hasAllocation ← select fun db =>
      db.allocations.entries.any (·.1.2 = resolution.transferId)
    if hasAllocation then .fail .manualResolutionConflict
    else do
      match ← insertResolution credential key hash resolution none none none at_ with
      | some replay => pure replay
      | none => do
        let _ ← setProcessing resolution.transferId fun row =>
          { row with processingState := .resolved, lastError := some resolution.reason }
        loadResolution credential.keyId key hash false

def insertDisposition (transferId intentId : Id) (row : DispositionRow) : Exec Bool :=
  fun _ newest _ =>
    match newest.dispositions.row (transferId, intentId) with
    | none => Reply.wrote [.insertDisposition transferId intentId row] true
    | some _ => Reply.value false

def overpaidDecision (transferId intentId : Id) (db : Db) : Option DecisionRow :=
  (db.decisions.row (intentId, transferId)).filter (·.outcome = .overpaid)

def recordExternalDisposition (credential : OperatorCredential) (key : Text) (hash : Digest)
    (resolution : ManualResolution) (at_ : Int) : Job OperationsError ManualResolutionResult := do
  let intentId ← orFail .invalidManualResolution resolution.paymentIntentId
  let remainder ← orFail .invalidManualResolution resolution.remainderRaw
  let disposition ← orFail .invalidManualResolution resolution.disposition
  let decision ← execute (forUpdate (.decision intentId resolution.transferId)
    (overpaidDecision resolution.transferId intentId))
  let decision ← orFail .manualResolutionNotFound decision
  if decision.remainderRaw = 0 then .fail (.repository (.corruptData "amount must be positive"))
  else if decision.remainderRaw ≠ remainder then .fail .manualResolutionConflict
  else do
    match ← insertResolution credential key hash resolution (some decision.merchantId) none
      (some remainder) at_ with
    | some replay => pure replay
    | none => do
      let stored ← select (·.resolutions.row (credential.keyId, key))
      let stored ← orFail (.repository .unavailable) stored
      let inserted ← execute (insertDisposition resolution.transferId intentId
        { resolutionId := stored.id, merchantId := decision.merchantId, remainderRaw := remainder,
          disposition, externalReference := resolution.externalReference,
          recordedBy := credential.keyId, reason := resolution.reason })
      if !inserted then .fail .manualResolutionConflict
      else do
        let closed ← execute (updateOne (.processing resolution.transferId)
          (fun db => (db.processing.row resolution.transferId).filter
            (·.processingState = .matched))
          fun row => [.setProcessing resolution.transferId
            { row with processingState := .resolved, lastError := none }])
        if closed ≠ 1 then .fail .manualResolutionConflict
        else loadResolution credential.keyId key hash false

def lockResolutionScope (operator : Id) (key : Text) : Job OperationsError Unit :=
  execute fun _ _ _ => Reply.locked [(.resolutionScope operator key, .update)] ()

def decideManual (credential : OperatorCredential) (key : Text) (hash : Digest)
    (resolution : ManualResolution) (at_ : Int) : Job OperationsError ManualResolutionResult :=
  match resolution.action with
  | .honor => honorTransfer credential key hash resolution at_
  | .reject => rejectTransfer credential key hash resolution at_
  | .recordRemainderDisposition => recordExternalDisposition credential key hash resolution at_

def resolveManualInStore (credential : OperatorCredential) (key : Text) (hash : Digest)
    (resolution : ManualResolution) (at_ : Int) : Job OperationsError ManualResolutionResult :=
  Proc.transaction do
    lockResolutionScope credential.keyId key
    let exists_ ← select fun db => (db.resolutions.row (credential.keyId, key)).isSome
    if exists_ then do
      let replay ← loadResolution credential.keyId key hash true
      commit
      pure replay
    else do
      let result ← decideManual credential key hash resolution at_
      commit
      pure result

end CryptoGateway
