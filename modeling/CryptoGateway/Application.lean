import CryptoGateway.Storage.HonorProposals
import CryptoGateway.Storage.Verification

/-!
The services of `gateway-application` over the repositories, and the requests
and workers that run them.
-/
namespace CryptoGateway
open Engine

def isWhiteSpace (c : Char) : Bool :=
  let n := c.toNat
  (9 ≤ n && n ≤ 13) || n = 0x20 || n = 0x85 || n = 0xa0 || n = 0x1680 ||
    (0x2000 ≤ n && n ≤ 0x200a) || n = 0x2028 || n = 0x2029 || n = 0x202f || n = 0x205f ||
    n = 0x3000

def Text.trim (text : Text) : Text :=
  ((text.dropWhile isWhiteSpace).reverse.dropWhile isWhiteSpace).reverse

def validateIdempotencyKey (key : Text) : Bool :=
  decide (16 ≤ Text.byteLength key) && decide (Text.byteLength key ≤ 128) &&
    key.all fun c => c.isAlphanum || c = '-' || c = '_'

inductive ServiceError where
  | invalidIdempotencyKey | notFound | invalidCancellationReason
  | money (error : MoneyError)
  | paymentIntent (error : PaymentIntentError)
  | repository (error : RepositoryError)
deriving DecidableEq, Repr

structure CreatePaymentIntent where
  amountMinor : Text
  currency : Text
  reference : Text
  description : Option Text
  metadata : Text
deriving DecidableEq, Repr

def liftExcept {ε δ β : Type} (wrap : ε → δ) : Except ε β → Job δ β
  | .error e => .fail (wrap e)
  | .ok b => pure b

def createIntent (merchantId : Id) (key : Text) (input : CreatePaymentIntent) :
    Job ServiceError IdempotentCreate :=
  if !validateIdempotencyKey key then .fail .invalidIdempotencyKey
  else do
    let currency ← liftExcept .money (CurrencyCode.new input.currency)
    let amount ← liftExcept .money (FiatAmount.parsePositive currency input.amountMinor)
    let id ← uuid
    let intent ← liftExcept .paymentIntent (PaymentIntent.create id merchantId amount
      input.reference input.description input.metadata)
    (createIdempotently intent key (.create input.amountMinor input.currency input.reference
      input.description input.metadata)).mapError .repository

def cancelIntent (merchantId : Id) (key : Text) (intentId : Id) (reason : Option Text) :
    Job ServiceError IdempotentCreate :=
  if !validateIdempotencyKey key then .fail .invalidIdempotencyKey
  else
    let reason := (reason.map Text.trim).filter (!·.isEmpty)
    if reason.any fun text => decide (500 < text.length) then .fail .invalidCancellationReason
    else do
      let result ← (cancelIdempotently merchantId intentId key
        (.cancel intentId reason)).mapError .repository
      orFail .notFound result

inductive QuoteServiceError where
  | invalidIdempotencyKey | paymentIntentNotFound | invalidExpiryBatchLimit
  | railStopped (reason : Text)
  | capacityExhausted
  | quote (error : QuoteError)
  | repository (error : RepositoryError)
deriving DecidableEq, Repr

structure IssueQuote where
  paymentIntentId : Id
  assetId : Id
deriving DecidableEq, Repr

def maxCollectorAttempts : Nat := 8

/-- Tries the merchant's addresses in turn; each plan reads the clock anew. -/
def issueOnCandidates (merchantId : Id) (key : Text) (input : IssueQuote) (intent : IntentRow)
    (context : QuoteContext) :
    List CollectorCandidate → Option RepositoryError → Job QuoteServiceError IdempotentQuote
  | [], lastRefusal => .fail (.repository (lastRefusal.getD .collectorUnavailable))
  | candidate :: rest, _ => do
    let at_ ← Proc.clock (some .planned) .done
    let quoteId ← uuid
    let attemptId ← uuid
    let plan ← liftExcept .quote (QuotePlan.build quoteId attemptId merchantId
      input.paymentIntentId input.assetId candidate.id candidate.address
      { currency := intent.currency, minorUnits := intent.amountMinor } context.price
      context.policy context.railHealth at_)
    match ← Proc.caught (issueQuoteIdempotently plan key
      (.quote input.paymentIntentId input.assetId)) with
    | .ok quote => pure quote
    | .error .amountSlotsExhausted =>
      issueOnCandidates merchantId key input intent context rest (some .amountSlotsExhausted)
    | .error .collectorUnavailable =>
      issueOnCandidates merchantId key input intent context rest (some .collectorUnavailable)
    | .error error => .fail (.repository error)

def issueQuote (maxOpenLeases : Option Nat) (merchantId : Id) (key : Text) (input : IssueQuote) :
    Job QuoteServiceError IdempotentQuote :=
  if !validateIdempotencyKey key then .fail .invalidIdempotencyKey
  else do
    let replay ← (findQuoteReplay merchantId key
      (.quote input.paymentIntentId input.assetId)).mapError .repository
    match replay with
    | some quote => pure (.replayed quote)
    | none => do
      let intent ← (findById merchantId input.paymentIntentId).mapError .repository
      let intent ← orFail .paymentIntentNotFound intent
      let context ← (loadQuoteContext merchantId input.assetId intent.currency).mapError
        .repository
      match context.railStopReason with
      | some reason => .fail (.railStopped reason)
      | none =>
        let admitted := (context.candidates.filter fun candidate =>
          maxOpenLeases.all fun limit => decide (candidate.openLeases < limit)).take
          maxCollectorAttempts
        if admitted.isEmpty then .fail .capacityExhausted
        else issueOnCandidates merchantId key input intent context admitted none

def expireDue (limit : Nat) : Job QuoteServiceError ExpiryResult :=
  if limit = 0 ∨ 10000 < limit then .fail .invalidExpiryBatchLimit
  else do
    let at_ ← Proc.clock (some .swept) .done
    (expireQuotesAndArchiveLeases at_ limit).mapError .repository

inductive SettlementServiceError where
  | invalidBatchLimit
  | settlement (error : SettlementError)
  | repository (error : RepositoryError)
deriving DecidableEq, Repr

inductive Handled where
  | recorded (record : SettlementRecord)
  | missingPolicy | ambiguous | unmatched
deriving DecidableEq, Repr

def settleMatch (order : RowOrder Id) (lease : ComponentLease) (transfer : PendingTransfer)
    (attemptId : Id) (strategy : MatchStrategy) (late : Bool) :
    Job SettlementServiceError Handled := do
  let attempt ← (attemptSnapshot attemptId).mapError .repository
  let attempt ← orFail (.repository (.corruptData
    "a matched attempt disappeared between matching and settling")) attempt
  match ← (findSettlementPolicy attempt.currency).mapError .repository with
  | none => pure .missingPolicy
  | some policy => do
    let risk ← (latestRisk order transfer.facts.transferId).mapError .repository
    let outcome ← liftExcept .settlement (decideSettlement
      { fiatAmountMinor := attempt.fiatAmountMinor
        expectedAmountRaw := attempt.expectedAmountRaw
        alreadyAllocatedRaw := attempt.allocatedRaw
        transferAmountRaw := transfer.facts.amountRaw
        transferState := transfer.facts.state
        independentGroups := transfer.independentGroups
        hadOwnNode := transfer.hadOwnNode
        risk
        attemptStatus := attempt.status
        late } policy)
    let record ← (settle lease
      { transferId := transfer.facts.transferId
        attemptId := attempt.attemptId
        paymentIntentId := attempt.paymentIntentId
        merchantId := attempt.merchantId
        fiatAmountMinor := attempt.fiatAmountMinor
        matchStrategy := strategy
        outcome }).mapError .repository
    pure (.recorded record)

def settleTransfer (order : RowOrder Id) (lease : ComponentLease) (transfer : PendingTransfer) :
    Job SettlementServiceError Handled := do
  let candidates ← (matchCandidates transfer.facts).mapError .repository
  match matchTransfer transfer.facts candidates with
  | .matched attemptId _ strategy late => settleMatch order lease transfer attemptId strategy late
  | .ambiguous attemptIds => do
    (recordUnresolved lease transfer (.ambiguous attemptIds)).mapError .repository
    pure .ambiguous
  | .unmatched => do
    (recordUnresolved lease transfer .unmatched).mapError .repository
    pure .unmatched

def settleTransfers (order : RowOrder Id) (lease : ComponentLease) :
    List PendingTransfer → Job SettlementServiceError (List Handled)
  | [] => pure []
  | transfer :: rest => do
    let handled ← settleTransfer order lease transfer
    let others ← settleTransfers order lease rest
    pure (handled :: others)

structure SettlementReport where
  examined : Nat
  settled : Nat
  partialPay : Nat
  overpaid : Nat
  held : Nat
  manualRequired : Nat
  ambiguous : Nat
  unmatched : Nat
  foreignClaim : Nat
  alreadyProcessed : Nat
  missingPolicy : Nat
deriving DecidableEq, Repr

/-- The counters of one pass. A batch is at most 1000 transfers, so the code's
    saturating counters never saturate. -/
def SettlementReport.of (handled : List Handled) : SettlementReport where
  examined := handled.length
  settled := handled.count (.recorded .settled)
  partialPay := handled.count (.recorded .partiallyAllocated)
  overpaid := handled.count (.recorded .overpaid)
  held := handled.count (.recorded .held)
  manualRequired := handled.count (.recorded .manualRequired)
  ambiguous := handled.count .ambiguous
  unmatched := handled.count .unmatched
  foreignClaim := handled.count (.recorded .foreignClaim)
  alreadyProcessed := handled.count (.recorded .alreadyProcessed)
  missingPolicy := handled.count .missingPolicy

def settlePending (order : RowOrder Id) (lease : ComponentLease) (limit : Nat) :
    Job SettlementServiceError SettlementReport :=
  if limit = 0 ∨ 1000 < limit then .fail .invalidBatchLimit
  else do
    let transfers ← (transfersAwaitingSettlement limit).mapError .repository
    let handled ← settleTransfers order lease transfers
    pure (.of handled)

def OperatorCredential.allows (credential : OperatorCredential) (scope : OperatorScope) : Bool :=
  scope ∈ credential.scopes

def validateReason (reason : Text) : Bool :=
  decide (1 ≤ Text.byteLength (Text.trim reason)) &&
    decide (Text.byteLength (Text.trim reason) ≤ 1000)

def validateManualResolution (resolution : ManualResolution) : Bool :=
  match resolution.action with
  | .honor =>
    resolution.paymentIntentId.isSome && resolution.attemptId.isSome &&
      resolution.allocateRaw.any (· ≠ 0) && resolution.remainderRaw.isNone &&
      resolution.disposition.isNone && resolution.externalReference.isNone
  | .reject =>
    resolution.paymentIntentId.isNone && resolution.attemptId.isNone &&
      resolution.allocateRaw.isNone && resolution.remainderRaw.isNone &&
      resolution.disposition.isNone && resolution.externalReference.isNone
  | .recordRemainderDisposition =>
    resolution.paymentIntentId.isSome && resolution.attemptId.isNone &&
      resolution.allocateRaw.isNone && resolution.remainderRaw.any (· ≠ 0) &&
      resolution.disposition.isSome && resolution.externalReference.any fun reference =>
        decide (1 ≤ Text.byteLength (Text.trim reference)) &&
          decide (Text.byteLength (Text.trim reference) ≤ 200)

def manualResolutionHash (resolution : ManualResolution) : Digest :=
  .resolution resolution.action resolution.transferId resolution.paymentIntentId
    resolution.attemptId resolution.allocateRaw resolution.remainderRaw resolution.disposition
    (resolution.externalReference.getD []) resolution.reason

structure HonorApprovalPolicy where
  dualControlMinRaw : Nat := 0
deriving DecidableEq, Repr

def HonorApprovalPolicy.requiresSecondOperator (policy : HonorApprovalPolicy)
    (allocateRaw : Nat) : Bool :=
  decide (policy.dualControlMinRaw ≤ allocateRaw)

def honorProposalTtlSeconds : Int := 24 * 3600

def requireManual (credential : OperatorCredential) (key reason : Text) :
    Job OperationsError Unit :=
  if !credential.allows .admin then .fail (.missingScope .admin)
  else if !validateIdempotencyKey key then .fail .invalidIdempotencyKey
  else if !validateReason reason then .fail .reasonRequired
  else pure ()

def resolveManual (policy : HonorApprovalPolicy) (credential : OperatorCredential) (key : Text)
    (resolution : ManualResolution) : Job OperationsError ManualResolutionResult := do
  requireManual credential key resolution.reason
  if !validateManualResolution resolution then .fail .invalidManualResolution
  else if resolution.action = .honor ∧
      resolution.allocateRaw.any policy.requiresSecondOperator then
    .fail .dualControlRequired
  else do
    let at_ ← now
    resolveManualInStore credential key (manualResolutionHash resolution) resolution at_

def proposeHonor (policy : HonorApprovalPolicy) (credential : OperatorCredential) (key : Text)
    (resolution : ManualResolution) : Job OperationsError (Id × ProposalRow) := do
  requireManual credential key resolution.reason
  if resolution.action ≠ .honor then .fail .invalidManualResolution
  else if !validateManualResolution resolution then .fail .invalidManualResolution
  else do
    let at_ ← now
    let expiresAt ← orFail .invalidManualResolution
      (Instant.checkedAddSeconds at_ honorProposalTtlSeconds)
    proposeHonorInStore credential key (manualResolutionHash resolution) resolution
      policy.dualControlMinRaw at_ expiresAt

def approveHonor (credential : OperatorCredential) (proposalId : Id) (key reason : Text) :
    Job OperationsError ManualResolutionResult := do
  requireManual credential key reason
  let at_ ← now
  approveHonorInStore credential proposalId key reason at_

def rejectHonor (credential : OperatorCredential) (proposalId : Id) (key reason : Text) :
    Job OperationsError ProposalRow := do
  requireManual credential key reason
  let at_ ← now
  rejectHonorInStore credential proposalId key reason at_

def openRail (credential : OperatorCredential) (assetId : Id) (reasonCode : Text) :
    Job OperationsError (Id × RailStopRow) :=
  if !credential.allows .admin then .fail (.missingScope .admin)
  else if (Text.trim reasonCode).isEmpty then .fail .reasonRequired
  else (openRailStop assetId reasonCode credential.label).mapError .repository

def clearRail (credential : OperatorCredential) (assetId : Id) (reason : Text) :
    Job OperationsError Unit :=
  if !credential.allows .admin then .fail (.missingScope .admin)
  else if (Text.trim reason).isEmpty then .fail .reasonRequired
  else do
    let cleared ← (clearRailStop assetId).mapError .repository
    if cleared then pure () else .fail .noOpenRailStop

def submitRiskEvaluation (credential : OperatorCredential) (submission : RiskRow) :
    Job OperationsError Id :=
  if !credential.allows .riskIngest then .fail (.missingScope .riskIngest)
  else if (Text.trim submission.provider).isEmpty ||
      decide (100 < Text.byteLength (Text.trim submission.provider)) ||
      decide (Text.trim submission.provider ≠ submission.provider) then
    .fail .invalidRiskEvaluation
  else do
    let at_ ← now
    let earliest ← orFail .invalidRiskEvaluation (Instant.checkedAddSeconds at_ (-3600))
    let latest ← orFail .invalidRiskEvaluation (Instant.checkedAddSeconds at_ 30)
    if submission.evaluatedAt < earliest ∨ latest < submission.evaluatedAt then
      .fail .invalidRiskEvaluation
    else do
      let allowed ← select (·.catalog.riskProviders credential.keyId submission.provider)
      if allowed then (recordRiskEvaluation submission).mapError .repository
      else .fail .riskProviderNotAllowed

end CryptoGateway
