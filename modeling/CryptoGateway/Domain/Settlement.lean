import Mathlib.Data.List.Sort
import CryptoGateway.Domain.Money

/-!
Which attempt a verified transfer pays, and what may be done with the money.
-/
namespace CryptoGateway

inductive AttemptStatus where
  | awaitingPayment | expired | cancelled | settled
deriving DecidableEq, Repr

structure AttemptCandidate where
  attemptId : Id
  paymentIntentId : Id
  merchantId : Id
  collectorAddressId : Id
  expectedAmountRaw : Nat
  memoReference : Option Memo
  leasedFrom : Int
  leasedUntil : Int
  quoteExpiresAt : Int
  status : AttemptStatus
deriving DecidableEq, Repr

structure TransferFacts where
  transferId : Id
  collectorAddressId : Id
  amountRaw : Nat
  memo : Option Memo
  blockTime : Int
  state : TransferState
deriving DecidableEq, Repr

inductive MatchStrategy where
  | memo | exactAmount | historicalSlot | manual
deriving DecidableEq, Repr

inductive ManualResolutionAction where
  | honor | reject | recordRemainderDisposition
deriving DecidableEq, Repr

inductive RemainderDisposition where
  | refundedExternally | creditedExternally | donatedExternally | retainedByAgreement
deriving DecidableEq, Repr

inductive MatchOutcome where
  | matched (attemptId paymentIntentId : Id) (strategy : MatchStrategy) (late : Bool)
  | ambiguous (attemptIds : List Id)
  | unmatched
deriving DecidableEq, Repr

def matched (candidate : AttemptCandidate) (strategy : MatchStrategy) (transfer : TransferFacts) :
    MatchOutcome :=
  .matched candidate.attemptId candidate.paymentIntentId strategy
    (!(candidate.status = .awaitingPayment || candidate.status = .expired) ||
      decide (candidate.quoteExpiresAt ≤ transfer.blockTime))

def ambiguous (candidates : List AttemptCandidate) : MatchOutcome :=
  .ambiguous ((candidates.map (·.attemptId)).insertionSort (· ≤ ·))

/-- The attempt's lease held the transfer's amount at the transfer's block time. -/
def AttemptCandidate.ownsSlot (candidate : AttemptCandidate) (transfer : TransferFacts) : Bool :=
  candidate.expectedAmountRaw = transfer.amountRaw &&
    decide (candidate.leasedFrom ≤ transfer.blockTime) &&
    decide (transfer.blockTime < candidate.leasedUntil)

def matchBySlot (transfer : TransferFacts) (onAddress : List AttemptCandidate) : MatchOutcome :=
  match onAddress.filter fun c => c.ownsSlot transfer && c.status = .awaitingPayment with
  | [single] => matched single .exactAmount transfer
  | [] =>
    match onAddress.filter (·.ownsSlot transfer) with
    | [single] => matched single .historicalSlot transfer
    | [] => .unmatched
    | many => ambiguous many
  | many => ambiguous many

def matchTransfer (transfer : TransferFacts) (candidates : List AttemptCandidate) : MatchOutcome :=
  let onAddress := candidates.filter (·.collectorAddressId = transfer.collectorAddressId)
  match transfer.memo with
  | none => matchBySlot transfer onAddress
  | some memo =>
    match onAddress.filter (·.memoReference = some memo) with
    | [single] => matched single .memo transfer
    | [] => matchBySlot transfer onAddress
    | many => ambiguous many

variable {transfer : TransferFacts} {attempt intent : Id} {strategy : MatchStrategy}

theorem matchBySlot_matched {onAddress : List AttemptCandidate} {late : Bool}
    (found : matchBySlot transfer onAddress = .matched attempt intent strategy late) :
    ∃ c ∈ onAddress, c.attemptId = attempt ∧ c.paymentIntentId = intent ∧
      c.ownsSlot transfer = true := by
  unfold matchBySlot at found
  split at found
  · rename_i single filtered
    have mem : single ∈ onAddress.filter _ := filtered ▸ List.mem_singleton_self single
    simp only [List.mem_filter, Bool.and_eq_true] at mem
    simp only [matched, MatchOutcome.matched.injEq] at found
    exact ⟨single, mem.1, found.1, found.2.1, mem.2.1⟩
  · split at found
    · rename_i single filtered
      have mem : single ∈ onAddress.filter _ := filtered ▸ List.mem_singleton_self single
      simp only [List.mem_filter] at mem
      simp only [matched, MatchOutcome.matched.injEq] at found
      exact ⟨single, mem.1, found.1, found.2.1, mem.2⟩
    · cases found
    · simp [ambiguous] at found
  · simp [ambiguous] at found

theorem matchBySlot_automatic {onAddress : List AttemptCandidate} {late : Bool}
    (found : matchBySlot transfer onAddress = .matched attempt intent strategy late) :
    strategy ≠ .manual := by
  unfold matchBySlot at found
  split at found
  · cases found; decide
  · split at found <;> cases found
    decide
  · cases found

theorem matchTransfer_automatic {candidates : List AttemptCandidate} {late : Bool}
    (found : matchTransfer transfer candidates = .matched attempt intent strategy late) :
    strategy ≠ .manual := by
  unfold matchTransfer at found
  split at found
  · exact matchBySlot_automatic found
  · simp only at found
    split at found
    · cases found; decide
    · exact matchBySlot_automatic found
    · cases found

theorem matchTransfer_matched {candidates : List AttemptCandidate}
    (noMemo : ∀ c ∈ candidates, c.memoReference = none) {late : Bool}
    (found : matchTransfer transfer candidates = .matched attempt intent strategy late) :
    ∃ c ∈ candidates, c.attemptId = attempt ∧ c.paymentIntentId = intent ∧
      c.collectorAddressId = transfer.collectorAddressId ∧ c.ownsSlot transfer = true := by
  have bySlot : matchBySlot transfer
      (candidates.filter (·.collectorAddressId = transfer.collectorAddressId)) =
      .matched attempt intent strategy late := by
    unfold matchTransfer at found
    split at found
    · exact found
    · rename_i memo _
      have empty : (candidates.filter (·.collectorAddressId = transfer.collectorAddressId)).filter
          (·.memoReference = some memo) = [] := by
        simp only [List.filter_eq_nil_iff, List.mem_filter, and_imp]
        intro c mem _
        simp [noMemo c mem]
      simp only [empty] at found
      exact found
  obtain ⟨c, mem, sameAttempt, sameIntent, owns⟩ := matchBySlot_matched bySlot
  simp only [List.mem_filter, decide_eq_true_eq] at mem
  exact ⟨c, mem.1, sameAttempt, sameIntent, mem.2, owns⟩

inductive RiskDecision where
  | allow | review | deny | skipped
deriving DecidableEq, Repr

structure SettlementTier where
  maxFiatMinor : Int
  minIndependentGroups : Nat
  requireOwnNode : Bool
  requireRiskAllow : Bool
  autoSettle : Bool
deriving DecidableEq, Repr

structure SettlementPolicy where
  id : Id
  version : Text
  tiers : List SettlementTier
deriving DecidableEq, Repr

/-- The first band of the smallest ceiling that covers the amount. -/
def SettlementPolicy.tierFor (policy : SettlementPolicy) (fiatMinor : Int) :
    Option SettlementTier :=
  (policy.tiers.filter fun tier => decide (fiatMinor ≤ tier.maxFiatMinor)).foldl
    (fun best tier =>
      match best with
      | none => some tier
      | some b => if tier.maxFiatMinor < b.maxFiatMinor then some tier else some b) none

structure SettlementEvidence where
  fiatAmountMinor : Int
  expectedAmountRaw : Nat
  alreadyAllocatedRaw : Nat
  transferAmountRaw : Nat
  transferState : TransferState
  independentGroups : Nat
  hadOwnNode : Bool
  risk : RiskDecision
  attemptStatus : AttemptStatus
  late : Bool
deriving DecidableEq, Repr

inductive HoldReason where
  | notFinal | invalidated | riskDenied | alreadyCovered | cancelled
deriving DecidableEq, Repr

inductive ManualReason where
  | aboveAutomaticBand | notEnoughIndependentGroups | ownNodeRequired | riskReview | latePayment
  | uncoveredAmount
deriving DecidableEq, Repr

inductive SettlementOutcome where
  | settle (allocateRaw : Nat)
  | partialPay (allocateRaw : Nat)
  | overpaid (allocateRaw remainderRaw : Nat)
  | hold (reason : HoldReason)
  | manualRequired (reason : ManualReason)
deriving DecidableEq, Repr

inductive SettlementError where
  | amountOverflow
deriving DecidableEq, Repr

def decideAmount (evidence : SettlementEvidence) : Except SettlementError SettlementOutcome :=
  let expected := evidence.expectedAmountRaw
  let allocated := evidence.alreadyAllocatedRaw
  let arriving := evidence.transferAmountRaw
  if expected < allocated then .ok (.hold .alreadyCovered)
  else
    let outstanding := expected - allocated
    if outstanding = 0 then .ok (.hold .alreadyCovered)
    else if outstanding < arriving then do
      let allocate ← (RawAmount.positive outstanding).mapError fun _ => .amountOverflow
      let remainder ← (RawAmount.positive (arriving - outstanding)).mapError fun _ =>
        .amountOverflow
      .ok (.overpaid allocate remainder)
    else if arriving = outstanding then .ok (.settle arriving)
    else .ok (.partialPay arriving)

def decideSettlement (evidence : SettlementEvidence) (policy : SettlementPolicy) :
    Except SettlementError SettlementOutcome :=
  if evidence.transferState = .invalidated then .ok (.hold .invalidated)
  else if evidence.transferState ≠ .finalized then .ok (.hold .notFinal)
  else if evidence.attemptStatus = .cancelled then .ok (.hold .cancelled)
  else if evidence.risk = .deny then .ok (.hold .riskDenied)
  else
    match policy.tierFor evidence.fiatAmountMinor with
    | none => .ok (.manualRequired .uncoveredAmount)
    | some tier =>
      if !tier.autoSettle then .ok (.manualRequired .aboveAutomaticBand)
      else if evidence.independentGroups < tier.minIndependentGroups then
        .ok (.manualRequired .notEnoughIndependentGroups)
      else if tier.requireOwnNode && !evidence.hadOwnNode then
        .ok (.manualRequired .ownNodeRequired)
      else if tier.requireRiskAllow && evidence.risk ≠ .allow then
        .ok (.manualRequired .riskReview)
      else if evidence.late then .ok (.manualRequired .latePayment)
      else decideAmount evidence

namespace SettlementOutcome

def moves : SettlementOutcome → Bool
  | .hold _ => false
  | .manualRequired _ => false
  | _ => true

def completes : SettlementOutcome → Bool
  | .settle _ => true
  | .overpaid _ _ => true
  | _ => false

def allocateRaw : SettlementOutcome → Nat
  | .settle allocateRaw => allocateRaw
  | .partialPay allocateRaw => allocateRaw
  | .overpaid allocateRaw _ => allocateRaw
  | _ => 0

def remainderRaw : SettlementOutcome → Nat
  | .overpaid _ remainderRaw => remainderRaw
  | _ => 0

end SettlementOutcome

variable {outcome : SettlementOutcome}

/-- The outcome that moves `available` towards `outstanding`. -/
inductive Takes (outstanding available : Nat) : SettlementOutcome → Prop where
  | settle (full : available = outstanding) (open_ : 0 < outstanding) :
      Takes outstanding available (.settle available)
  | overpaid (more : outstanding < available) (open_ : 0 < outstanding) :
      Takes outstanding available (.overpaid outstanding (available - outstanding))
  | partialPay (less : available < outstanding) :
      Takes outstanding available (.partialPay available)

theorem Takes.allocate_le {outstanding available : Nat}
    (takes : Takes outstanding available outcome) : outcome.allocateRaw ≤ outstanding := by
  cases takes with
  | settle full => exact le_of_eq full
  | overpaid => exact le_rfl
  | partialPay less => exact less.le

theorem Takes.completes_eq {outstanding available : Nat}
    (takes : Takes outstanding available outcome) (completes : outcome.completes = true) :
    outcome.allocateRaw = outstanding := by
  cases takes with
  | settle full => exact full
  | overpaid => rfl
  | partialPay => cases completes

theorem decideAmount_moves {evidence : SettlementEvidence}
    (decided : decideAmount evidence = .ok outcome) (moves : outcome.moves = true) :
    Takes (evidence.expectedAmountRaw - evidence.alreadyAllocatedRaw)
      evidence.transferAmountRaw outcome := by
  simp only [decideAmount] at decided
  split at decided
  · cases decided; cases moves
  · split at decided
    · cases decided; cases moves
    · rename_i open_
      split at decided
      · rename_i more
        have rest : evidence.transferAmountRaw -
          (evidence.expectedAmountRaw - evidence.alreadyAllocatedRaw) ≠ 0 := by omega
        simp only [RawAmount.positive, open_, ↓reduceIte, rest, Except.mapError, bind,
          Except.bind, Except.ok.injEq] at decided
        subst decided
        exact .overpaid more (by omega)
      · split at decided
        · rename_i full
          cases decided
          exact .settle full (by omega)
        · cases decided
          exact .partialPay (by omega)

theorem decideSettlement_moves {evidence : SettlementEvidence} {policy : SettlementPolicy}
    (decided : decideSettlement evidence policy = .ok outcome)
    (moves : outcome.moves = true) : evidence.transferState = .finalized ∧ evidence.risk ≠ .deny ∧
      Takes (evidence.expectedAmountRaw - evidence.alreadyAllocatedRaw)
        evidence.transferAmountRaw outcome := by
  unfold decideSettlement at decided
  repeat' split at decided
  all_goals first
    | (cases decided; cases moves)
    | skip
  rename_i final _ allowed _ _ _ _ _ _ _ _
  exact ⟨by simpa using final, allowed, decideAmount_moves decided moves⟩

end CryptoGateway
