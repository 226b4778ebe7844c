import CryptoGateway.Domain.Money

/-!
The plan of one quote: the evidence it was built from and the window it opens.
-/
namespace CryptoGateway

inductive RailHealth where
  | healthy | degraded | unavailable
deriving DecidableEq, Repr

/-- `sources` lists the provider group each source names, if it names one. -/
structure PriceSnapshot where
  id : Id
  rateNumerator : Nat
  rateDenominator : Nat
  sources : List (Option Text)
  observedAt : Int
deriving DecidableEq, Repr

structure QuotePolicySnapshot where
  id : Id
  version : Text
  quoteTtlSeconds : Int
  latePaymentWindowSeconds : Int
  amountSlotCount : Nat
  maxPriceAgeSeconds : Int
  maxPolicyAgeSeconds : Int
  maxRailHealthAgeSeconds : Int
  observedAt : Int
deriving DecidableEq, Repr

structure RailHealthSnapshot where
  id : Id
  health : RailHealth
  observedAt : Int
deriving DecidableEq, Repr

structure QuotePlan where
  quoteId : Id
  attemptId : Id
  merchantId : Id
  paymentIntentId : Id
  assetId : Id
  collectorAddressId : Id
  collectorAddress : Text
  priceSnapshotId : Id
  quotePolicyId : Id
  railHealthSnapshotId : Id
  fiatAmount : FiatAmount
  baseAmountRaw : Nat
  rateNumerator : Nat
  rateDenominator : Nat
  priceSources : List (Option Text)
  priceObservedAt : Int
  policyVersion : Text
  policyObservedAt : Int
  maxPriceAgeSeconds : Int
  maxPolicyAgeSeconds : Int
  maxRailHealthAgeSeconds : Int
  railHealthObservedAt : Int
  amountSlotCount : Nat
  createdAt : Int
  expiresAt : Int
  latePaymentUntil : Int
deriving DecidableEq, Repr

inductive QuoteError where
  | unknownPrice | unknownPolicy | unknownRailHealth | stalePrice | stalePolicy | staleRailHealth
  | unhealthyRail | invalidPriceSources | invalidCollectorAddress | invalidPolicy
  | money (error : MoneyError)
deriving DecidableEq, Repr

def maxAmountSlotCount : Nat := 10000

def validatePolicy (policy : QuotePolicySnapshot) : Bool :=
  !policy.version.isEmpty && decide (Text.byteLength policy.version ≤ 100) &&
    decide (0 < policy.quoteTtlSeconds) && decide (0 < policy.latePaymentWindowSeconds) &&
    decide (1 ≤ policy.amountSlotCount) && decide (policy.amountSlotCount ≤ maxAmountSlotCount) &&
    decide (0 ≤ policy.maxPriceAgeSeconds) && decide (0 ≤ policy.maxPolicyAgeSeconds) &&
    decide (0 ≤ policy.maxRailHealthAgeSeconds)

/-- A reading from the future, or one whose deadline cannot be computed, is as
    unusable as one that is past it. -/
def validateAge (now observedAt : Int) (maxAgeSeconds : Int) : Bool :=
  match Instant.checkedAddSeconds observedAt maxAgeSeconds with
  | none => false
  | some deadline => decide (observedAt ≤ now) && decide (now ≤ deadline)

def hasIndependentPriceSources (sources : List (Option Text)) : Bool :=
  let groups := ((sources.filterMap id).filter (!·.isEmpty)).eraseDups
  decide (2 ≤ sources.length) && decide (2 ≤ groups.length) &&
    decide (groups.length = sources.length)

def QuotePlan.build (quoteId attemptId merchantId paymentIntentId assetId collectorAddressId : Id)
    (collectorAddress : Text) (fiatAmount : FiatAmount) (price : Option PriceSnapshot)
    (policy : Option QuotePolicySnapshot) (rail : Option RailHealthSnapshot) (now : Int) :
    Except QuoteError QuotePlan := do
  let price ← price.elim (.error .unknownPrice) .ok
  let policy ← policy.elim (.error .unknownPolicy) .ok
  let rail ← rail.elim (.error .unknownRailHealth) .ok
  if !validatePolicy policy then .error .invalidPolicy
  else if !validateAge now price.observedAt policy.maxPriceAgeSeconds then .error .stalePrice
  else if !validateAge now policy.observedAt policy.maxPolicyAgeSeconds then .error .stalePolicy
  else if !validateAge now rail.observedAt policy.maxRailHealthAgeSeconds then
    .error .staleRailHealth
  else if rail.health ≠ .healthy then .error .unhealthyRail
  else if collectorAddress.isEmpty || decide (200 < Text.byteLength collectorAddress) then
    .error .invalidCollectorAddress
  else if !hasIndependentPriceSources price.sources then .error .invalidPriceSources
  else if fiatAmount.minorUnits < 0 then .error .invalidPolicy
  else
    let base ← (RawAmount.mulDivCeil fiatAmount.minorUnits.toNat price.rateNumerator
      price.rateDenominator).mapError .money
    let expiresAt ← (Instant.checkedAddSeconds now policy.quoteTtlSeconds).elim
      (.error .invalidPolicy) .ok
    let latePaymentUntil ← (Instant.checkedAddSeconds expiresAt
      policy.latePaymentWindowSeconds).elim (.error .invalidPolicy) .ok
    .ok
      { quoteId, attemptId, merchantId, paymentIntentId, assetId, collectorAddressId,
        collectorAddress, priceSnapshotId := price.id, quotePolicyId := policy.id,
        railHealthSnapshotId := rail.id, fiatAmount, baseAmountRaw := base,
        rateNumerator := price.rateNumerator, rateDenominator := price.rateDenominator,
        priceSources := price.sources, priceObservedAt := price.observedAt,
        policyVersion := policy.version, policyObservedAt := policy.observedAt,
        maxPriceAgeSeconds := policy.maxPriceAgeSeconds,
        maxPolicyAgeSeconds := policy.maxPolicyAgeSeconds,
        maxRailHealthAgeSeconds := policy.maxRailHealthAgeSeconds,
        railHealthObservedAt := rail.observedAt, amountSlotCount := policy.amountSlotCount,
        createdAt := now, expiresAt, latePaymentUntil }

end CryptoGateway
