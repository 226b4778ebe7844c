import Mathlib.Order.Bounds.Basic
import CryptoGateway.Domain.Quote
import CryptoGateway.Order.Distinct

/-!
When a quote can be planned, and how much it asks for.
-/
namespace CryptoGateway

section Rounding
variable {multiplier numerator denominator : Nat}

theorem rounding_fits (divides : 0 < denominator)
    (remains : multiplier * numerator % denominator ≠ 0) :
    multiplier * numerator / denominator + 1 ≤ multiplier * numerator := by
  have split := Nat.div_add_mod (multiplier * numerator) denominator
  have below := Nat.mod_lt (multiplier * numerator) divides
  -- a denominator of one leaves no remainder
  have wide : 2 ≤ denominator := by omega
  have twice : 2 * (multiplier * numerator / denominator) ≤
      denominator * (multiplier * numerator / denominator) := Nat.mul_le_mul_right _ wide
  omega

theorem mulDivCeil_overflow (divides : 0 < denominator) :
    RawAmount.mulDivCeil multiplier numerator denominator = .error .rawAmountOverflow ↔
      rawLimit ≤ multiplier * numerator := by
  have positive_overflow : ∀ value, RawAmount.positive value ≠ .error .rawAmountOverflow := by
    intro value
    unfold RawAmount.positive
    split <;> simp
  unfold RawAmount.mulDivCeil
  rw [if_neg divides.ne']
  split
  · rename_i excess
    exact ⟨fun _ => excess, fun _ => rfl⟩
  · rename_i fits
    refine ⟨fun overflow => ?_, fun excess => absurd excess fits⟩
    simp only at overflow
    split at overflow
    · exact absurd overflow (positive_overflow _)
    · rename_i remains
      have room := rounding_fits divides remains
      rw [if_neg (by omega)] at overflow
      exact absurd overflow (positive_overflow _)

theorem mulDivCeil_least (divides : 0 < denominator) (positive : 0 < multiplier * numerator)
    (fits : multiplier * numerator < rawLimit) :
    ∃ amount, RawAmount.mulDivCeil multiplier numerator denominator = .ok amount ∧
      IsLeast {x : Nat | multiplier * numerator ≤ x * denominator} amount := by
  have split := Nat.div_add_mod (multiplier * numerator) denominator
  have below := Nat.mod_lt (multiplier * numerator) divides
  unfold RawAmount.mulDivCeil
  rw [if_neg divides.ne', if_neg (by omega)]
  simp only
  split
  · rename_i even
    have nonzero : multiplier * numerator / denominator ≠ 0 := by
      intro zero
      rw [zero] at split
      omega
    refine ⟨_, by rw [RawAmount.positive, if_neg nonzero], ?_, fun x enough => ?_⟩
    · show _ ≤ _ * denominator
      rw [Nat.mul_comm _ denominator]
      omega
    · refine Nat.div_le_of_le_mul ?_
      rw [Nat.mul_comm denominator]
      exact enough
  · rename_i remains
    have room := rounding_fits divides remains
    rw [if_neg (by omega)]
    refine ⟨_, by rw [RawAmount.positive, if_neg (Nat.succ_ne_zero _)], ?_, fun x enough => ?_⟩
    · show _ ≤ (_ + 1) * denominator
      rw [Nat.add_mul, Nat.mul_comm _ denominator]
      omega
    · refine Nat.succ_le_of_lt ((Nat.div_lt_iff_lt_mul divides).mpr (lt_of_le_of_ne enough ?_))
      intro exact_
      exact remains (exact_ ▸ Nat.mul_mod_left x denominator)

end Rounding

section Sources

def Independent (sources : List (Option Text)) : Prop :=
  ∃ groups : List Text, sources = groups.map some ∧ 2 ≤ groups.length ∧ groups.Nodup ∧
    ∀ group ∈ groups, group ≠ []

theorem map_some_filterMap {sources : List (Option Text)}
    (named : ∀ source ∈ sources, source.isSome = true) :
    (sources.filterMap id).map some = sources := by
  induction sources with
  | nil => rfl
  | cons source rest ih =>
    obtain ⟨group, rfl⟩ := Option.isSome_iff_exists.mp (named source List.mem_cons_self)
    have tail := ih fun source mem => named source (List.mem_cons_of_mem _ mem)
    simpa using tail

theorem hasIndependentPriceSources_iff (sources : List (Option Text)) :
    hasIndependentPriceSources sources = true ↔ Independent sources := by
  simp only [hasIndependentPriceSources, Bool.and_eq_true, decide_eq_true_eq]
  constructor
  · -- each of the three filters shortens the list, so none of them dropped anything
    rintro ⟨⟨several, _⟩, all⟩
    have shorter := Distinct.length_eraseDups_le ((sources.filterMap id).filter (!·.isEmpty))
    have filtered := List.length_filter_le (!·.isEmpty) (sources.filterMap id)
    have reported := List.length_filterMap_le id sources
    have named : ∀ source ∈ sources, (id source).isSome = true :=
      List.filterMap_length_eq_length.mp (by omega)
    have nonempty : ∀ group ∈ sources.filterMap id, (!group.isEmpty) = true :=
      List.length_filter_eq_length_iff.mp (by omega)
    have distinct : ((sources.filterMap id).filter (!·.isEmpty)).Nodup :=
      Distinct.length_eraseDups_eq_length.mp (by omega)
    rw [List.filter_eq_self.mpr nonempty] at distinct
    refine ⟨sources.filterMap id, (map_some_filterMap named).symm, by omega, distinct, ?_⟩
    intro group mem
    simpa using nonempty group mem
  · rintro ⟨groups, rfl, several, distinct, nonempty⟩
    have reported : (groups.map some).filterMap id = groups := by simp
    have kept : groups.filter (!·.isEmpty) = groups := by
      refine List.filter_eq_self.mpr fun group mem => ?_
      simpa using nonempty group mem
    rw [reported, kept, Distinct.length_eraseDups_eq_length.mpr distinct, List.length_map]
    exact ⟨⟨several, several⟩, rfl⟩

end Sources

section Plans

/-- What a plan needs, with `timely` for the age of an evidence and its limit. -/
structure Plannable (timely : Int → Int → Prop) (collectorAddress : Text) (fiatMinor : Int)
    (price : PriceSnapshot) (policy : QuotePolicySnapshot) (rail : RailHealthSnapshot) (now : Int) :
    Prop where
  policyValid : validatePolicy policy = true
  priceTimely : timely price.observedAt policy.maxPriceAgeSeconds
  policyTimely : timely policy.observedAt policy.maxPolicyAgeSeconds
  railTimely : timely rail.observedAt policy.maxRailHealthAgeSeconds
  healthy : rail.health = .healthy
  addressed : 1 ≤ Text.byteLength collectorAddress ∧ Text.byteLength collectorAddress ≤ 200
  independent : Independent price.sources
  fits : fiatMinor.toNat * price.rateNumerator < rawLimit
  expires : Instant.inRange (now + policy.quoteTtlSeconds * 1000000) = true
  late : Instant.inRange (now + policy.quoteTtlSeconds * 1000000 +
    policy.latePaymentWindowSeconds * 1000000) = true

def AgeWithin (now observedAt limit : Int) : Prop :=
  0 ≤ now - observedAt ∧ now - observedAt ≤ limit * 1000000

def Timely (now observedAt limit : Int) : Prop :=
  AgeWithin now observedAt limit ∧ Instant.inRange (observedAt + limit * 1000000) = true

theorem validateAge_iff {now observedAt limit : Int} :
    validateAge now observedAt limit = true ↔ Timely now observedAt limit := by
  unfold validateAge Timely AgeWithin Instant.checkedAddSeconds
  by_cases inRange : Instant.inRange (observedAt + limit * 1000000) = true
  · simp only [inRange, ↓reduceIte, Bool.and_eq_true, decide_eq_true_eq, and_true]
    omega
  · simp [inRange]

theorem byteLength_pos {text : Text} : 1 ≤ Text.byteLength text ↔ text ≠ [] := by
  cases text with
  | nil => simp [Text.byteLength]
  | cons c rest =>
    have := Char.utf8Size_pos c
    simp only [Text.byteLength, List.map_cons, List.sum_cons, ne_eq, reduceCtorEq,
      not_false_eq_true,
      iff_true]
    omega

section Build
variable {quoteId attemptId merchantId intentId assetId collectorId : Id} {collectorAddress : Text}
  {fiat : FiatAmount} {price : PriceSnapshot} {policy : QuotePolicySnapshot}
  {rail : RailHealthSnapshot} {now : Int}

theorem validatePolicy_positive (valid : validatePolicy policy = true) :
    0 < policy.quoteTtlSeconds ∧ 0 < policy.latePaymentWindowSeconds := by
  simp only [validatePolicy, Bool.and_eq_true, decide_eq_true_eq] at valid
  exact ⟨valid.1.1.1.1.1.1.2, valid.1.1.1.1.1.2⟩

theorem Plannable.build (plannable : Plannable (Timely now) collectorAddress fiat.minorUnits price
      policy rail now) (paid : 0 < fiat.minorUnits) (numerator : 0 < price.rateNumerator)
    (denominator : 0 < price.rateDenominator) :
    ∃ plan, QuotePlan.build quoteId attemptId merchantId intentId assetId collectorId
        collectorAddress fiat (some price) (some policy) (some rail) now = .ok plan ∧
      IsLeast {x : Nat | fiat.minorUnits.toNat * price.rateNumerator ≤ x * price.rateDenominator}
        plan.baseAmountRaw ∧
      plan.createdAt < plan.expiresAt ∧ plan.expiresAt < plan.latePaymentUntil := by
  obtain ⟨valid, priceAge, policyAge, railAge, healthy, addressed, independent, fits, expires,
    late⟩ := plannable
  have product : 0 < fiat.minorUnits.toNat * price.rateNumerator :=
    Nat.mul_pos (by omega) numerator
  obtain ⟨amount, rounded, least⟩ := mulDivCeil_least denominator product fits
  obtain ⟨ttl, window⟩ := validatePolicy_positive valid
  have address : ¬(collectorAddress.isEmpty || decide
    (200 < Text.byteLength collectorAddress)) = true := by
    simp only [Bool.or_eq_true, List.isEmpty_iff, decide_eq_true_eq, not_or, not_lt]
    exact ⟨byteLength_pos.mp addressed.1, addressed.2⟩
  obtain ⟨plan, built, base, created, expiry, lateness⟩ :
      ∃ plan, QuotePlan.build quoteId attemptId merchantId intentId assetId collectorId
          collectorAddress fiat (some price) (some policy) (some rail) now = .ok plan ∧
        plan.baseAmountRaw = amount ∧ plan.createdAt = now ∧
        plan.expiresAt = now + policy.quoteTtlSeconds * 1000000 ∧
        plan.latePaymentUntil = now + policy.quoteTtlSeconds * 1000000 +
          policy.latePaymentWindowSeconds * 1000000 := by
    simp only [QuotePlan.build, Option.elim, bind, Except.bind, valid, validateAge_iff.mpr priceAge,
      validateAge_iff.mpr policyAge, validateAge_iff.mpr railAge, healthy,
      (hasIndependentPriceSources_iff _).mpr independent, Bool.not_true, Bool.false_eq_true,
      ↓reduceIte, ne_eq, not_true_eq_false, address, Int.not_lt.mpr paid.le, rounded,
      Except.mapError, Instant.checkedAddSeconds, expires, late]
    exact ⟨_, rfl, rfl, rfl, rfl, rfl⟩
  exact ⟨plan, built, base ▸ least, by omega, by omega⟩

theorem checkedAddSeconds_some {t u seconds : Int}
    (added : Instant.checkedAddSeconds t seconds = some u) :
    u = t + seconds * 1000000 ∧ Instant.inRange (t + seconds * 1000000) = true := by
  unfold Instant.checkedAddSeconds at added
  split at added
  · rename_i fits
    exact ⟨(Option.some.inj added).symm, fits⟩
  · cases added

theorem elim_eq_ok {ε α : Type} {found : Option α} {error : ε} {value : α}
    (ok : found.elim (.error error) .ok = Except.ok value) : found = some value := by
  cases found with
  | none => cases ok
  | some a => cases ok; rfl

theorem plannable_of_build {prices : Option PriceSnapshot} {policies : Option QuotePolicySnapshot}
    {rails : Option RailHealthSnapshot} {plan : QuotePlan}
    (positive : ∀ price, prices = some price → 0 < price.rateNumerator ∧ 0 < price.rateDenominator)
    (built : QuotePlan.build quoteId attemptId merchantId intentId assetId collectorId
      collectorAddress fiat prices policies rails now = .ok plan) :
    ∃ price policy rail, prices = some price ∧ policies = some policy ∧ rails = some rail ∧
      Plannable (Timely now) collectorAddress fiat.minorUnits price policy rail now := by
  unfold QuotePlan.build at built
  rcases prices with _ | price
  · cases built
  rcases policies with _ | policy
  · cases built
  rcases rails with _ | rail
  · cases built
  simp only [Option.elim_some, bind, Except.bind] at built
  refine ⟨price, policy, rail, rfl, rfl, rfl, ?_⟩
  repeat' split at built
  all_goals cases built
  rename_i valid priceAge policyAge railAge healthy address independent _ _ _ rounded _ _ expires
    _ _ late
  obtain ⟨rfl, expiryFits⟩ := checkedAddSeconds_some (elim_eq_ok expires)
  obtain ⟨rfl, lateFits⟩ := checkedAddSeconds_some (elim_eq_ok late)
  simp only [Bool.not_eq_true', Bool.not_eq_false] at valid priceAge policyAge railAge independent
  simp only [Bool.or_eq_true, List.isEmpty_iff, decide_eq_true_eq, not_or, not_lt] at address
  refine ⟨valid, validateAge_iff.mp priceAge, validateAge_iff.mp policyAge,
    validateAge_iff.mp railAge, not_not.mp healthy, ⟨byteLength_pos.mpr address.1, address.2⟩,
    (hasIndependentPriceSources_iff _).mp independent, ?_, expiryFits, lateFits⟩
  refine Nat.lt_of_not_le fun excess => ?_
  rw [(mulDivCeil_overflow (positive price rfl).2).mpr excess] at rounded
  cases rounded

/-- The plan of a quote asks for the least sufficient amount, the product is the only thing
    that can overflow, and a plan exists exactly where every condition is met. -/
theorem quote_asks_least (quoteId attemptId merchantId intentId assetId collectorId : Id)
    (collectorAddress : Text) (fiat : FiatAmount) (prices : Option PriceSnapshot)
    (policies : Option QuotePolicySnapshot) (rails : Option RailHealthSnapshot) (now : Int)
    (paid : 0 < fiat.minorUnits)
    (positive : ∀ price, prices = some price → 0 < price.rateNumerator ∧
      0 < price.rateDenominator) :
    (∀ multiplier numerator denominator, 0 < denominator →
      (RawAmount.mulDivCeil multiplier numerator denominator = .error .rawAmountOverflow ↔
        rawLimit ≤ multiplier * numerator)) ∧
    ((∃ plan, QuotePlan.build quoteId attemptId merchantId intentId assetId collectorId
        collectorAddress fiat prices policies rails now = .ok plan) ↔
      ∃ price policy rail, prices = some price ∧ policies = some policy ∧ rails = some rail ∧
        Plannable (Timely now) collectorAddress fiat.minorUnits price policy rail now) ∧
    ∀ plan, QuotePlan.build quoteId attemptId merchantId intentId assetId collectorId
        collectorAddress fiat prices policies rails now = .ok plan →
      (∃ price, prices = some price ∧ IsLeast {x : Nat |
        fiat.minorUnits.toNat * price.rateNumerator ≤ x * price.rateDenominator}
          plan.baseAmountRaw) ∧
      plan.createdAt < plan.expiresAt ∧ plan.expiresAt < plan.latePaymentUntil := by
  refine ⟨fun _ _ _ divides => mulDivCeil_overflow divides, ⟨?_, ?_⟩, ?_⟩
  · rintro ⟨plan, built⟩
    exact plannable_of_build positive built
  · rintro ⟨price, policy, rail, rfl, rfl, rfl, plannable⟩
    obtain ⟨numerator, denominator⟩ := positive price rfl
    obtain ⟨plan, built, _⟩ := plannable.build paid numerator denominator
    exact ⟨plan, built⟩
  · intro plan built
    obtain ⟨price, policy, rail, rfl, rfl, rfl, plannable⟩ := plannable_of_build positive built
    obtain ⟨numerator, denominator⟩ := positive price rfl
    obtain ⟨plan', built', least, deadlines⟩ := plannable.build paid numerator denominator
    cases built.symm.trans built'
    exact ⟨⟨price, rfl, least⟩, deadlines⟩

end Build

namespace Sample

def snapshot : PriceSnapshot where
  id := 1
  rateNumerator := 7
  rateDenominator := 2
  sources := [some "a".toList, some "b".toList]
  observedAt := 0

/-- A policy whose price may be `priceAge` seconds old. -/
def agePolicy (priceAge : Int) : QuotePolicySnapshot where
  id := 2
  version := "1".toList
  quoteTtlSeconds := 900
  latePaymentWindowSeconds := 3600
  amountSlotCount := 10
  maxPriceAgeSeconds := priceAge
  maxPolicyAgeSeconds := 60
  maxRailHealthAgeSeconds := 60
  observedAt := 0

def healthyRail : RailHealthSnapshot := ⟨3, .healthy, 0⟩

def dollar : FiatAmount := ⟨"USD".toList, 101⟩

theorem plannable {timely : Int → Int → Prop} {priceAge : Int} (valid : 0 ≤ priceAge)
    (price : timely 0 priceAge) (other : timely 0 60) :
    Plannable timely "T".toList dollar.minorUnits snapshot (agePolicy priceAge) healthyRail 0 where
  policyValid := by simp [validatePolicy, agePolicy, valid, maxAmountSlotCount]; rfl
  priceTimely := price
  policyTimely := other
  railTimely := other
  healthy := rfl
  addressed := by decide
  independent := ⟨["a".toList, "b".toList], rfl, by decide, by decide, by decide⟩
  fits := by decide
  expires := rfl
  late := rfl

def planned (priceAge : Int) : Except QuoteError QuotePlan :=
  QuotePlan.build 1 2 3 4 5 6 "T".toList dollar (some snapshot) (some (agePolicy priceAge))
    (some healthyRail) 0

end Sample

open Sample in
/-- A limit that no timestamp can be moved by refuses a price that was read just now. -/
theorem quote_refused_by_far_limit :
    Plannable (AgeWithin 0) "T".toList dollar.minorUnits snapshot (agePolicy 1000000000000)
      healthyRail 0 ∧ planned 1000000000000 = .error .stalePrice := by
  refine ⟨plannable (by decide) ⟨by decide, by decide⟩ ⟨by decide, by decide⟩, ?_⟩
  decide

open Sample in
theorem quote_asks_least_dollar : ∃ plan, planned 60 = .ok plan ∧ plan.baseAmountRaw = 354 ∧
    plan.createdAt < plan.expiresAt := by
  have least := quote_asks_least 1 2 3 4 5 6 "T".toList dollar (some snapshot)
    (some (agePolicy 60)) (some healthyRail) 0 (by decide) (by rintro _ ⟨⟩; decide)
  have timely : Timely 0 0 60 := ⟨⟨by decide, by decide⟩, by decide⟩
  obtain ⟨plan, built⟩ := least.2.1.mpr ⟨_, _, _, rfl, rfl, rfl, plannable (by decide)
    timely timely⟩
  obtain ⟨⟨_, ⟨⟩, enough⟩, deadlines⟩ := least.2.2 plan built
  refine ⟨plan, built, ?_, deadlines.1⟩
  exact IsLeast.unique enough ⟨by decide, fun x mem => by
    have : 101 * 7 ≤ x * 2 := mem
    omega⟩

end Plans
end CryptoGateway
