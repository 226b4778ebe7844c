import CryptoGateway.Domain.Price
import CryptoGateway.Order.Median
import Mathlib.Data.List.Pairwise
import Mathlib.Data.Nat.Cast.Field
import Mathlib.Data.Rat.Floor
import Mathlib.Tactic.FieldSimp
import Mathlib.Tactic.Ring

/-!
The rational numbers behind the terms of rates: what a comparison, the deviation and the
median compute where no product overflows.
-/
namespace CryptoGateway

def PriceReading.rate (reading : PriceReading) : ℚ :=
  reading.rateNumerator / reading.rateDenominator

def AggregatedPrice.rate (price : AggregatedPrice) : ℚ :=
  price.rateNumerator / price.rateDenominator

structure PriceReading.Positive (reading : PriceReading) : Prop where
  numerator : 0 < reading.rateNumerator
  denominator : 0 < reading.rateDenominator

theorem PriceReading.Positive.rate_pos {reading : PriceReading} (positive : reading.Positive) :
    0 < reading.rate := by
  have numerator : (0 : ℚ) < reading.rateNumerator := by exact_mod_cast positive.numerator
  have denominator : (0 : ℚ) < reading.rateDenominator := by exact_mod_cast positive.denominator
  exact div_pos numerator denominator

namespace Price

section Rates
variable {left right : PriceReading}

def Comparable (left right : PriceReading) : Prop :=
  left.rateNumerator * right.rateDenominator < rawLimit ∧
    right.rateNumerator * left.rateDenominator < rawLimit

theorem Comparable.symm (fits : Comparable left right) : Comparable right left := ⟨fits.2, fits.1⟩

theorem rate_le_iff (positive : left.Positive) (other : right.Positive) : left.rate ≤ right.rate ↔
      left.rateNumerator * right.rateDenominator ≤ right.rateNumerator * left.rateDenominator := by
  have denominator : (0 : ℚ) < left.rateDenominator := by exact_mod_cast positive.denominator
  have denominator' : (0 : ℚ) < right.rateDenominator := by exact_mod_cast other.denominator
  rw [PriceReading.rate, PriceReading.rate, div_le_div_iff₀ denominator denominator']
  exact_mod_cast Iff.rfl

theorem compare_iff (positive : left.Positive) (other : right.Positive)
    (fits : Comparable left right) : compare left right ≠ .gt ↔ left.rate ≤ right.rate := by
  rw [rate_le_iff positive other]
  simp only [compare, checked, if_pos fits.1, if_pos fits.2]
  rw [Ne, Nat.compare_eq_gt, not_lt]

def spread (lowest highest : ℚ) : Nat := ⌈(highest - lowest) * bpsScale / lowest⌉₊

theorem ceil_div (n : Nat) {d : Nat} (positive : 0 < d) :
    ⌈(n : ℚ) / d⌉₊ = if n % d = 0 then n / d else n / d + 1 := by
  refine eq_of_forall_ge_iff fun k => ?_
  have cast : (0 : ℚ) < d := by exact_mod_cast positive
  have below : ⌈(n : ℚ) / d⌉₊ ≤ k ↔ n ≤ k * d := by
    rw [Nat.ceil_le, div_le_iff₀ cast]
    exact_mod_cast Iff.rfl
  rw [below]
  by_cases exact_ : n % d = 0
  · rw [if_pos exact_]
    exact ((Nat.div_le_iff_le_mul_of_dvd positive.ne' (Nat.dvd_of_mod_eq_zero exact_)).trans
      (by rw [Nat.mul_comm])).symm
  · rw [if_neg exact_, Nat.succ_le_iff, Nat.div_lt_iff_lt_mul positive]
    have ne : n ≠ k * d := fun eq => exact_ (eq ▸ Nat.mul_mod_left k d)
    exact ⟨fun le => lt_of_le_of_ne le ne, le_of_lt⟩

theorem spread_rate (positive : left.Positive) (other : right.Positive) :
    spread left.rate right.rate = ⌈(((right.rateNumerator * left.rateDenominator -
        left.rateNumerator * right.rateDenominator) * bpsScale : Nat) : ℚ) /
          (left.rateNumerator * right.rateDenominator : Nat)⌉₊ := by
  by_cases below : left.rate ≤ right.rate
  · have le := (rate_le_iff positive other).mp below
    have numerator : (left.rateNumerator : ℚ) ≠ 0 := by exact_mod_cast positive.numerator.ne'
    have denominator : (left.rateDenominator : ℚ) ≠ 0 := by exact_mod_cast positive.denominator.ne'
    have denominator' : (right.rateDenominator : ℚ) ≠ 0 := by exact_mod_cast other.denominator.ne'
    unfold spread PriceReading.rate
    congr 1
    push_cast [Nat.cast_sub le]
    field_simp
  · have above : right.rateNumerator * left.rateDenominator <
        left.rateNumerator * right.rateDenominator := by
      have not_le := mt (rate_le_iff positive other).mpr below
      omega
    have negative : (right.rate - left.rate) * bpsScale / left.rate ≤ 0 := by
      refine div_nonpos_of_nonpos_of_nonneg ?_ positive.rate_pos.le
      refine mul_nonpos_of_nonpos_of_nonneg ?_ (Nat.cast_nonneg _)
      linarith [not_le.mp below]
    rw [Nat.sub_eq_zero_of_le above.le, spread, Nat.ceil_eq_zero.mpr negative]
    simp

theorem orOverflow_checked (n : Nat) :
    orOverflow (checked n) = if n < rawLimit then .ok n else .error .overflow := by
  unfold checked
  split <;> rfl

theorem ok_bind {ε α β : Type} (a : α) (next : α → Except ε β) :
    (Except.ok a : Except ε α) >>= next = next a := rfl

/-- The products `deviation_bps` forms fit. -/
structure Measurable (lowest highest : PriceReading) : Prop where
  cross : Comparable lowest highest
  scaled : (highest.rateNumerator * lowest.rateDenominator -
    lowest.rateNumerator * highest.rateDenominator) * bpsScale < rawLimit

theorem scaled_eq (difference : Nat) {low : Nat} (positive : 0 < low) :
    (if difference = 0 then pure 0
      else do
        let numerator ← orOverflow (checked (difference * bpsScale))
        let (quotient, remainder) ← checkedDivMod numerator low
        let rounded ← if remainder = 0 then pure quotient else orOverflow (checked (quotient + 1))
        if rounded ≤ maxU32 then pure rounded else .error .overflow) =
      if difference * bpsScale < rawLimit ∧
        ⌈((difference * bpsScale : Nat) : ℚ) / low⌉₊ ≤ maxU32 then
        Except.ok ⌈((difference * bpsScale : Nat) : ℚ) / low⌉₊
      else .error PriceAggregationError.overflow := by
  rw [ceil_div _ positive]
  by_cases none : difference = 0
  · have small : 0 < rawLimit := by decide
    simp [none, small]
    rfl
  rw [if_neg none, orOverflow_checked]
  by_cases fits : difference * bpsScale < rawLimit
  swap
  · rw [if_neg fits, if_neg fun both => fits both.1]
    rfl
  rw [if_pos fits, ok_bind, checkedDivMod, if_neg positive.ne', ok_bind]
  simp only [fits, true_and]
  by_cases whole : difference * bpsScale % low = 0
  · simp only [if_pos whole]
    rfl
  · -- a divisor that leaves a remainder is at least two, so the quotient can grow by one
    have two : 1 < low := by
      by_contra one
      have : low = 1 := by omega
      exact whole (this ▸ Nat.mod_one _)
    have positive : 0 < difference * bpsScale := Nat.pos_of_ne_zero fun zero => whole
      (by simp [zero])
    have quotient : difference * bpsScale / low + 1 < rawLimit :=
      lt_of_le_of_lt (Nat.div_lt_self positive two) fits
    simp only [if_neg whole, orOverflow_checked, if_pos quotient]
    rfl

open Classical in
theorem deviationBps_eq (positive : left.Positive) (other : right.Positive) :
    deviationBps left right =
      if Measurable left right ∧ spread left.rate right.rate ≤ maxU32 then
        .ok (spread left.rate right.rate)
      else .error .overflow := by
  have low : 0 < left.rateNumerator * right.rateDenominator :=
    Nat.mul_pos positive.numerator other.denominator
  unfold deviationBps
  by_cases first : right.rateNumerator * left.rateDenominator < rawLimit
  swap
  · rw [orOverflow_checked, if_neg first, if_neg fun fits => first fits.1.cross.2]
    rfl
  by_cases second : left.rateNumerator * right.rateDenominator < rawLimit
  swap
  · rw [if_neg fun fits => second fits.1.cross.1, orOverflow_checked, if_pos first,
      orOverflow_checked, if_neg second]
    rfl
  rw [orOverflow_checked, if_pos first, orOverflow_checked, if_pos second, ok_bind, ok_bind]
  refine (scaled_eq _ low).trans ?_
  rw [← spread_rate positive other]
  refine if_congr ⟨fun both => ⟨⟨⟨second, first⟩, both.1⟩, both.2⟩, fun both =>
    ⟨both.1.scaled, both.2⟩⟩
    rfl rfl

def reduce (n d : Nat) : Nat × Nat :=
  (n / greatestCommonDivisor n d, d / greatestCommonDivisor n d)

theorem greatestCommonDivisor_eq {n : Nat} (d : Nat) (positive : 0 < n) :
    greatestCommonDivisor n d = Nat.gcd n d := if_neg (Nat.gcd_pos_of_pos_left d positive).ne'

theorem reduce_coprime {n : Nat} (d : Nat) (positive : 0 < n) :
    Nat.Coprime (reduce n d).1 (reduce n d).2 := by
  rw [reduce, greatestCommonDivisor_eq d positive]
  exact Nat.coprime_div_gcd_div_gcd (Nat.gcd_pos_of_pos_left d positive)

theorem reduce_pos {n d : Nat} (numerator : 0 < n) (denominator : 0 < d) :
    0 < (reduce n d).1 ∧ 0 < (reduce n d).2 := by
  rw [reduce, greatestCommonDivisor_eq d numerator]
  exact ⟨Nat.div_gcd_pos_of_pos_left d numerator, Nat.div_gcd_pos_of_pos_right n denominator⟩

theorem reduce_rate {n : Nat} (d : Nat) (positive : 0 < n) :
    ((reduce n d).1 : ℚ) / (reduce n d).2 = n / d := by
  rw [reduce, greatestCommonDivisor_eq d positive]
  have divisor : ((Nat.gcd n d : Nat) : ℚ) ≠ 0 := by
    exact_mod_cast (Nat.gcd_pos_of_pos_left d positive).ne'
  rw [Nat.cast_div (Nat.gcd_dvd_left n d) divisor, Nat.cast_div (Nat.gcd_dvd_right n d) divisor,
    div_div_div_cancel_right₀ divisor]

def meanTerms (left right : PriceReading) : Nat × Nat :=
  (left.rateNumerator * right.rateDenominator + right.rateNumerator * left.rateDenominator,
    left.rateDenominator * right.rateDenominator * 2)

theorem meanTerms_pos (positive : left.Positive) (other : right.Positive) :
    0 < (meanTerms left right).1 ∧ 0 < (meanTerms left right).2 :=
  ⟨Nat.add_pos_left (Nat.mul_pos positive.numerator other.denominator) _,
    Nat.mul_pos (Nat.mul_pos positive.denominator other.denominator) two_pos⟩

theorem meanTerms_rate (positive : left.Positive) (other : right.Positive) :
    ((meanTerms left right).1 : ℚ) / (meanTerms left right).2 = (left.rate + right.rate) / 2 := by
  have denominator : (left.rateDenominator : ℚ) ≠ 0 := by exact_mod_cast positive.denominator.ne'
  have denominator' : (right.rateDenominator : ℚ) ≠ 0 := by exact_mod_cast other.denominator.ne'
  unfold meanTerms PriceReading.rate
  push_cast
  field_simp

/-- The products `median` forms of its two middle rates fit. -/
structure Meanable (left right : PriceReading) : Prop where
  cross : Comparable left right
  sum : (meanTerms left right).1 < rawLimit
  denominator : (meanTerms left right).2 < rawLimit

theorem orOverflow_ok {n a : Nat} (ok : orOverflow (checked n) = .ok a) : a = n := by
  rw [orOverflow_checked] at ok
  split at ok
  · exact (Except.ok.inj ok).symm
  · cases ok

theorem mean_ok {terms : Nat × Nat} (ok : mean left right = .ok terms) :
    terms = reduce (meanTerms left right).1 (meanTerms left right).2 := by
  unfold mean at ok
  obtain ⟨_, first, ok⟩ := except_bind ok
  obtain ⟨_, second, ok⟩ := except_bind ok
  obtain ⟨_, sum, ok⟩ := except_bind ok
  obtain ⟨_, product, ok⟩ := except_bind ok
  obtain ⟨_, denominator, ok⟩ := except_bind ok
  cases orOverflow_ok first
  cases orOverflow_ok second
  cases orOverflow_ok sum
  cases orOverflow_ok product
  cases orOverflow_ok denominator
  simp only at ok
  split at ok
  · cases ok
  · exact (Except.ok.inj ok).symm

theorem mean_eq (positive : left.Positive) (other : right.Positive) (fits : Meanable left right) :
    mean left right = .ok (reduce (meanTerms left right).1 (meanTerms left right).2) := by
  have product : left.rateDenominator * right.rateDenominator < rawLimit := by
    have double := fits.denominator
    unfold meanTerms at double
    omega
  have terms := meanTerms_pos positive other
  have reduced := reduce_pos terms.1 terms.2
  have sum := fits.sum
  have denominator := fits.denominator
  unfold meanTerms reduce at *
  simp only [mean, orOverflow_checked, if_pos fits.cross.1, if_pos fits.cross.2, if_pos sum,
    if_pos product, if_pos denominator, ok_bind]
  refine if_neg ?_
  rintro (zero | zero)
  · exact reduced.1.ne' zero
  · exact reduced.2.ne' zero

end Rates

section Middle
variable {sorted : List Placed} {terms : Nat × Nat}

theorem median_ok (positive : ∀ x ∈ sorted, x.2.Positive) (ok : median sorted = .ok terms) :
    Median.middle (sorted.map (·.2.rate)) = some ((terms.1 : ℚ) / terms.2) ∧
      (sorted.length % 2 = 0 → Nat.Coprime terms.1 terms.2) := by
  unfold median at ok
  simp only at ok
  unfold Median.middle
  simp only [List.length_map, List.getElem?_map]
  split at ok
  · cases ok
  split at ok
  · rename_i odd
    split at ok
    · rename_i middle found
      cases ok
      rw [if_pos odd, found]
      exact ⟨rfl, fun even => absurd odd (by omega)⟩
    · cases ok
  · rename_i even
    rw [if_neg even]
    split at ok
    · rename_i left right first second
      have positiveL := positive left (List.mem_of_getElem? first)
      have positiveR := positive right (List.mem_of_getElem? second)
      have terms := meanTerms_pos positiveL positiveR
      rw [mean_ok ok, reduce_rate _ terms.1, meanTerms_rate positiveL positiveR, first, second]
      exact ⟨rfl, fun _ => reduce_coprime _ terms.1⟩
    · cases ok

theorem median_total (positive : ∀ x ∈ sorted, x.2.Positive)
    (fits : sorted.Pairwise fun x y => Meanable x.2 y.2) (some_ : 0 < sorted.length) :
    ∃ terms, median sorted = .ok terms := by
  unfold median
  simp only
  rw [if_neg some_.ne']
  by_cases odd : sorted.length % 2 = 1
  · rw [if_pos odd, List.getElem?_eq_getElem (by omega)]
    exact ⟨_, rfl⟩
  · rw [if_neg odd, List.getElem?_eq_getElem (by omega), List.getElem?_eq_getElem (by omega)]
    have ordered : sorted.length / 2 - 1 < sorted.length / 2 := by omega
    have pair := List.pairwise_iff_getElem.mp fits _ _ (by omega) (by omega) ordered
    exact ⟨_, mean_eq (positive _ (List.getElem_mem _)) (positive _ (List.getElem_mem _)) pair⟩

end Middle

section Sorting
variable {kept : List Placed}

theorem compare_kept (positive : ∀ x ∈ kept, x.2.Positive)
    (fits : kept.Pairwise fun x y => Comparable x.2 y.2) {x y : Placed} (left : x ∈ kept)
    (right : y ∈ kept) : compare x.2 y.2 ≠ .gt ↔ x.2.rate ≤ y.2.rate := by
  by_cases same : x = y
  · subst same
    have equal : compare x.2 x.2 ≠ .gt := by
      unfold compare
      split <;> simp_all
    simp [equal]
  · have : Std.Symm fun x y : Placed => Comparable x.2 y.2 := ⟨fun _ _ => Comparable.symm⟩
    exact compare_iff (positive _ left) (positive _ right) (fits.forall left right same)

theorem sortByRate_rates [SliceSort] (positive : ∀ x ∈ kept, x.2.Positive)
    (fits : kept.Pairwise fun x y => Comparable x.2 y.2) :
    (sortByRate kept).map (·.2.rate) = Median.sorted (kept.map (·.2.rate)) := by
  have ranked : Ranked kept := by
    intro x inX y inY z inZ
    rw [compare_kept positive fits inX inY, compare_kept positive fits inY inZ,
      compare_kept positive fits inX inZ]
    exact le_trans
  have same : sortByRate kept = kept.insertionSort fun x y => x.2.rate ≤ y.2.rate :=
    (SliceSort.stable kept ranked).trans (Median.insertionSort_congr (List.Pairwise.imp_of_mem
      (fun left right _ => compare_kept positive fits left right) fits))
  rw [same]
  exact Median.map_insertionSort (fun x : Placed => x.2.rate) kept

theorem overflow_then {α : Type} {n : Option Nat} {next : Nat → Except PriceAggregationError α}
    (rest : ∀ a e, next a = .error e → e = .overflow) (e : PriceAggregationError)
    (failed : orOverflow n >>= next = .error e) : e = .overflow := by
  cases n with
  | none => cases failed; rfl
  | some a => exact rest a e failed

theorem mean_error {left right : PriceReading} :
    ∀ e, mean left right = .error e → e = .overflow := by
  refine overflow_then fun _ => overflow_then fun _ => overflow_then fun _ => overflow_then fun _ =>
    overflow_then fun _ e failed => ?_
  simp only at failed
  split at failed
  · cases failed; rfl
  · cases failed

theorem median_error {sorted : List Placed} (some_ : 0 < sorted.length)
    {e : PriceAggregationError} (failed : median sorted = .error e) : e = .overflow := by
  unfold median at failed
  simp only [if_neg some_.ne'] at failed
  split at failed
  · rw [List.getElem?_eq_getElem (by omega)] at failed
    cases failed
  · rw [List.getElem?_eq_getElem (by omega), List.getElem?_eq_getElem (by omega)] at failed
    exact mean_error e failed

end Sorting
end Price
end CryptoGateway
