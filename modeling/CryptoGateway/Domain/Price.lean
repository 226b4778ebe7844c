import CryptoGateway.Domain.Money
import Mathlib.Data.List.Sort

/-!
One rate from several sources' readings. A rate is a ratio of integers; two rates are
compared by cross-multiplication, and every product has to fit in 256 bits.
-/
namespace CryptoGateway

structure PriceReading where
  sourceKey : Text
  providerGroup : Text
  rateNumerator : Nat
  rateDenominator : Nat
  observedAt : Int
deriving DecidableEq, Repr

structure PriceAggregationPolicy where
  minSources : Nat
  maxAgeSeconds : Int
  maxDeviationBps : Nat
deriving DecidableEq, Repr

inductive PriceDiscardReason where
  | stale | futureDated | supersededInGroup
deriving DecidableEq, Repr

inductive PriceAggregationError where
  | policyDemandsTooFewSources
  | noReadings
  | notEnoughSources (required available : Nat)
  | diverged (deviationBps ceiling : Nat)
  | overflow
deriving DecidableEq, Repr

/-- `used` and `discarded` name readings by their place in the submission. -/
structure AggregatedPrice where
  rateNumerator : Nat
  rateDenominator : Nat
  groupCount : Nat
  deviationBps : Nat
  used : List Nat
  discarded : List (Nat × PriceDiscardReason)
deriving DecidableEq, Repr

namespace Price

def bpsScale : Nat := 10000

def maxU32 : Nat := 2 ^ 32 - 1

def checked (n : Nat) : Option Nat := if n < rawLimit then some n else none

/-- A reading with its place in the submission. -/
abbrev Placed := Nat × PriceReading

/-- `max_age_seconds.saturating_add(1)` on an `i64`. -/
def oldestAllowed (policy : PriceAggregationPolicy) : Int :=
  min (policy.maxAgeSeconds + 1) (2 ^ 63 - 1)

/-- Why a reading does not count whatever the others say. -/
def untimely (policy : PriceAggregationPolicy) (now : Int) (reading : PriceReading) :
    Option PriceDiscardReason :=
  if now < reading.observedAt then some .futureDated
  else
    match Instant.checkedAddSeconds reading.observedAt (oldestAllowed policy) with
    | none => some .stale
    | some cutoff => if cutoff ≤ now then some .stale else none

/-- What the loops of `aggregate` have collected so far. -/
structure Sifted where
  discarded : List (Nat × PriceDiscardReason) := []
  kept : List Placed := []
deriving DecidableEq, Repr

/-- One turn of the first loop: readings that are out of time are put aside. -/
def Sifted.screen (policy : PriceAggregationPolicy) (now : Int) (s : Sifted) (entry : Placed) :
    Sifted :=
  match untimely policy now entry.2 with
  | some reason => { s with discarded := s.discarded ++ [(entry.1, reason)] }
  | none => { s with kept := s.kept ++ [entry] }

/-- The place a reading takes among the groups' opinions, and the reading that the newer
    one of its group supersedes. -/
def represent (entry : Placed) : List Placed → List Placed × Option Nat
  | [] => ([entry], none)
  | slot :: rest =>
      if slot.2.providerGroup = entry.2.providerGroup then
        if slot.2.observedAt < entry.2.observedAt then (entry :: rest, some slot.1)
        else (slot :: rest, some entry.1)
      else
        let (rest', superseded) := represent entry rest
        (slot :: rest', superseded)

def Sifted.group (s : Sifted) (entry : Placed) : Sifted :=
  { discarded := s.discarded ++
      ((represent entry s.kept).2.map fun index => (index, .supersededInGroup)).toList
    kept := (represent entry s.kept).1 }

def place (readings : List PriceReading) : List Placed :=
  readings.zipIdx.map fun (reading, index) => (index, reading)

/-- Both loops: one timely reading a provider group, and everything else with a reason. -/
def sift (policy : PriceAggregationPolicy) (now : Int) (readings : List PriceReading) : Sifted :=
  let fresh := (place readings).foldl (Sifted.screen policy now) {}
  fresh.kept.foldl Sifted.group { discarded := fresh.discarded }

/-- `a/b` against `c/d`. A pair whose products overflow counts as equal. -/
def compare (left right : PriceReading) : Ordering :=
  match checked (left.rateNumerator * right.rateDenominator),
      checked (right.rateNumerator * left.rateDenominator) with
  | some leftSide, some rightSide => Ord.compare leftSide rightSide
  | _, _ => .eq

def orOverflow (n : Option Nat) : Except PriceAggregationError Nat :=
  match n with
  | some n => .ok n
  | none => .error .overflow

/-- `checked_div`, and `checked_rem` with it. -/
def checkedDivMod (n d : Nat) : Except PriceAggregationError (Nat × Nat) :=
  if d = 0 then .error .overflow else .ok (n / d, n % d)

/-- The spread between two rates, rounded up. -/
def deviationBps (lowest highest : PriceReading) : Except PriceAggregationError Nat := do
  let scaledHigh ← orOverflow (checked (highest.rateNumerator * lowest.rateDenominator))
  let scaledLow ← orOverflow (checked (lowest.rateNumerator * highest.rateDenominator))
  let difference := scaledHigh - scaledLow
  if difference = 0 then pure 0
  else do
    let numerator ← orOverflow (checked (difference * bpsScale))
    let (quotient, remainder) ← checkedDivMod numerator scaledLow
    let rounded ← if remainder = 0 then pure quotient else orOverflow (checked (quotient + 1))
    if rounded ≤ maxU32 then pure rounded else .error .overflow

/-- Euclid's algorithm; a zero divisor is replaced by one. -/
def greatestCommonDivisor (left right : Nat) : Nat :=
  if Nat.gcd left right = 0 then 1 else Nat.gcd left right

/-- The exact mean of two rates, in lowest terms. -/
def mean (left right : PriceReading) : Except PriceAggregationError (Nat × Nat) := do
  let leftCross ← orOverflow (checked (left.rateNumerator * right.rateDenominator))
  let rightCross ← orOverflow (checked (right.rateNumerator * left.rateDenominator))
  let numerator ← orOverflow (checked (leftCross + rightCross))
  let denominator ← orOverflow (checked (left.rateDenominator * right.rateDenominator))
  let denominator ← orOverflow (checked (denominator * 2))
  let divisor := greatestCommonDivisor numerator denominator
  let numerator := numerator / divisor
  let denominator := denominator / divisor
  -- `RawAmount::positive` refuses a zero
  if numerator = 0 ∨ denominator = 0 then .error .overflow else pure (numerator, denominator)

def median (sorted : List Placed) : Except PriceAggregationError (Nat × Nat) :=
  let count := sorted.length
  if count = 0 then .error .noReadings
  else if count % 2 = 1 then
    match sorted[count / 2]? with
    | some middle => .ok (middle.2.rateNumerator, middle.2.rateDenominator)
    | none => .error .noReadings
  else
    match sorted[count / 2 - 1]?, sorted[count / 2]? with
    | some left, some right => mean left.2 right.2
    | _, _ => .error .noReadings

/-- The comparisons of the readings are those of a total order. -/
def Ranked (readings : List Placed) : Prop :=
  ∀ x ∈ readings, ∀ y ∈ readings, ∀ z ∈ readings, compare x.2 y.2 ≠ .gt → compare y.2 z.2 ≠ .gt →
    compare x.2 z.2 ≠ .gt

/-- What the documentation of `slice::sort_by` promises: the stable sort where the comparisons
    are those of a total order, and some order of the same readings elsewhere, unless it
    panics. -/
class SliceSort where
  sort : List Placed → List Placed
  perm : ∀ readings, (sort readings).Perm readings
  stable : ∀ readings, Ranked readings →
    sort readings = readings.insertionSort fun left right => compare left.2 right.2 ≠ .gt

def sortByRate [SliceSort] (readings : List Placed) : List Placed := SliceSort.sort readings

theorem sortByRate_perm [SliceSort] (readings : List Placed) :
    (sortByRate readings).Perm readings :=
  SliceSort.perm readings

namespace Sample

/-- A sort that is stable everywhere. -/
scoped instance stableSort : SliceSort where
  sort readings := readings.insertionSort fun left right => compare left.2 right.2 ≠ .gt
  perm := List.perm_insertionSort _
  stable _ _ := rfl

end Sample

section Sifting
variable {policy : PriceAggregationPolicy} {now : Int} {entry : Placed} {kept : List Placed}
  {readings : List PriceReading}

def Sifted.places (s : Sifted) : List Nat := s.kept.map (·.1) ++ s.discarded.map (·.1)

theorem represent_places (entry : Placed) (kept : List Placed) :
    ((represent entry kept).1.map (·.1) ++ (represent entry kept).2.toList).Perm
      (entry.1 :: kept.map (·.1)) := by
  induction kept with
  | nil => exact .refl _
  | cons slot rest ih =>
    simp only [represent]
    split
    · split
      · exact (List.perm_append_singleton slot.1 (rest.map (·.1))).cons entry.1
      · exact List.perm_append_singleton entry.1 (slot.1 :: rest.map (·.1))
    · simp only [List.map_cons, List.cons_append]
      exact (ih.cons slot.1).trans (.swap ..)

theorem mem_represent {x : Placed} (mem : x ∈ (represent entry kept).1) : x = entry ∨ x ∈ kept := by
  induction kept with
  | nil => simpa [represent] using mem
  | cons slot rest ih =>
    simp only [represent] at mem
    split at mem
    · split at mem
      · rcases List.mem_cons.mp mem with same | behind
        · exact .inl same
        · exact .inr (List.mem_cons_of_mem _ behind)
      · exact .inr mem
    · rcases List.mem_cons.mp mem with same | behind
      · exact .inr (same ▸ List.mem_cons_self)
      · exact (ih behind).imp_right (List.mem_cons_of_mem _)

theorem represent_groups (entry : Placed) (kept : List Placed) :
    (represent entry kept).1.map (·.2.providerGroup) =
      if entry.2.providerGroup ∈ kept.map (·.2.providerGroup) then
        kept.map (·.2.providerGroup)
      else kept.map (·.2.providerGroup) ++ [entry.2.providerGroup] := by
  induction kept with
  | nil => rfl
  | cons slot rest ih =>
    simp only [represent]
    by_cases same : slot.2.providerGroup = entry.2.providerGroup
    · rw [if_pos same]
      split <;> simp [same]
    · rw [if_neg same]
      simp only [List.map_cons, ih, List.mem_cons, Ne.symm same, false_or]
      split <;> rfl

theorem Sifted.screen_places (s : Sifted) (entry : Placed) :
    (s.screen policy now entry).places.Perm (entry.1 :: s.places) := by
  unfold Sifted.screen Sifted.places
  split
  · rw [List.map_append, ← List.append_assoc]
    exact List.perm_append_comm
  · simp only [List.map_append, List.map_cons, List.map_nil, List.append_assoc, List.cons_append,
      List.nil_append]
    exact List.perm_middle

theorem Sifted.group_places (s : Sifted) (entry : Placed) :
    (s.group entry).places.Perm (entry.1 :: s.places) := by
  unfold Sifted.group Sifted.places
  have superseded : (((represent entry s.kept).2.map fun index =>
      (index, PriceDiscardReason.supersededInGroup)).toList.map (·.1)) =
        (represent entry s.kept).2.toList := by
    cases (represent entry s.kept).2 <;> rfl
  have swapped : (s.discarded.map (·.1) ++ (represent entry s.kept).2.toList).Perm
      ((represent entry s.kept).2.toList ++ s.discarded.map (·.1)) := List.perm_append_comm
  have kept := (represent_places entry s.kept).append_right (s.discarded.map (·.1))
  rw [List.append_assoc] at kept
  rw [List.map_append, superseded]
  exact (swapped.append_left _).trans kept

theorem Sifted.foldl_places {turn : Sifted → Placed → Sifted}
    (each : ∀ s entry, (turn s entry).places.Perm (entry.1 :: s.places)) (entries : List Placed)
    (s : Sifted) : (entries.foldl turn s).places.Perm (entries.map (·.1) ++ s.places) := by
  induction entries generalizing s with
  | nil => exact .refl _
  | cons entry rest ih =>
    have turned : (rest.map (·.1) ++ (turn s entry).places).Perm
        (rest.map (·.1) ++ entry.1 :: s.places) := (each s entry).append_left _
    exact (ih (turn s entry)).trans (turned.trans List.perm_middle)

theorem place_places (readings : List PriceReading) :
    (place readings).map (·.1) = List.range readings.length := by
  simp [place, Function.comp_def, List.range_eq_range', List.zipIdx_map_snd]

theorem mem_place {index : Nat} {reading : PriceReading} :
    (index, reading) ∈ place readings ↔ readings[index]? = some reading := by
  simp [place, List.mem_zipIdx_iff_getElem?]

theorem sift_places (policy : PriceAggregationPolicy) (now : Int) (readings : List PriceReading) :
    (sift policy now readings).places.Perm (List.range readings.length) := by
  unfold sift
  refine (Sifted.foldl_places Sifted.group_places _ _).trans ?_
  have screened : ((place readings).foldl (Sifted.screen policy now) {}).places.Perm _ :=
    Sifted.foldl_places Sifted.screen_places (place readings) {}
  simpa [Sifted.places, place_places] using screened

theorem mem_foldl_kept {turn : Sifted → Placed → Sifted}
    (each : ∀ s entry x, x ∈ (turn s entry).kept → x = entry ∨ x ∈ s.kept) {entries : List Placed}
    {s : Sifted} {x : Placed} (mem : x ∈ (entries.foldl turn s).kept) :
    x ∈ entries ∨ x ∈ s.kept := by
  induction entries generalizing s with
  | nil => exact .inr mem
  | cons entry rest ih =>
    rcases ih mem with behind | before
    · exact .inl (List.mem_cons_of_mem _ behind)
    · rcases each s entry x before with same | old
      · exact .inl (same ▸ List.mem_cons_self)
      · exact .inr old

theorem mem_sift {index : Nat} {reading : PriceReading}
    (mem : (index, reading) ∈ (sift policy now readings).kept) :
    readings[index]? = some reading := by
  rcases mem_foldl_kept (fun _ _ _ => mem_represent) mem with fresh | none_
  · have screened : ∀ (s : Sifted) (entry x : Placed), x ∈ (s.screen policy now entry).kept →
        x = entry ∨ x ∈ s.kept := by
      intro s entry x mem
      unfold Sifted.screen at mem
      split at mem
      · exact .inr mem
      · simpa [or_comm] using mem
    rcases mem_foldl_kept screened fresh with submitted | none_
    · exact mem_place.mp submitted
    · cases none_
  · cases none_

theorem Sifted.foldl_group_groups (entries : List Placed) (s : Sifted)
    (one : (s.kept.map (·.2.providerGroup)).Nodup) :
    ((entries.foldl Sifted.group s).kept.map (·.2.providerGroup)).Nodup := by
  induction entries generalizing s with
  | nil => exact one
  | cons entry rest ih =>
    refine ih (s.group entry) ?_
    show ((represent entry s.kept).1.map _).Nodup
    rw [represent_groups]
    split
    · exact one
    · rename_i new
      exact List.nodup_append.mpr ⟨one, List.nodup_singleton _, by
        rintro a mem _ (_ | ⟨_, ⟨⟩⟩) rfl
        exact new mem⟩

theorem sift_groups (policy : PriceAggregationPolicy) (now : Int) (readings : List PriceReading) :
    ((sift policy now readings).kept.map (·.2.providerGroup)).Nodup :=
  Sifted.foldl_group_groups _ _ List.nodup_nil

end Sifting
end Price

open Price in
def aggregate [SliceSort] (readings : List PriceReading) (policy : PriceAggregationPolicy)
    (now : Int) : Except PriceAggregationError AggregatedPrice :=
  if policy.minSources < 2 then .error .policyDemandsTooFewSources
  else do
    let sifted := sift policy now readings
    let groupCount := min sifted.kept.length maxU32
    if groupCount < policy.minSources then
      .error (.notEnoughSources policy.minSources groupCount)
    else do
      let sorted := sortByRate sifted.kept
      match sorted.head?, sorted.getLast? with
      | some lowest, some highest => do
        let deviation ← deviationBps lowest.2 highest.2
        if policy.maxDeviationBps < deviation then
          .error (.diverged deviation policy.maxDeviationBps)
        else do
          let (rateNumerator, rateDenominator) ← median sorted
          pure ⟨rateNumerator, rateDenominator, groupCount, deviation, sorted.map (·.1),
            sifted.discarded⟩
      | _, _ => .error .noReadings

namespace Price
variable {readings : List PriceReading} {policy : PriceAggregationPolicy} {now : Int}
  {price : AggregatedPrice}

theorem except_bind {ε α β : Type} {first : Except ε α} {next : α → Except ε β} {b : β}
    (ok : first >>= next = .ok b) : ∃ a, first = .ok a ∧ next a = .ok b := by
  cases first with
  | error e => cases ok
  | ok a => exact ⟨a, rfl, ok⟩

variable [SliceSort]

structure Accepted (sifted : Sifted) (policy : PriceAggregationPolicy) (price : AggregatedPrice) :
    Prop where
  two : 2 ≤ policy.minSources
  count : price.groupCount = min sifted.kept.length maxU32
  enough : policy.minSources ≤ price.groupCount
  used : price.used = (sortByRate sifted.kept).map (·.1)
  discarded : price.discarded = sifted.discarded
  spread : ∃ lowest highest, (sortByRate sifted.kept).head? = some lowest ∧
    (sortByRate sifted.kept).getLast? = some highest ∧
    deviationBps lowest.2 highest.2 = .ok price.deviationBps
  within : price.deviationBps ≤ policy.maxDeviationBps
  middle : median (sortByRate sifted.kept) = .ok (price.rateNumerator, price.rateDenominator)

theorem aggregate_accepted (ok : aggregate readings policy now = .ok price) :
    Accepted (sift policy now readings) policy price := by
  unfold aggregate at ok
  split at ok
  · cases ok
  rename_i two
  simp only at ok
  split at ok
  · cases ok
  rename_i enough
  split at ok
  · rename_i lowest highest head last
    obtain ⟨deviation, spread, ok⟩ := except_bind ok
    split at ok
    · cases ok
    rename_i within
    obtain ⟨rate, middle, ok⟩ := except_bind ok
    cases ok
    exact ⟨Nat.le_of_not_lt two, rfl, Nat.le_of_not_lt enough, rfl, rfl,
      ⟨lowest, highest, head, last, spread⟩, Nat.le_of_not_lt within, middle⟩
  · cases ok

theorem mem_used (ok : aggregate readings policy now = .ok price) {index : Nat} :
    index ∈ price.used ↔ index ∈ (sift policy now readings).kept.map (·.1) := by
  rw [(aggregate_accepted ok).used]
  exact ((sortByRate_perm _).map (·.1)).mem_iff

theorem used_not_discarded (ok : aggregate readings policy now = .ok price) {index : Nat}
    (used : index ∈ price.used) : index ∉ price.discarded.map (·.1) := by
  rw [(aggregate_accepted ok).discarded]
  have once : (sift policy now readings).places.Nodup :=
    (sift_places policy now readings).nodup_iff.mpr List.nodup_range
  exact fun discarded => (List.nodup_append.mp once).2.2 _ ((mem_used ok).mp used) _ discarded rfl

end Price
end CryptoGateway
