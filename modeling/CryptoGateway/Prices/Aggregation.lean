import CryptoGateway.Prices.Rates
import Mathlib.Data.List.Dedup

/-!
What an aggregated price rests on: one newest timely reading for each group, the exact median of
their rates, and a bound on their deviation.
-/
namespace CryptoGateway.Price

section Freshness
variable (policy : PriceAggregationPolicy) (now : Int) (reading : PriceReading)

def cutoff : Int := reading.observedAt + oldestAllowed policy * 1000000

/-- Not after `now`, and its cutoff is a timestamp that has not come yet. -/
structure Fresh : Prop where
  notAfter : reading.observedAt ≤ now
  representable : Instant.inRange (cutoff policy reading) = true
  young : now < cutoff policy reading

variable {policy now reading}

theorem untimely_eq_none : untimely policy now reading = none ↔ Fresh policy now reading := by
  unfold untimely Instant.checkedAddSeconds
  by_cases future : now < reading.observedAt
  · rw [if_pos future]
    exact ⟨by simp, fun fresh => absurd fresh.notAfter (by omega)⟩
  rw [if_neg future]
  by_cases fits : Instant.inRange (reading.observedAt + oldestAllowed policy * 1000000) = true
  · rw [if_pos fits]
    simp only
    split
    · rename_i old
      exact ⟨by simp, fun fresh => absurd fresh.young (by unfold cutoff; omega)⟩
    · rename_i young
      exact ⟨fun _ => ⟨by omega, fits, by unfold cutoff; omega⟩, fun _ => rfl⟩
  · rw [if_neg fits]
    exact ⟨by simp, fun fresh => absurd fresh.representable fits⟩

/-- Not after `now` and at most as many whole seconds old as the policy says. -/
def Recent (policy : PriceAggregationPolicy) (now : Int) (reading : PriceReading) : Prop :=
  reading.observedAt ≤ now ∧ (now - reading.observedAt) / 1000000 ≤ policy.maxAgeSeconds

theorem fresh_iff_recent (representable : Instant.inRange (cutoff policy reading) = true)
    (bounded : policy.maxAgeSeconds < 2 ^ 63 - 1) :
    Fresh policy now reading ↔ Recent policy now reading := by
  have young : now < cutoff policy reading ↔
      (now - reading.observedAt) / 1000000 ≤ policy.maxAgeSeconds := by
    unfold cutoff oldestAllowed
    omega
  constructor
  · intro fresh
    exact ⟨fresh.notAfter, young.mp fresh.young⟩
  · intro recent
    exact ⟨recent.1, representable, young.mpr recent.2⟩

end Freshness

section Groups
variable {kept seen : List Placed}

/-- The second is newer, or as new and submitted no later. -/
def Yields (y x : Placed) : Prop :=
  y.2.observedAt < x.2.observedAt ∨ (y.2.observedAt = x.2.observedAt ∧ x.1 ≤ y.1)

theorem Yields.refl (x : Placed) : Yields x x := .inr ⟨rfl, le_rfl⟩

theorem Yields.trans {x y z : Placed} (first : Yields x y) (second : Yields y z) : Yields x z := by
  unfold Yields at *
  omega

theorem Yields.le {x y : Placed} (yields : Yields y x) : y.2.observedAt ≤ x.2.observedAt := by
  unfold Yields at yields
  omega

theorem represent_kept (entry : Placed) {x : Placed} (mem : x ∈ kept) :
    ∃ y ∈ (represent entry kept).1, y.2.providerGroup = x.2.providerGroup ∧ Yields x y := by
  induction kept with
  | nil => cases mem
  | cons slot rest ih =>
    rw [represent]
    by_cases same : slot.2.providerGroup = entry.2.providerGroup
    · rw [if_pos same]
      by_cases newer : slot.2.observedAt < entry.2.observedAt
      · rw [if_pos newer]
        rcases List.mem_cons.mp mem with rfl | behind
        · exact ⟨entry, List.mem_cons_self, same.symm, .inl newer⟩
        · exact ⟨x, List.mem_cons_of_mem _ behind, rfl, .refl x⟩
      · rw [if_neg newer]
        exact ⟨x, mem, rfl, .refl x⟩
    · rw [if_neg same]
      rcases List.mem_cons.mp mem with rfl | behind
      · exact ⟨x, List.mem_cons_self, rfl, .refl x⟩
      · obtain ⟨y, mem, later⟩ := ih behind
        exact ⟨y, List.mem_cons_of_mem _ mem, later⟩

theorem represent_entry {entry : Placed} (before : ∀ x ∈ kept, x.1 ≤ entry.1) :
    ∃ y ∈ (represent entry kept).1, y.2.providerGroup = entry.2.providerGroup ∧ Yields entry y := by
  induction kept with
  | nil => exact ⟨entry, List.mem_singleton_self _, rfl, .refl entry⟩
  | cons slot rest ih =>
    rw [represent]
    by_cases same : slot.2.providerGroup = entry.2.providerGroup
    · rw [if_pos same]
      by_cases newer : slot.2.observedAt < entry.2.observedAt
      · rw [if_pos newer]
        exact ⟨entry, List.mem_cons_self, rfl, .refl entry⟩
      · rw [if_neg newer]
        have first := before slot List.mem_cons_self
        exact ⟨slot, List.mem_cons_self, same, by unfold Yields; omega⟩
    · rw [if_neg same]
      obtain ⟨y, mem, later⟩ := ih fun x mem => before x (List.mem_cons_of_mem _ mem)
      exact ⟨y, List.mem_cons_of_mem _ mem, later⟩

/-- `kept` speaks for the entries seen: for each by one of its group that it yields to. -/
structure Speaks (kept seen : List Placed) : Prop where
  among : ∀ x ∈ kept, x ∈ seen
  each : ∀ y ∈ seen, ∃ x ∈ kept, x.2.providerGroup = y.2.providerGroup ∧ Yields y x

theorem Speaks.represent (speaks : Speaks kept seen) {entry : Placed}
    (before : ∀ x ∈ seen, x.1 ≤ entry.1) : Speaks (represent entry kept).1 (seen ++ [entry]) where
  among x mem := by
    rcases mem_represent mem with rfl | old
    · exact List.mem_append_right _ (List.mem_singleton_self _)
    · exact List.mem_append_left _ (speaks.among x old)
  each y mem := by
    rcases List.mem_append.mp mem with old | new
    · obtain ⟨x, kept, group, later⟩ := speaks.each y old
      obtain ⟨z, mem, same, latest⟩ := represent_kept entry kept
      exact ⟨z, mem, same.trans group, later.trans latest⟩
    · rw [List.mem_singleton.mp new]
      exact represent_entry fun x kept => before x (speaks.among x kept)

theorem Sifted.foldl_group_speaks (seen : List Placed) {entries : List Placed} {s : Sifted}
    (speaks : Speaks s.kept seen) (ordered : (seen ++ entries).Pairwise (·.1 ≤ ·.1)) :
    Speaks (entries.foldl Sifted.group s).kept (seen ++ entries) := by
  induction entries generalizing s seen with
  | nil => simpa using speaks
  | cons entry rest ih =>
    have before : ∀ x ∈ seen, x.1 ≤ entry.1 := fun x mem =>
      (List.pairwise_append.mp ordered).2.2 x mem entry List.mem_cons_self
    rw [List.append_cons] at ordered ⊢
    exact ih _ (s := s.group entry) (speaks.represent before) ordered

theorem Sifted.foldl_group_superseded (seen entries : List Placed) (s : Sifted)
    (among : ∀ x ∈ s.kept, x ∈ seen)
    (known : ∀ index, (index, .supersededInGroup) ∈ s.discarded → index ∈ seen.map (·.1))
    {index : Nat} (mem : (index, .supersededInGroup) ∈ (entries.foldl Sifted.group s).discarded) :
    index ∈ (seen ++ entries).map (·.1) := by
  induction entries generalizing s seen with
  | nil => simpa using known index mem
  | cons entry rest ih =>
    have old : ∀ x ∈ (s.group entry).kept, x ∈ seen ++ [entry] := by
      intro x mem
      rcases mem_represent mem with rfl | old
      · exact List.mem_append_right _ (List.mem_singleton_self _)
      · exact List.mem_append_left _ (among x old)
    have places : ∀ place ∈ entry.1 :: s.kept.map (·.1), place ∈ (seen ++ [entry]).map (·.1) := by
      intro place mem
      rcases List.mem_cons.mp mem with rfl | older
      · simp
      · obtain ⟨x, kept, rfl⟩ := List.mem_map.mp older
        exact List.mem_map_of_mem (List.mem_append_left _ (among x kept))
    have turned := ih (seen ++ [entry]) (s.group entry) old (by
      intro place mem
      rcases List.mem_append.mp mem with before | now
      · rw [List.map_append]
        exact List.mem_append_left _ (known place before)
      · refine places place ((represent_places entry s.kept).mem_iff.mp ?_)
        refine List.mem_append_right _ ?_
        simpa using now) mem
    rwa [List.append_assoc] at turned

end Groups

section Sifting
variable {policy : PriceAggregationPolicy} {now : Int} {readings : List PriceReading}

def timely (policy : PriceAggregationPolicy) (now : Int) (readings : List PriceReading) :
    List Placed :=
  (place readings).filter fun entry => (untimely policy now entry.2).isNone

theorem mem_timely {index : Nat} {reading : PriceReading} :
    (index, reading) ∈ timely policy now readings ↔
      readings[index]? = some reading ∧ Fresh policy now reading := by
  rw [timely, List.mem_filter, mem_place, Option.isNone_iff_eq_none, untimely_eq_none]

theorem Sifted.foldl_screen_kept (entries : List Placed) (s : Sifted) :
    (entries.foldl (Sifted.screen policy now) s).kept =
      s.kept ++ entries.filter fun entry => (untimely policy now entry.2).isNone := by
  induction entries generalizing s with
  | nil => simp
  | cons entry rest ih =>
    rw [List.foldl_cons, ih, Sifted.screen]
    cases reason : untimely policy now entry.2 <;> simp [reason]

theorem untimely_ne_superseded (reading : PriceReading) :
    untimely policy now reading ≠ some .supersededInGroup := by
  unfold untimely
  split
  · simp
  · split
    · simp
    · split <;> simp

theorem Sifted.foldl_screen_superseded (entries : List Placed) (s : Sifted) {index : Nat}
    (mem : (index, .supersededInGroup) ∈ (entries.foldl (Sifted.screen policy now) s).discarded) :
    (index, .supersededInGroup) ∈ s.discarded := by
  induction entries generalizing s with
  | nil => exact mem
  | cons entry rest ih =>
    have turned := ih (s.screen policy now entry) mem
    unfold Sifted.screen at turned
    split at turned
    · rename_i reason eq
      rcases List.mem_append.mp turned with before | here
      · exact before
      · have same := List.mem_singleton.mp here
        injection same with _ superseded
        exact absurd (superseded ▸ eq) (untimely_ne_superseded entry.2)
    · exact turned

theorem sift_eq (policy : PriceAggregationPolicy) (now : Int) (readings : List PriceReading) :
    sift policy now readings = (timely policy now readings).foldl Sifted.group
      { discarded := ((place readings).foldl (Sifted.screen policy now) {}).discarded } := by
  unfold sift
  simp only [Sifted.foldl_screen_kept]
  rfl

theorem sift_speaks (policy : PriceAggregationPolicy) (now : Int) (readings : List PriceReading) :
    Speaks (sift policy now readings).kept (timely policy now readings) := by
  have ordered : (timely policy now readings).Pairwise (·.1 ≤ ·.1) := by
    refine List.Pairwise.filter _ (List.pairwise_map.mp (?_ : ((place readings).map _).Pairwise _))
    rw [place_places]
    exact List.pairwise_le_range
  rw [sift_eq]
  exact Sifted.foldl_group_speaks [] ⟨by simp, by simp⟩ ordered

theorem sift_superseded {index : Nat}
    (mem : (index, .supersededInGroup) ∈ (sift policy now readings).discarded) :
    index ∈ (timely policy now readings).map (·.1) := by
  rw [sift_eq] at mem
  refine Sifted.foldl_group_superseded [] _ _ (by simp) ?_ mem
  intro place mem
  have none := Sifted.foldl_screen_superseded _ _ mem
  cases none

theorem sift_single {x y : Placed} (left : x ∈ (sift policy now readings).kept)
    (right : y ∈ (sift policy now readings).kept)
    (same : x.2.providerGroup = y.2.providerGroup) : x = y :=
  List.inj_on_of_nodup_map (sift_groups policy now readings) left right same

/-- The reading speaks for its group: the first of the newest timely ones. -/
structure Leads (policy : PriceAggregationPolicy) (now : Int) (readings : List PriceReading)
    (index : Nat) (reading : PriceReading) : Prop where
  stored : readings[index]? = some reading
  fresh : Fresh policy now reading
  newest : ∀ j s, readings[j]? = some s → Fresh policy now s →
    s.providerGroup = reading.providerGroup → Yields (j, s) (index, reading)

theorem sift_leads {x : Placed} (kept : x ∈ (sift policy now readings).kept) :
    Leads policy now readings x.1 x.2 := by
  have speaks := sift_speaks policy now readings
  obtain ⟨stored, fresh⟩ := mem_timely.mp (speaks.among x kept)
  refine ⟨stored, fresh, fun j s found timely same => ?_⟩
  obtain ⟨z, other, group, later⟩ := speaks.each (j, s) (mem_timely.mpr ⟨found, timely⟩)
  rwa [sift_single other kept (group.trans same)] at later

variable {price : AggregatedPrice}

structure Accounts (wanted : PriceReading → Prop) (readings : List PriceReading)
    (price : AggregatedPrice) : Prop where
  once : (price.used ++ price.discarded.map (·.1)).Perm (List.range readings.length)
  newest : ∀ i ∈ price.used, ∀ r, readings[i]? = some r → wanted r ∧
    ∀ s ∈ readings, wanted s → s.providerGroup = r.providerGroup → s.observedAt ≤ r.observedAt
  each : ∀ s ∈ readings, wanted s →
    ∃ i ∈ price.used, ∃ r, readings[i]? = some r ∧ r.providerGroup = s.providerGroup
  single : ∀ i ∈ price.used, ∀ j ∈ price.used, ∀ r s, readings[i]? = some r →
    readings[j]? = some s → r.providerGroup = s.providerGroup → i = j
  superseded : ∀ j, (j, .supersededInGroup) ∈ price.discarded → ∃ s, readings[j]? = some s ∧
    ∃ i ∈ price.used, ∃ r, readings[i]? = some r ∧ r.providerGroup = s.providerGroup ∧
      s.observedAt ≤ r.observedAt

variable [SliceSort]

theorem used_iff (ok : aggregate readings policy now = .ok price) {index : Nat}
    {reading : PriceReading} : index ∈ price.used ∧ readings[index]? = some reading ↔
      (index, reading) ∈ (sift policy now readings).kept := by
  rw [mem_used ok, List.mem_map]
  constructor
  · rintro ⟨⟨⟨_, other⟩, kept, rfl⟩, stored⟩
    have same := (mem_sift kept).symm.trans stored
    exact Option.some.inj same ▸ kept
  · exact fun kept => ⟨⟨_, kept, rfl⟩, mem_sift kept⟩

/-- Every reading is used or discarded for a reason; and where the cutoff is a timestamp and the
    age below the largest, a reading is fresh just when it is recent enough. -/
theorem aggregate_accounts (ok : aggregate readings policy now = .ok price) :
    Accounts (Fresh policy now) readings price ∧
      price.groupCount = min price.used.length maxU32 ∧ policy.minSources ≤ price.groupCount ∧
      ∀ r, Instant.inRange (cutoff policy r) = true → policy.maxAgeSeconds < 2 ^ 63 - 1 →
        (Fresh policy now r ↔ Recent policy now r) := by
  have accepted := aggregate_accepted ok
  refine ⟨⟨?_, ?_, ?_, ?_, ?_⟩, ?_, ?_, fun r => fresh_iff_recent⟩
  · rw [accepted.discarded, accepted.used]
    exact (((sortByRate_perm _).map _).append_right _).trans (sift_places policy now readings)
  · intro i mem r stored
    have leads := sift_leads ((used_iff ok).mp ⟨mem, stored⟩)
    refine ⟨leads.fresh, fun s mem fresh same => ?_⟩
    obtain ⟨j, found⟩ := List.mem_iff_getElem?.mp mem
    exact (leads.newest j s found fresh same).le
  · intro s mem fresh
    obtain ⟨j, found⟩ := List.mem_iff_getElem?.mp mem
    obtain ⟨⟨i, r⟩, kept, same, _⟩ :=
      (sift_speaks policy now readings).each (j, s) (mem_timely.mpr ⟨found, fresh⟩)
    obtain ⟨mem, stored⟩ := (used_iff ok).mpr kept
    exact ⟨i, mem, r, stored, same⟩
  · intro i left j right r s storedI storedJ same
    have one := sift_single ((used_iff ok).mp ⟨left, storedI⟩) ((used_iff ok).mp ⟨right, storedJ⟩)
      same
    exact congrArg Prod.fst one
  · intro j mem
    rw [accepted.discarded] at mem
    obtain ⟨⟨_, s⟩, seen, rfl⟩ := List.mem_map.mp (sift_superseded mem)
    obtain ⟨⟨i, r⟩, kept, same, later⟩ := (sift_speaks policy now readings).each _ seen
    obtain ⟨mem, stored⟩ := (used_iff ok).mpr kept
    exact ⟨s, (mem_timely.mp seen).1, i, mem, r, stored, same, later.le⟩
  · rw [accepted.count, accepted.used, List.length_map, (sortByRate_perm _).length_eq]
  · exact accepted.enough

end Sifting

namespace Sample

def reading (group : Char) (numerator denominator : Nat) (observedAt : Int := 0) : PriceReading :=
  ⟨[group], [group], numerator, denominator, observedAt⟩

def policy (maxDeviationBps : Nat) : PriceAggregationPolicy := ⟨2, 60, maxDeviationBps⟩

def patient : PriceAggregationPolicy := ⟨2, 253402300799, 0⟩

def far : List PriceReading :=
  [reading 'a' 1 1 (-10000000), reading 'b' 1 1 (-10000000), reading 'a' 1 1 0]

/-- The newest reading's cutoff is no timestamp: an older one of its group is used. -/
theorem newest_without_cutoff : ∃ price, aggregate far patient 0 = .ok price ∧
    price.discarded = [(2, .stale)] ∧ ¬ Accounts (Recent patient 0) far price := by
  refine ⟨⟨1, 1, 2, 0, [0, 1], [(2, .stale)]⟩, by decide +kernel, rfl, fun accounts => ?_⟩
  have newest := (accounts.newest 0 (by simp) _ rfl).2 (reading 'a' 1 1 0) (by simp [far])
    ⟨by decide, by decide⟩ rfl
  exact absurd newest (by decide)

def close : List PriceReading := [reading 'a' 100 1, reading 'b' 101 1]

def closePrice : AggregatedPrice := ⟨201, 2, 2, 100, [0, 1], []⟩

theorem close_accounts : aggregate close (policy 100) 0 = .ok closePrice ∧
    Accounts (Fresh (policy 100) 0) close closePrice := by
  have ok : aggregate close (policy 100) 0 = .ok closePrice := by decide +kernel
  exact ⟨ok, (aggregate_accounts ok).1⟩

end Sample

section Outcome
variable {policy : PriceAggregationPolicy} {now : Int} {readings : List PriceReading}
  {price : AggregatedPrice}

theorem sift_pairwise {related : PriceReading → PriceReading → Prop}
    (pairs : ∀ i j r s, Leads policy now readings i r → Leads policy now readings j s → i ≠ j →
      related r s) : (sift policy now readings).kept.Pairwise fun x y => related x.2 y.2 := by
  have places : ((sift policy now readings).kept.map (·.1)).Nodup := by
    have once : (sift policy now readings).places.Nodup :=
      (sift_places policy now readings).nodup_iff.mpr List.nodup_range
    exact (List.nodup_append.mp once).1
  refine List.Pairwise.imp_of_mem (fun left right apart => ?_) (List.pairwise_map.mp places)
  exact pairs _ _ _ _ (sift_leads left) (sift_leads right) apart

/-- What holds of any two fresh readings holds of those that lead. -/
theorem leads_pairwise {related : PriceReading → PriceReading → Prop}
    (symm : ∀ {r s}, related r s → related s r)
    (pairs : readings.Pairwise fun r s => Fresh policy now r → Fresh policy now s → related r s)
    (i j : Nat) (r s : PriceReading) (left : Leads policy now readings i r)
    (right : Leads policy now readings j s) (apart : i ≠ j) : related r s := by
  obtain ⟨boundI, rfl⟩ := List.getElem?_eq_some_iff.mp left.stored
  obtain ⟨boundJ, rfl⟩ := List.getElem?_eq_some_iff.mp right.stored
  rcases lt_or_gt_of_ne apart with before | after
  · exact List.pairwise_iff_getElem.mp pairs _ _ boundI boundJ before left.fresh right.fresh
  · exact symm (List.pairwise_iff_getElem.mp pairs _ _ boundJ boundI after right.fresh left.fresh)

theorem sift_positive (positive : ∀ r ∈ readings, r.Positive) {x : Placed}
    (kept : x ∈ (sift policy now readings).kept) : x.2.Positive :=
  positive x.2 (List.mem_of_getElem? (mem_sift kept))

/-- The rates behind a price, in the order of its `used`. -/
def usedRates (readings : List PriceReading) (price : AggregatedPrice) : List ℚ :=
  price.used.filterMap fun i => readings[i]?.map (·.rate)

variable [SliceSort]

theorem usedRates_eq (ok : aggregate readings policy now = .ok price) : usedRates readings price =
      (sortByRate (sift policy now readings).kept).map (·.2.rate) := by
  rw [usedRates, (aggregate_accepted ok).used, List.filterMap_map, ← List.filterMap_eq_map]
  refine List.filterMap_congr fun e mem => ?_
  have stored := mem_sift ((sortByRate_perm _).mem_iff.mp mem)
  simp [stored]

section Comparable
variable (positive : ∀ r ∈ readings, r.Positive)
  (fits : (sift policy now readings).kept.Pairwise fun x y => Comparable x.2 y.2)
  (ok : aggregate readings policy now = .ok price)
include positive fits ok

theorem usedRates_sorted : usedRates readings price =
    Median.sorted ((sift policy now readings).kept.map (·.2.rate)) := by
  rw [usedRates_eq ok]
  exact sortByRate_rates (fun _ kept => sift_positive positive kept) fits

theorem rate_median : Median.median (usedRates readings price) = some price.rate := by
  have middle := (median_ok (fun _ mem => sift_positive positive
    ((sortByRate_perm _).mem_iff.mp mem)) (aggregate_accepted ok).middle).1
  rw [← usedRates_eq ok] at middle
  have ordered : (usedRates readings price).Pairwise (· ≤ ·) := by
    rw [usedRates_sorted positive fits ok]
    exact Median.sorted_pairwise _
  rw [Median.median, Median.sorted_eq_self ordered]
  exact middle

end Comparable

end Outcome

namespace Sample

theorem close_positive : ∀ r ∈ close, r.Positive := by
  intro r mem
  have terms : 0 < r.rateNumerator ∧ 0 < r.rateDenominator := by
    revert r mem
    decide
  exact ⟨terms.1, terms.2⟩

end Sample

section Order
variable {policy : PriceAggregationPolicy} {now : Int} {readings other : List PriceReading}

def Dated (readings : List PriceReading) : Prop :=
  readings.Pairwise fun r s => r.providerGroup = s.providerGroup → r.observedAt ≠ s.observedAt

theorem Dated.perm (dated : Dated readings) (perm : readings.Perm other) : Dated other :=
  (perm.pairwise_iff fun apart same => (apart same.symm).symm).mp dated

theorem Dated.eq (dated : Dated readings) {r s : PriceReading} (left : r ∈ readings)
    (right : s ∈ readings) (group : r.providerGroup = s.providerGroup)
    (time : r.observedAt = s.observedAt) : r = s := by
  by_contra apart
  have : Std.Symm fun r s : PriceReading =>
      r.providerGroup = s.providerGroup → r.observedAt ≠ s.observedAt :=
    ⟨fun _ _ differ same => (differ same.symm).symm⟩
  exact List.Pairwise.forall dated left right apart group time

theorem mem_kept_iff (dated : Dated readings) {r : PriceReading} :
    r ∈ (sift policy now readings).kept.map (·.2) ↔ r ∈ readings ∧ Fresh policy now r ∧
      ∀ s ∈ readings, Fresh policy now s → s.providerGroup = r.providerGroup →
        s.observedAt ≤ r.observedAt := by
  constructor
  · rintro mem
    obtain ⟨x, kept, rfl⟩ := List.mem_map.mp mem
    have leads := sift_leads kept
    refine ⟨List.mem_of_getElem? leads.stored, leads.fresh, fun s mem fresh same => ?_⟩
    obtain ⟨j, found⟩ := List.mem_iff_getElem?.mp mem
    exact (leads.newest j s found fresh same).le
  · rintro ⟨mem, fresh, newest⟩
    obtain ⟨i, found⟩ := List.mem_iff_getElem?.mp mem
    obtain ⟨x, kept, same, later⟩ :=
      (sift_speaks policy now readings).each (i, r) (mem_timely.mpr ⟨found, fresh⟩)
    have stored := List.mem_of_getElem? (mem_sift kept)
    have latest := newest x.2 stored (sift_leads kept).fresh same
    have eq : x.2 = r := dated.eq stored mem same (le_antisymm latest later.le)
    exact List.mem_map.mpr ⟨x, kept, eq⟩

theorem sift_nodup (policy : PriceAggregationPolicy) (now : Int) (readings : List PriceReading) :
    ((sift policy now readings).kept.map (·.2)).Nodup := by
  have groups : (((sift policy now readings).kept.map (·.2)).map (·.providerGroup)).Nodup := by
    rw [List.map_map]
    exact sift_groups policy now readings
  exact groups.of_map

theorem kept_perm (policy : PriceAggregationPolicy) (now : Int) (dated : Dated readings)
    (perm : readings.Perm other) :
    ((sift policy now readings).kept.map (·.2)).Perm ((sift policy now other).kept.map (·.2)) := by
  rw [List.perm_ext_iff_of_nodup (sift_nodup ..) (sift_nodup ..)]
  intro r
  rw [mem_kept_iff dated, mem_kept_iff (dated.perm perm)]
  simp only [perm.mem_iff]

def aggregateRates (policy : PriceAggregationPolicy) (rates : List ℚ) :
    Except PriceAggregationError (Nat × ℚ) :=
  if policy.minSources < 2 then .error .policyDemandsTooFewSources
  else if min rates.length maxU32 < policy.minSources then
    .error (.notEnoughSources policy.minSources (min rates.length maxU32))
  else
    match (Median.sorted rates).head?, (Median.sorted rates).getLast? with
    | some lowest, some highest =>
        if maxU32 < spread lowest highest then .error .overflow
        else if policy.maxDeviationBps < spread lowest highest then
          .error (.diverged (spread lowest highest) policy.maxDeviationBps)
        else (Median.median rates).elim (.error .noReadings) fun rate =>
          .ok (spread lowest highest, rate)
    | _, _ => .error .noReadings

theorem aggregateRates_perm (policy : PriceAggregationPolicy) {rates rates' : List ℚ}
    (perm : rates.Perm rates') : aggregateRates policy rates = aggregateRates policy rates' := by
  unfold aggregateRates
  rw [perm.length_eq, Median.sorted_eq_of_perm perm, Median.median_eq_of_perm perm]

def outcome (result : Except PriceAggregationError AggregatedPrice) :
    Except PriceAggregationError (Nat × ℚ) :=
  result.map fun price => (price.deviationBps, price.rate)

structure Multipliable (left right : PriceReading) : Prop where
  scaled : left.rateNumerator * right.rateDenominator * bpsScale < rawLimit
  scaled' : right.rateNumerator * left.rateDenominator * bpsScale < rawLimit
  doubled : left.rateDenominator * right.rateDenominator * 2 < rawLimit

variable {left right : PriceReading}

theorem Multipliable.symm (fits : Multipliable left right) : Multipliable right left := by
  refine ⟨fits.scaled', fits.scaled, ?_⟩
  rw [Nat.mul_comm right.rateDenominator]
  exact fits.doubled

theorem Multipliable.comparable (fits : Multipliable left right) : Comparable left right := by
  have scaled := fits.scaled
  have scaled' := fits.scaled'
  unfold bpsScale at scaled scaled'
  constructor <;> omega

theorem Multipliable.measurable (fits : Multipliable left right) : Measurable left right := by
  refine ⟨fits.comparable, lt_of_le_of_lt ?_ fits.scaled'⟩
  exact Nat.mul_le_mul_right _ (Nat.sub_le _ _)

theorem Multipliable.meanable (fits : Multipliable left right) : Meanable left right := by
  refine ⟨fits.comparable, ?_, fits.doubled⟩
  have scaled := fits.scaled
  have scaled' := fits.scaled'
  unfold meanTerms
  unfold bpsScale at scaled scaled'
  omega

variable [SliceSort]

theorem aggregate_rates (positive : ∀ r ∈ readings, r.Positive)
    (fits : (sift policy now readings).kept.Pairwise fun x y => Comparable x.2 y.2) :
    outcome (aggregate readings policy now) =
        aggregateRates policy ((sift policy now readings).kept.map (·.2.rate)) ∨
      (aggregate readings policy now = .error .overflow ∧
        ¬(sift policy now readings).kept.Pairwise fun x y => Multipliable x.2 y.2) := by
  have positives : ∀ x ∈ (sift policy now readings).kept, x.2.Positive :=
    fun _ kept => sift_positive positive kept
  unfold aggregate aggregateRates
  by_cases two : policy.minSources < 2
  · rw [if_pos two, if_pos two]
    exact .inl rfl
  rw [if_neg two, if_neg two, List.length_map]
  simp only
  by_cases enough : min (sift policy now readings).kept.length maxU32 < policy.minSources
  · rw [if_pos enough, if_pos enough]
    exact .inl rfl
  rw [if_neg enough, if_neg enough]
  generalize (sift policy now readings).kept = kept at *
  have perm := sortByRate_perm kept
  have positive' : ∀ x ∈ sortByRate kept, x.2.Positive :=
    fun x mem => positives x (perm.mem_iff.mp mem)
  have pairs' (pairs : kept.Pairwise fun x y => Multipliable x.2 y.2) :
      (sortByRate kept).Pairwise fun x y => Multipliable x.2 y.2 :=
    (perm.pairwise_iff Multipliable.symm).mpr pairs
  have length : 2 ≤ (sortByRate kept).length := by
    rw [perm.length_eq]
    omega
  have sorted := sortByRate_rates positives fits
  obtain ⟨lowest, highest, head, last, _⟩ :=
    Median.pairwise_ends ((perm.pairwise_iff Comparable.symm).mpr fits) length
  have low := positive' lowest (List.mem_of_head? head)
  have high := positive' highest (List.mem_of_getLast? last)
  rw [← sorted, List.head?_map, List.getLast?_map, head, last]
  simp only [Option.map_some, deviationBps_eq low high]
  by_cases small : spread lowest.2.rate highest.2.rate ≤ maxU32
  swap
  · rw [if_neg (fun both => small both.2), if_pos (not_le.mp small)]
    exact .inl rfl
  by_cases measured : Measurable lowest.2 highest.2
  swap
  · rw [if_neg (fun both => measured both.1)]
    refine .inr ⟨rfl, fun pairs => measured ?_⟩
    obtain ⟨_, _, head', last', ends⟩ := Median.pairwise_ends (pairs' pairs) length
    cases head.symm.trans head'
    cases last.symm.trans last'
    exact ends.measurable
  rw [if_pos ⟨measured, small⟩, if_neg (not_lt.mpr small), ok_bind]
  by_cases diverged : policy.maxDeviationBps < spread lowest.2.rate highest.2.rate
  · rw [if_pos diverged, if_pos diverged]
    exact .inl rfl
  rw [if_neg diverged, if_neg diverged]
  cases middle : median (sortByRate kept) with
  | ok terms =>
    have rate := (median_ok positive' middle).1
    rw [sorted] at rate
    rw [Median.median, rate]
    exact .inl rfl
  | error e =>
    cases median_error (by omega) middle
    refine .inr ⟨rfl, fun pairs => ?_⟩
    obtain ⟨terms, total⟩ :=
      median_total positive' ((pairs' pairs).imp Multipliable.meanable) (by omega)
    cases middle.symm.trans total

/-- Where any two fresh readings can be compared, the order of a submission decides nothing but
    whether the arithmetic overflows, and not even that where the larger products fit; a rate
    is the median of the rates used. -/
theorem aggregate_order_free (positive : ∀ r ∈ readings, r.Positive) (dated : Dated readings)
    (fits : readings.Pairwise fun r s => Fresh policy now r → Fresh policy now s → Comparable r s)
    (perm : readings.Perm other) :
    (outcome (aggregate readings policy now) = outcome (aggregate other policy now) ∨
      aggregate readings policy now = .error .overflow ∨
      aggregate other policy now = .error .overflow) ∧
    ((readings.Pairwise fun r s => Fresh policy now r → Fresh policy now s → Multipliable r s) →
      outcome (aggregate readings policy now) = outcome (aggregate other policy now)) ∧
    ∀ price, aggregate readings policy now = .ok price →
      Median.median (usedRates readings price) = some price.rate ∧
      (price.used.length % 2 = 0 → Nat.Coprime price.rateNumerator price.rateDenominator) := by
  have moved {related : PriceReading → PriceReading → Prop}
      (symm : ∀ {r s}, related r s → related s r)
      (pairs : readings.Pairwise fun r s => Fresh policy now r → Fresh policy now s → related r s) :
      other.Pairwise fun r s => Fresh policy now r → Fresh policy now s → related r s :=
    (perm.pairwise_iff fun both right left => symm (both left right)).mp pairs
  have kept := sift_pairwise (leads_pairwise Comparable.symm fits)
  have first := aggregate_rates positive kept
  have second := aggregate_rates (fun r mem => positive r (perm.mem_iff.mpr mem))
    (sift_pairwise (leads_pairwise Comparable.symm (moved Comparable.symm fits)))
  have rates := (kept_perm policy now dated perm).map PriceReading.rate
  rw [List.map_map, List.map_map] at rates
  have same := aggregateRates_perm policy rates
  refine ⟨?_, fun multipliable => ?_, fun price ok => ?_⟩
  · rcases first with left | ⟨exceeds, _⟩
    · rcases second with right | ⟨exceeds, _⟩
      · exact .inl (left.trans (same.trans right.symm))
      · exact .inr (.inr exceeds)
    · exact .inr (.inl exceeds)
  · have fit := sift_pairwise (leads_pairwise Multipliable.symm multipliable)
    have fit' := sift_pairwise (leads_pairwise Multipliable.symm
      (moved Multipliable.symm multipliable))
    have left := first.resolve_right fun exceeds => exceeds.2 fit
    have right := second.resolve_right fun exceeds => exceeds.2 fit'
    exact left.trans (same.trans right.symm)
  · have accepted := aggregate_accepted ok
    have lowest := (median_ok (fun x mem => sift_positive positive
      ((sortByRate_perm _).mem_iff.mp mem)) accepted.middle).2
    refine ⟨rate_median positive kept ok, fun even => lowest ?_⟩
    rwa [accepted.used, List.length_map] at even

end Order

namespace Sample

def doubled : List PriceReading :=
  [reading 'a' 1 1, reading 'b' (2 ^ 254) (2 ^ 254), reading 'c' 2 1]

def doubled' : List PriceReading :=
  [reading 'b' (2 ^ 254) (2 ^ 254), reading 'a' 1 1, reading 'c' 2 1]

/-- Which of the two ones comes first decides whether the deviation can be computed. -/
theorem order_decides_overflow : doubled.Perm doubled' ∧ Dated doubled ∧
    (doubled.Pairwise fun r s => Comparable r s) ∧
    aggregate doubled (policy 10000) 0 = .ok ⟨2 ^ 254, 2 ^ 254, 3, 10000, [0, 1, 2], []⟩ ∧
    aggregate doubled' (policy 10000) 0 = .error .overflow := by
  refine ⟨.swap .., ?_, ?_, by decide +kernel, by decide +kernel⟩
  · unfold Dated
    decide +kernel
  · unfold Comparable
    decide +kernel

theorem order_free_close :
    outcome (aggregate close (policy 100) 0) = outcome (aggregate close.reverse (policy 100) 0) ∧
      Median.median (usedRates close closePrice) = some closePrice.rate := by
  have dated : Dated close := by
    unfold Dated
    decide
  have fits : close.Pairwise fun r s =>
      Fresh (policy 100) 0 r → Fresh (policy 100) 0 s → Multipliable r s :=
    List.pairwise_pair.mpr fun _ _ => ⟨by decide, by decide, by decide⟩
  obtain ⟨_, free, median⟩ := aggregate_order_free close_positive dated
    (fits.imp fun both left right => (both left right).comparable) (List.reverse_perm close).symm
  exact ⟨free fits, (median closePrice (by decide +kernel)).1⟩

end Sample
end CryptoGateway.Price
