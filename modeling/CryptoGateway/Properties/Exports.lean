import CryptoGateway.Properties.Accounting
import Mathlib.Data.Prod.Lex

/-!
`build_export` adds up exactly, in whatever order the days come, and fails only where a
running sum leaves its type.
-/
namespace CryptoGateway
open Engine

def assetSum (days : List SettlementDay) (asset : Id) : Nat :=
  amountOf asset (days.map fun day => (day.assetId, day.allocatedRaw))

/-- Days and control rows name the same assets, and per asset the same money. -/
structure SettlementLedger.Agrees (ledger : SettlementLedger) : Prop where
  assets : ∀ asset, asset ∈ ledger.days.map (·.assetId) ↔
    asset ∈ ledger.allocations.map (·.assetId)
  sums : ∀ control ∈ ledger.allocations,
    assetSum ledger.days control.assetId = control.allocatedRaw

namespace SettlementSums

theorem Held.of_add {a b : SettlementSums} (held : (a + b).Held) (first : 0 ≤ a.fiatMinor)
    (second : 0 ≤ b.fiatMinor) : a.Held := by
  obtain ⟨h1, h2, h3, h4, h5, h6⟩ := held
  simp only [add_eq] at h1 h2 h3 h4 h5 h6
  have limit : (0 : Int) ≤ i128Limit := by decide
  constructor <;> omega

end SettlementSums

section Days
variable {days days' : List SettlementDay} {totals totals' : List SettlementTotal}
  {perAsset : List (Id × Nat)}

theorem pairSums_append (k : Id × CurrencyCode) :
    pairSums (days ++ days') k = pairSums days k + pairSums days' k := by simp [pairSums]

theorem pairSums_fiat_nonneg (minor : ∀ day ∈ days, 0 ≤ day.fiatMinor) (k : Id × CurrencyCode) :
    0 ≤ (pairSums days k).fiatMinor := by
  induction days with
  | nil => exact le_refl (0 : Int)
  | cons day rest ih =>
    rw [List.forall_mem_cons] at minor
    have more := ih minor.2
    have one := minor.1
    simp only [pairSums, List.map_cons, amountOf_cons] at more ⊢
    split
    · exact Int.add_nonneg one more
    · rw [zero_add]
      exact more

theorem sorted_tallies (added : days.foldlM addDay [] = .ok totals) :
    Tallies SettlementTotal.pair SettlementTotal.toSettlementSums
      (days.map fun day => (day.pair, day.toSettlementSums))
      (totals.insertionSort fun a b => a.before b) :=
  (totals_tallies added).perm (List.perm_insertionSort (fun a b => a.before b) totals).symm

theorem before_iff (a b : SettlementTotal) : a.before b = true ↔ toLex a.pair ≤ toLex b.pair := by
  simp [SettlementTotal.before, SettlementTotal.pair, Prod.Lex.toLex_le_toLex]

theorem totals_sorted (totals : List SettlementTotal) :
    (totals.insertionSort fun a b => a.before b).Pairwise fun a b => a.before b = true := by
  have : Std.Total fun a b : SettlementTotal => a.before b = true :=
    ⟨fun a b => by simpa only [before_iff] using le_total _ _⟩
  have : IsTrans SettlementTotal fun a b => a.before b = true :=
    ⟨fun a b c => by simpa only [before_iff] using le_trans⟩
  exact List.pairwise_insertionSort _ totals

theorem total_eq {a b : SettlementTotal} (pair : a.pair = b.pair)
    (sums : a.toSettlementSums = b.toSettlementSums) : a = b := by
  obtain ⟨_, _, _⟩ := a
  obtain ⟨_, _, _⟩ := b
  obtain ⟨rfl, rfl⟩ := Prod.mk.inj pair
  cases sums
  rfl

theorem totals_unordered (perm : days.Perm days') (added : days.foldlM addDay [] = .ok totals)
    (added' : days'.foldlM addDay [] = .ok totals') : (totals.insertionSort fun a b => a.before b) =
      totals'.insertionSort fun a b => a.before b := by
  have first := sorted_tallies added
  have second := sorted_tallies added'
  have rows := perm.map fun day => (day.pair, day.toSettlementSums)
  have covers : ∀ {xs ys : List SettlementTotal}
      {r r' : List ((Id × CurrencyCode) × SettlementSums)},
      Tallies SettlementTotal.pair SettlementTotal.toSettlementSums r xs →
      Tallies SettlementTotal.pair SettlementTotal.toSettlementSums r' ys → r.Perm r' →
      ∀ t ∈ xs, t ∈ ys := by
    intro xs ys r r' one other perm t mem
    obtain ⟨y, listed, pair, sums⟩ := (one.agree other perm).2 t mem
    rw [← total_eq pair sums]
    exact listed
  have same := (List.perm_ext_iff_of_nodup first.distinct.of_map second.distinct.of_map).mpr
    fun t => ⟨covers first second rows t, covers second first rows.symm t⟩
  refine same.eq_of_pairwise (fun a b memA memB le ge => ?_) (totals_sorted _) (totals_sorted _)
  have pair := le_antisymm ((before_iff a b).mp le) ((before_iff b a).mp ge)
  exact List.inj_on_of_nodup_map second.distinct (same.mem_iff.mp memA) memB pair

theorem isBalanced_iff {ledger : SettlementLedger} (tallies : Tallies Prod.fst Prod.snd
      (ledger.days.map fun day => (day.assetId, day.allocatedRaw)) perAsset)
    (distinct : (ledger.allocations.map (·.assetId)).Nodup) :
    isBalanced perAsset ledger.allocations = true ↔ ledger.Agrees := by
  have keys : ∀ asset, asset ∈ perAsset.map (·.1) ↔ asset ∈ ledger.days.map (·.assetId) := by
    intro asset
    simpa using tallies.keys asset
  constructor
  · intro balanced
    simp only [isBalanced, Bool.and_eq_true, decide_eq_true_eq, List.all_eq_true,
      List.any_eq_true] at balanced
    obtain ⟨length, found⟩ := balanced
    have sub : perAsset.map (·.1) ⊆ ledger.allocations.map (·.assetId) := by
      intro asset mem
      obtain ⟨entry, listed, rfl⟩ := List.mem_map.mp mem
      obtain ⟨control, member, same, -⟩ := found entry listed
      exact List.mem_map.mpr ⟨control, member, same⟩
    have perm := (tallies.distinct.subperm sub).perm_of_length_le (by simp [length])
    refine ⟨fun asset => (keys asset).symm.trans perm.mem_iff, fun control mem => ?_⟩
    obtain ⟨entry, listed, same⟩ :=
      List.mem_map.mp (perm.mem_iff.mpr (List.mem_map_of_mem mem))
    obtain ⟨other, member, asset, sum⟩ := found entry listed
    cases List.inj_on_of_nodup_map distinct member mem (asset.trans same)
    rw [sum, tallies.sums entry listed, assetSum, asset]
  · rintro ⟨assets, sums⟩
    have perm := (List.perm_ext_iff_of_nodup tallies.distinct distinct).mpr fun asset =>
      (keys asset).trans (assets asset)
    refine isBalanced_of_agree (by simpa using perm.length_eq) fun entry mem => ?_
    obtain ⟨control, member, same⟩ :=
      List.mem_map.mp (perm.mem_iff.mp (List.mem_map_of_mem mem))
    refine ⟨control, member, same, ?_⟩
    rw [← sums control member, tallies.sums entry mem, assetSum, same]

end Days

section Export
variable {period : AccountingPeriod} {merchantId : Option Id} {ledger ledger' : SettlementLedger}
  {export_ export' : AccountingExport}

theorem buildExport_cases (ok : buildExport period merchantId ledger = .ok export_) :
    ∃ totals perAsset, ledger.days.foldlM addDay [] = .ok totals ∧
      export_.totals.foldlM addAsset [] = .ok perAsset ∧
      export_.totals = (totals.insertionSort fun a b => a.before b) ∧
      export_.control.balanced = isBalanced perAsset ledger.allocations := by
  obtain ⟨totals, added, ok⟩ := except_bind_ok ok
  obtain ⟨perAsset, summed, ⟨⟩⟩ := except_bind_ok ok
  exact ⟨totals, perAsset, added, summed, rfl, rfl⟩

theorem buildExport_unordered (perm : ledger.days.Perm ledger'.days)
    (controls : ledger'.allocations = ledger.allocations)
    (ok : buildExport period merchantId ledger = .ok export_)
    (ok' : buildExport period merchantId ledger' = .ok export') :
    export'.totals = export_.totals ∧ export'.control.balanced = export_.control.balanced := by
  obtain ⟨totals, perAsset, added, summed, sorted, balanced⟩ := buildExport_cases ok
  obtain ⟨totals', perAsset', added', summed', sorted', balanced'⟩ := buildExport_cases ok'
  have same : export'.totals = export_.totals := by
    rw [sorted, sorted', totals_unordered perm added added']
  rw [same, summed] at summed'
  cases summed'
  exact ⟨same, by rw [balanced, balanced', controls]⟩

theorem buildExport_balanced (ok : buildExport period merchantId ledger = .ok export_)
    (distinct : (ledger.allocations.map (·.assetId)).Nodup) :
    export_.control.balanced = true ↔ ledger.Agrees := by
  obtain ⟨totals, perAsset, added, summed, sorted, balanced⟩ := buildExport_cases ok
  rw [sorted] at summed
  have byAsset := (sorted_tallies added).coarsen Prod.fst SettlementSums.allocatedHom
    (perAsset_tallies summed)
  rw [List.map_map] at byAsset
  rw [balanced]
  exact isBalanced_iff byAsset distinct

theorem buildExport_returns (typed : ∀ day ∈ ledger.days, day.toSettlementSums.Held)
    (running : ∀ part k, part <+: ledger.days → (pairSums part k).Held)
    (fits : ∀ asset, assetSum ledger.days asset < rawLimit) :
    ∃ export_, buildExport period merchantId ledger = .ok export_ := by
  obtain ⟨totals, added⟩ := totals_returned typed running
  obtain ⟨perAsset, summed⟩ := perAsset_returned (sorted_tallies added) fun asset => by
    rw [List.map_map]
    exact fits asset
  exact buildExport_ok period merchantId added summed

theorem running_held (minor : ∀ day ∈ ledger.days, 0 ≤ day.fiatMinor)
    (whole : ∀ k, (pairSums ledger.days k).Held) :
    ∀ part k, part <+: ledger.days → (pairSums part k).Held := by
  rintro part k ⟨rest, split⟩
  rw [← split] at whole minor
  have held := whole k
  rw [pairSums_append] at held
  exact held.of_add (pairSums_fiat_nonneg (fun day mem => minor day (List.mem_append_left _ mem)) k)
    (pairSums_fiat_nonneg (fun day mem => minor day (List.mem_append_right _ mem)) k)

end Export

/-- What `build_export` returns, and when it fails, for days whose fields are in the ranges
    of their types. -/
theorem buildExport_adds_up (period : AccountingPeriod) (merchantId : Option Id)
    (ledger : SettlementLedger) (typed : ∀ day ∈ ledger.days, day.toSettlementSums.Held) :
    (∀ export_, buildExport period merchantId ledger = .ok export_ →
      (export_.totals.map (·.pair)).Nodup ∧
      (∀ k, k ∈ export_.totals.map (·.pair) ↔ k ∈ ledger.days.map (·.pair)) ∧
      (export_.totals.Pairwise fun a b => toLex a.pair ≤ toLex b.pair) ∧
      (∀ total ∈ export_.totals, total.toSettlementSums = pairSums ledger.days total.pair) ∧
      (∀ ledger' export', ledger.days.Perm ledger'.days →
        ledger'.allocations = ledger.allocations →
        buildExport period merchantId ledger' = .ok export' →
        export'.totals = export_.totals ∧
          export'.control.balanced = export_.control.balanced) ∧
      ((ledger.allocations.map (·.assetId)).Nodup →
        (export_.control.balanced = true ↔ ledger.Agrees))) ∧
    (∀ error, buildExport period merchantId ledger = .error error →
      ((∃ part k, part <+: ledger.days ∧ ¬ (pairSums part k).Held) ∨
        ∃ asset, rawLimit ≤ assetSum ledger.days asset) ∧
      ((∀ day ∈ ledger.days, 0 ≤ day.fiatMinor) →
        (∃ k, ¬ (pairSums ledger.days k).Held) ∨
          ∃ asset, rawLimit ≤ assetSum ledger.days asset)) := by
  constructor
  · intro export_ ok
    obtain ⟨totals, perAsset, added, -, sorted, -⟩ := buildExport_cases ok
    have tallies := sorted_tallies added
    rw [← sorted] at tallies
    refine ⟨tallies.distinct, fun k => by simpa using tallies.keys k, ?_, tallies.sums,
      fun ledger' export' perm controls ok' => buildExport_unordered perm controls ok ok',
      buildExport_balanced ok⟩
    rw [sorted]
    exact (totals_sorted totals).imp fun {a b} le => (before_iff a b).mp le
  · intro error failed
    have returns : (∀ part k, part <+: ledger.days → (pairSums part k).Held) →
        ¬ ∀ asset, assetSum ledger.days asset < rawLimit := by
      intro running fits
      obtain ⟨export_, ok⟩ := buildExport_returns typed running fits
      rw [failed] at ok
      cases ok
    constructor
    · by_contra none
      push Not at none
      exact returns none.1 none.2
    · intro minor
      by_contra none
      push Not at none
      exact returns (running_held minor none.1) none.2

namespace Sample

def dayOf (day fiatMinor : Int) : SettlementDay :=
    ⟨⟨day, 1, [], 1, ['E']⟩, ⟨1, 0, 0, 5, fiatMinor, 0⟩⟩

theorem buildExport_adds_up_days :
    ∃ export_, buildExport ⟨0, 1⟩ none ⟨[dayOf 0 7, dayOf 1 8], [⟨1, 2, 10⟩]⟩ = .ok export_ ∧
      (export_.totals.map (·.pair)).Nodup :=
  ⟨_, rfl, ((buildExport_adds_up ⟨0, 1⟩ none ⟨[dayOf 0 7, dayOf 1 8], [⟨1, 2, 10⟩]⟩ (by
    intro day mem
    rcases List.mem_pair.mp mem with rfl | rfl
    · exact ⟨by decide, by decide, by decide, by decide, by decide, by decide⟩
    · exact ⟨by decide, by decide, by decide, by decide, by decide, by decide⟩)).1 _ rfl).1⟩

/-- A sum that passes the range of `i128` on the way back into it. -/
def refunded : List SettlementDay := [dayOf 0 (i128Limit - 1), dayOf 1 1, dayOf 2 (-1)]

theorem refunded_refused :
    buildExport ⟨0, 2⟩ none ⟨refunded, [⟨1, 3, 15⟩]⟩ = .error sumsOverflow ∧
      (∀ k, (pairSums refunded k).Held) ∧ ∀ asset, assetSum refunded asset < rawLimit := by
  refine ⟨by decide +kernel, fun k => ?_, fun asset => ?_⟩
  · by_cases same : k = (1, ['E'])
    · subst same
      exact ⟨by decide, by decide, by decide, by decide, by decide, by decide⟩
    · have other : pairSums refunded k = 0 := amountOf_absent (by
        intro mem
        exact same (by simpa [refunded, dayOf, DayKey.pair] using mem))
      rw [other]
      exact ⟨by decide, by decide, by decide, by decide, by decide, by decide⟩
  · by_cases same : asset = 1
    · subst same
      decide
    · have other : assetSum refunded asset = 0 := amountOf_absent (by
        intro mem
        exact same (by simpa [refunded, dayOf] using mem))
      rw [other]
      decide

end Sample
end CryptoGateway
