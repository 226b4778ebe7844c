import CryptoGateway.Properties.Decisions
import Mathlib.Algebra.Order.Ring.Abs
import Mathlib.Algebra.Order.Ring.Int

/-!
The accounting export: the decisions and the allocations of a period are the same money, so its
two independently grouped sums agree.
-/
namespace CryptoGateway
open Engine

section Pairs
variable {config : Config} {db : Db} (externalId : Id → Text) (q : LedgerQuery)

def countedDecisions (db : Db) : List ((Id × Id) × DecisionRow) :=
  db.decisions.entries.filter fun e => q.counts e.2

def pairedDecisions (db : Db) : List ((Id × Id) × DecisionRow) :=
  db.allocations.entries.filterMap fun e =>
    ((db.decisions.row (e.2.paymentIntentId, e.1.2)).filter (q.counts ·)).map
      ((e.2.paymentIntentId, e.1.2), ·)

def moneyOf (db : Db) (e : (Id × Id) × DecisionRow) : Option (Id × Nat) :=
  (db.transfers.row e.1.2).map fun transfer => (transfer.assetId, e.2.allocatedRaw)

variable {q}

theorem counts_money {row : DecisionRow} (counts : q.counts row = true) :
    row.outcome ∈ moneyOutcomes := by
  simp only [LedgerQuery.counts, Bool.and_eq_true, decide_eq_true_eq] at counts
  exact counts.1.1.1

theorem pairedDecisions_nodup (ledger : Ledger db) : (pairedDecisions q db).Nodup := by
  refine List.pairwise_filterMap.mpr
    (db.allocations.entries_nodup.imp_of_mem ?_)
  rintro ⟨⟨a, t⟩, row⟩ ⟨⟨b, t'⟩, other⟩ first second ne e mem e' mem' rfl
  simp only [Option.map_eq_some_iff] at mem mem'
  obtain ⟨_, _, rfl⟩ := mem
  obtain ⟨_, _, eq⟩ := mem'
  -- one transfer has one allocation
  cases (Prod.mk.inj (Prod.mk.inj eq).1).2
  rw [Table.mem_entries] at first second
  cases ledger.single first second
  cases first.symm.trans second
  exact ne rfl

theorem pairedDecisions_perm (ledger : Ledger db) (books : Books db) :
    (pairedDecisions q db).Perm (countedDecisions q db) := by
  refine (List.perm_ext_iff_of_nodup (pairedDecisions_nodup ledger)
    (db.decisions.entries_nodup.filter _)).mpr ?_
  rintro ⟨⟨i, t⟩, decision⟩
  simp only [pairedDecisions, List.mem_filterMap, List.mem_filter,
    Table.mem_entries, Option.map_eq_some_iff, Option.filter_eq_some_iff, Prod.exists]
  constructor
  · rintro ⟨a, t', row, _, d, ⟨found, counts⟩, eq⟩
    cases eq
    exact ⟨found, counts⟩
  · rintro ⟨found, counts⟩
    obtain ⟨a, row, stored, rfl⟩ := books.decision found (counts_money counts)
    exact ⟨a, t, row, stored, decision, ⟨found, counts⟩, rfl⟩

theorem allocationRows_eq (books : Books db) :
    allocationRows q db = (pairedDecisions q db).filterMap (moneyOf db) := by
  rw [allocationRows, pairedDecisions, List.filterMap_filterMap]
  refine List.filterMap_congr ?_
  rintro ⟨⟨a, t⟩, row⟩ mem
  obtain ⟨decision, found, _, same⟩ := (books.allocation (Table.mem_entries.mp mem)).decision
  by_cases counts : q.counts decision = true
  · cases known : db.transfers.row t <;> simp [Option.filter, moneyOf, found, known, counts, same]
  · cases db.transfers.row t <;> simp [Option.filter, found, counts]

theorem money_joined (sane : Sane config db) (books : Books db) {i t : Id} {row : DecisionRow}
    (found : db.decisions.row (i, t) = some row) (money : row.outcome ∈ moneyOutcomes) :
    (∃ transfer, db.transfers.row t = some transfer) ∧ ∃ intent, db.intents.row i =
    some intent := by
  obtain ⟨a, allocation, stored, rfl⟩ := books.decision found money
  have backed := sane.ledger.allocation stored
  obtain ⟨processing, opened⟩ := backed.processing
  obtain ⟨transfer, known, _⟩ := sane.ledger.covered opened
  obtain ⟨terms, attempt, ofIntent⟩ := backed.attempt
  obtain ⟨intent, owner, _⟩ := (sane.links.attempt attempt).intent
  obtain ⟨row, kept, _⟩ := Option.map_eq_some_iff.mp owner
  exact ⟨⟨transfer, known⟩, row, by rw [← ofIntent]; exact kept⟩

theorem decisionRows_money (sane : Sane config db) (books : Books db) :
    (decisionRows externalId q db).map (fun r => (r.1.assetId, r.2.allocatedRaw)) =
      (countedDecisions q db).filterMap (moneyOf db) := by
  rw [decisionRows, countedDecisions, List.map_filterMap, ← List.filterMap_eq_filter,
    List.filterMap_filterMap]
  refine List.filterMap_congr ?_
  rintro ⟨⟨i, t⟩, row⟩ mem
  by_cases counts : q.counts row = true
  · obtain ⟨⟨transfer, known⟩, intent, owner⟩ :=
      money_joined sane books (Table.mem_entries.mp mem) (counts_money counts)
    simp [Option.guard, counts, known, owner, moneyOf, DecisionRow.sums]
  · simp [Option.guard, counts]

theorem period_money (sane : Sane config db) (books : Books db) :
    ((decisionRows externalId q db).map fun r => (r.1.assetId, r.2.allocatedRaw)).Perm
      (allocationRows q db) := by
  rw [decisionRows_money externalId sane books, allocationRows_eq books]
  exact ((pairedDecisions_perm sane.ledger books).filterMap _).symm

end Pairs

/-! What the export does with the rows. -/

namespace SettlementSums

def allocatedHom : SettlementSums →+ Nat where
  toFun := allocatedRaw
  map_zero' := rfl
  map_add' _ _ := rfl

theorem readSums_ok {row sums : SettlementSums} (ok : readSums row = .ok sums) : sums = row := by
  simp only [readSums, count, raw, fiat] at ok
  repeat obtain ⟨_, check, ok⟩ := except_bind_ok ok; split at check <;> cases check
  cases ok
  rfl

end SettlementSums

def DayKey.pair (key : DayKey) : Id × CurrencyCode := (key.assetId, key.fiatCurrency)

def SettlementTotal.pair (total : SettlementTotal) : Id × CurrencyCode :=
  (total.assetId, total.fiatCurrency)

theorem checkedAdd_ok {limit a b c : Nat} (ok : checkedAdd limit a b = .ok c) : c = a + b := by
  unfold checkedAdd at ok
  split at ok <;> cases ok
  rfl

theorem checkedAddI128_ok {a b c : Int} (ok : checkedAddI128 a b = .ok c) : c = a + b := by
  unfold checkedAddI128 at ok
  split at ok <;> cases ok
  rfl

theorem SettlementTotal.add_ok {total sum : SettlementTotal} {day : SettlementSums}
    (ok : total.add day = .ok sum) :
    sum.pair = total.pair ∧ sum.toSettlementSums = total.toSettlementSums + day := by
  unfold SettlementTotal.add at ok
  obtain ⟨_, first, ok⟩ := except_bind_ok ok
  obtain ⟨_, second, ok⟩ := except_bind_ok ok
  obtain ⟨_, third, ok⟩ := except_bind_ok ok
  obtain ⟨_, fourth, ok⟩ := except_bind_ok ok
  obtain ⟨_, fifth, ok⟩ := except_bind_ok ok
  obtain ⟨_, sixth, ⟨⟩⟩ := except_bind_ok ok
  cases checkedAdd_ok first
  cases checkedAdd_ok second
  cases checkedAdd_ok third
  cases checkedAdd_ok fourth
  cases checkedAddI128_ok fifth
  cases checkedAdd_ok sixth
  exact ⟨rfl, rfl⟩

theorem addDay_adds (day : SettlementDay) :
    Adds SettlementTotal.pair SettlementTotal.toSettlementSums day.pair day.toSettlementSums
      (fun t => decide (t.assetId = day.assetId ∧ t.fiatCurrency = day.fiatCurrency))
      (SettlementTotal.add
        { (0 : SettlementSums) with assetId := day.assetId, fiatCurrency := day.fiatCurrency }
        day.toSettlementSums)
      (·.add day.toSettlementSums) where
  hits t := by simp [SettlementTotal.pair, DayKey.pair]
  create c ok := by
    obtain ⟨pair, sums⟩ := SettlementTotal.add_ok ok
    exact ⟨pair, sums.trans (zero_add _)⟩
  add x y same ok := by
    obtain ⟨pair, sums⟩ := SettlementTotal.add_ok ok
    exact ⟨pair.trans same, sums⟩

theorem addAsset_adds (total : SettlementTotal) :
    Adds Prod.fst Prod.snd total.assetId total.allocatedRaw
      (fun entry => decide (entry.1 = total.assetId))
      (.ok (total.assetId, total.allocatedRaw))
      (fun entry : Id × Nat => do
        let sum ← checkedAdd rawLimit entry.2 total.allocatedRaw
        pure (entry.1, sum)) where
  hits entry := by simp
  create c ok := by cases ok; exact ⟨rfl, rfl⟩
  add x y same ok := by
    obtain ⟨sum, added, ⟨⟩⟩ := except_bind_ok ok
    exact ⟨same, checkedAdd_ok added⟩

section Export
variable {externalId : Id → Text} {q : LedgerQuery} {maxRows : Nat} {db : Db}

theorem dayRows_tallies :
    Tallies Prod.fst Prod.snd (decisionRows externalId q db) (dayRows externalId q db) := by
  have groups := groupBy_tallies Prod.fst Prod.snd (decisionRows externalId q db)
  rw [List.map_id'] at groups
  exact (groups.congr (by simp [Function.comp_def])).perm (List.perm_insertionSort _ _).symm

theorem controlRows_tallies :
    Tallies Prod.fst (fun g : Id × List Nat => g.2.sum) (allocationRows q db)
      (controlRows q db) := by
  have groups := groupBy_tallies Prod.fst Prod.snd (allocationRows q db)
  rw [List.map_id'] at groups
  exact (groups.congr (by simp [Function.comp_def])).perm (List.perm_insertionSort _ _).symm

theorem settlementLedger_ok {ledger : SettlementLedger}
    (fits : (dayRows externalId q db).length ≤ min maxRows i64Max)
    (ok : settlementLedger externalId q maxRows db = .ok ledger) :
    Tallies SettlementDay.toDayKey SettlementDay.toSettlementSums (decisionRows externalId q db)
        ledger.days ∧
      Tallies AllocationControl.assetId AllocationControl.allocatedRaw (allocationRows q db)
        ledger.allocations := by
  obtain ⟨days, read, ok⟩ := except_bind_ok ok
  obtain ⟨allocations, controls, ⟨⟩⟩ := except_bind_ok ok
  rw [List.take_of_length_le (by unfold rowLimit; omega)] at read
  refine ⟨dayRows_tallies.congr (map_mapM ?_ read), controlRows_tallies.congr
    (map_mapM ?_ controls)⟩
  · intro row day ok
    obtain ⟨sums, checked, ⟨⟩⟩ := except_bind_ok ok
    rw [SettlementSums.readSums_ok checked]
  · intro row control ok
    obtain ⟨_, _, ok⟩ := except_bind_ok ok
    obtain ⟨sum, checked, ⟨⟩⟩ := except_bind_ok ok
    unfold raw at checked
    split at checked <;> cases checked
    rfl

variable {totals : List SettlementTotal} {perAsset : List (Id × Nat)}

theorem totals_tallies {days : List SettlementDay} (ok : days.foldlM addDay [] = .ok totals) :
    Tallies SettlementTotal.pair SettlementTotal.toSettlementSums
      (days.map fun day => (day.pair, day.toSettlementSums)) totals := by
  have run := tallies_foldlM (fun day : SettlementDay => (day.pair, day.toSettlementSums))
    (fun day rows xs ys before one => (addDay_adds day).tallies before one) Tallies.nil ok
  simpa using run

theorem perAsset_tallies (ok : totals.foldlM addAsset [] = .ok perAsset) :
    Tallies Prod.fst Prod.snd (totals.map fun total => (total.assetId, total.allocatedRaw))
      perAsset := by
  have run := tallies_foldlM
    (fun total : SettlementTotal => (total.assetId, total.allocatedRaw))
    (fun total rows xs ys before one => (addAsset_adds total).tallies before one) Tallies.nil ok
  simpa using run

theorem buildExport_perAsset {days : List SettlementDay}
    (tallies : Tallies SettlementDay.toDayKey SettlementDay.toSettlementSums
      (decisionRows externalId q db) days) (added : days.foldlM addDay [] = .ok totals)
    (summed : (totals.insertionSort fun a b => a.before b).foldlM addAsset [] = .ok perAsset) :
    Tallies Prod.fst Prod.snd
      ((decisionRows externalId q db).map fun r => (r.1.assetId, r.2.allocatedRaw)) perAsset := by
  have byPair := tallies.coarsen DayKey.pair (AddMonoidHom.id _) (totals_tallies added)
  have sorted := byPair.perm (List.perm_insertionSort (fun a b => a.before b) totals).symm
  have byAsset := sorted.coarsen Prod.fst SettlementSums.allocatedHom (perAsset_tallies summed)
  rw [List.map_map] at byAsset
  exact byAsset

theorem buildExport_ok {ledger : SettlementLedger} (period : AccountingPeriod)
    (merchantId : Option Id)
    (added : ledger.days.foldlM addDay [] = .ok totals)
    (summed : (totals.insertionSort fun a b => a.before b).foldlM addAsset [] = .ok perAsset) :
    ∃ export_, buildExport period merchantId ledger = .ok export_ := by
  refine ⟨⟨period, merchantId, ledger.days, totals.insertionSort fun a b => a.before b,
    ledger.allocations, isBalanced perAsset ledger.allocations⟩, ?_⟩
  simp only [buildExport, added, summed, bind, Except.bind, pure, Except.pure]

theorem isBalanced_of_agree {allocations : List AllocationControl}
    (length : perAsset.length = allocations.length)
    (found : ∀ entry ∈ perAsset, ∃ control ∈ allocations, control.assetId = entry.1 ∧
      control.allocatedRaw = entry.2) : isBalanced perAsset allocations = true := by
  simp only [isBalanced, length, decide_true, Bool.true_and, List.all_eq_true, List.any_eq_true,
    decide_eq_true_eq]
  exact found

end Export

/-! When the sums fit their types. -/

namespace SettlementSums

def size (a : SettlementSums) : SettlementSums := { a with fiatMinor := |a.fiatMinor| }

structure Within (a bound : SettlementSums) : Prop where
  payments : a.payments ≤ bound.payments
  partialPayments : a.partialPayments ≤ bound.partialPayments
  overpaidPayments : a.overpaidPayments ≤ bound.overpaidPayments
  allocatedRaw : a.allocatedRaw ≤ bound.allocatedRaw
  fiatMinor : |a.fiatMinor| ≤ bound.fiatMinor
  remainderRaw : a.remainderRaw ≤ bound.remainderRaw

structure Fits (a : SettlementSums) : Prop where
  payments : a.payments ≤ i64Max
  partialPayments : a.partialPayments ≤ i64Max
  overpaidPayments : a.overpaidPayments ≤ i64Max
  allocatedRaw : a.allocatedRaw < rawLimit
  fiatMinor : |a.fiatMinor| < i128Limit
  remainderRaw : a.remainderRaw < rawLimit

theorem within_size (a : SettlementSums) : a.Within a.size :=
  ⟨le_rfl, le_rfl, le_rfl, le_rfl, le_rfl, le_rfl⟩

theorem zero_within (a : SettlementSums) : (0 : SettlementSums).Within a.size :=
  ⟨Nat.zero_le _, Nat.zero_le _, Nat.zero_le _, Nat.zero_le _, by simp [zero_eq, size],
    Nat.zero_le _⟩

theorem Within.zero : (0 : SettlementSums).Within 0 := by constructor <;> simp [zero_eq]

variable {b a : SettlementSums}

theorem Within.add {c d : SettlementSums} (first : a.Within b) (second : c.Within d) :
    (a + c).Within (b + d) where
  payments := Nat.add_le_add first.payments second.payments
  partialPayments := Nat.add_le_add first.partialPayments second.partialPayments
  overpaidPayments := Nat.add_le_add first.overpaidPayments second.overpaidPayments
  allocatedRaw := Nat.add_le_add first.allocatedRaw second.allocatedRaw
  fiatMinor := (abs_add_le _ _).trans (add_le_add first.fiatMinor second.fiatMinor)
  remainderRaw := Nat.add_le_add first.remainderRaw second.remainderRaw

theorem Within.ite {c d : Prop} [Decidable c] [Decidable d] (imp : c → d)
    (within : a.Within b) (zero : (0 : SettlementSums).Within b) :
    (if c then a else 0 : SettlementSums).Within (if d then b else 0) := by
  by_cases first : c
  · rw [if_pos first, if_pos (imp first)]
    exact within
  · rw [if_neg first]
    split
    · exact zero
    · exact .zero

theorem Within.zero_ite {c : Prop} [Decidable c]
    (zero : (0 : SettlementSums).Within b) : (0 : SettlementSums).Within (if c then b else 0) := by
  split
  · exact zero
  · exact .zero

theorem Within.sum {α : Type} {f g : α → SettlementSums} {part l : List α} (sub : part.Sublist l)
    (each : ∀ a ∈ l, (f a).Within (g a)) (rest : ∀ a ∈ l, (0 : SettlementSums).Within (g a)) :
    (part.map f).sum.Within (l.map g).sum := by
  induction sub with
  | slnil => exact .zero
  | cons a _ ih =>
    rw [List.map_cons, List.sum_cons, ← zero_add (List.sum (List.map f _))]
    exact (rest a List.mem_cons_self).add (ih (fun b mem => each b (List.mem_cons_of_mem _ mem))
      fun b mem => rest b (List.mem_cons_of_mem _ mem))
  | cons_cons a _ ih =>
    rw [List.map_cons, List.map_cons, List.sum_cons, List.sum_cons]
    exact (each a List.mem_cons_self).add (ih (fun b mem => each b (List.mem_cons_of_mem _ mem))
      fun b mem => rest b (List.mem_cons_of_mem _ mem))

theorem Within.fits (within : a.Within b) (fits : b.Fits) : a.Fits where
  payments := within.payments.trans fits.payments
  partialPayments := within.partialPayments.trans fits.partialPayments
  overpaidPayments := within.overpaidPayments.trans fits.overpaidPayments
  allocatedRaw := within.allocatedRaw.trans_lt fits.allocatedRaw
  fiatMinor := (within.fiatMinor.trans (le_abs_self _)).trans_lt fits.fiatMinor
  remainderRaw := within.remainderRaw.trans_lt fits.remainderRaw

theorem Fits.read {row : SettlementSums} (fits : row.Fits) : readSums row = .ok row := by
  obtain ⟨low, high⟩ := abs_lt.mp fits.fiatMinor
  simp [readSums, count, raw, fiat, fits.payments, fits.partialPayments, fits.overpaidPayments,
    fits.allocatedRaw, fits.remainderRaw, low.le, high]
  rfl

/-- The ranges of `u64`, `RawAmount` and `i128`. -/
structure Held (a : SettlementSums) : Prop where
  payments : a.payments < u64Limit
  partialPayments : a.partialPayments < u64Limit
  overpaidPayments : a.overpaidPayments < u64Limit
  allocatedRaw : a.allocatedRaw < rawLimit
  fiatMinor : -i128Limit ≤ a.fiatMinor ∧ a.fiatMinor < i128Limit
  remainderRaw : a.remainderRaw < rawLimit

theorem Held.add {total : SettlementTotal} {day : SettlementSums}
    (held : (total.toSettlementSums + day).Held) : ∃ sum, total.add day = .ok sum := by
  have nats : ∀ {limit a b : Nat}, a + b < limit → checkedAdd limit a b = .ok (a + b) :=
    fun lt => if_pos lt
  have minor : checkedAddI128 total.fiatMinor day.fiatMinor = .ok _ := if_pos held.fiatMinor
  unfold SettlementTotal.add
  rw [nats held.payments, nats held.partialPayments, nats held.overpaidPayments,
    nats held.allocatedRaw, minor, nats held.remainderRaw]
  exact ⟨_, rfl⟩

theorem Fits.held {a : SettlementSums} (fits : a.Fits) : a.Held := by
  obtain ⟨low, high⟩ := abs_lt.mp fits.fiatMinor
  have counts : i64Max < u64Limit := by decide
  exact ⟨fits.payments.trans_lt counts, fits.partialPayments.trans_lt counts,
    fits.overpaidPayments.trans_lt counts, fits.allocatedRaw, ⟨low.le, high⟩, fits.remainderRaw⟩

end SettlementSums

def pairSums (days : List SettlementDay) (k : Id × CurrencyCode) : SettlementSums :=
  amountOf k (days.map fun day => (day.pair, day.toSettlementSums))

section Loops
variable {days : List SettlementDay} {totals : List SettlementTotal}

theorem totals_returned (typed : ∀ day ∈ days, day.toSettlementSums.Held)
    (running : ∀ part k, part <+: days → (pairSums part k).Held) :
    ∃ totals, days.foldlM addDay [] = .ok totals := by
  refine foldlM_returns (fun day : SettlementDay => (day.pair, day.toSettlementSums))
    (fun day rows xs ys before one => (addDay_adds day).tallies before one) Tallies.nil ?_
  intro done day rest split xs before
  refine (addDay_adds day).returns ?_ fun total mem same => ?_
  · refine SettlementSums.Held.add ?_
    have one := typed day (by simp [split])
    simpa using one
  · refine SettlementSums.Held.add ?_
    have upto := running (done ++ [day]) day.pair ⟨rest, by simp [split]⟩
    rw [before.sums total mem, same]
    simpa [pairSums] using upto

theorem perAsset_returned {rows : List ((Id × CurrencyCode) × SettlementSums)}
    (tallies : Tallies SettlementTotal.pair SettlementTotal.toSettlementSums rows totals)
    (fits : ∀ asset, amountOf asset (rows.map fun r => (r.1.1, r.2.allocatedRaw)) < rawLimit) :
    ∃ perAsset, totals.foldlM addAsset [] = .ok perAsset := by
  refine foldlM_returns (fun total : SettlementTotal => (total.assetId, total.allocatedRaw))
    (fun total rows xs ys before one => (addAsset_adds total).tallies before one) Tallies.nil ?_
  rintro done total rest rfl xs before
  refine (addAsset_adds total).returns ⟨_, rfl⟩ fun entry mem same => ?_
  have whole := tallies.amountOf_coarsen Prod.fst SettlementSums.allocatedHom total.assetId
  rw [List.map_append, List.map_cons, amountOf_append, amountOf_cons,
    if_pos (by rfl)] at whole
  have sum : entry.2 + total.allocatedRaw < rawLimit := by
    rw [before.sums entry mem, same, List.nil_append]
    refine lt_of_le_of_lt ?_ (whole.trans_lt (fits total.assetId))
    exact Nat.add_le_add_left (Nat.le_add_right _ _) _
  exact ⟨(entry.1, entry.2 + total.allocatedRaw), by rw [checkedAdd, if_pos sum]; rfl⟩

end Loops

section Returns
variable {externalId : Id → Text} {q : LedgerQuery} {db : Db}

def sizedRows (externalId : Id → Text) (q : LedgerQuery) (db : Db) :
    List (DayKey × SettlementSums) :=
  (decisionRows externalId q db).map fun r => (r.1, r.2.size)

structure SumsFit (externalId : Id → Text) (q : LedgerQuery) (db : Db) : Prop where
  sums : ∀ pair, SettlementSums.Fits
    (amountOf pair ((sizedRows externalId q db).map fun r => (r.1.pair, r.2)))
  raws : ∀ asset, amountOf asset (allocationRows q db) < rawLimit
  few : (allocationRows q db).length ≤ i64Max

theorem amountOf_within {κ κ' : Type} [DecidableEq κ] [DecidableEq κ'] (c : DayKey → κ)
    (c' : DayKey → κ') {k : κ} {k' : κ'} (covers : ∀ key, c key = k → c' key = k')
    (rows : List (DayKey × SettlementSums)) :
    SettlementSums.Within (amountOf k (rows.map fun r => (c r.1, r.2)))
      (amountOf k' (rows.map fun r => (c' r.1, r.2.size))) := by
  rw [amountOf, amountOf, List.map_map, List.map_map]
  exact .sum (List.Sublist.refl _) (fun r _ => .ite (covers r.1) r.2.within_size r.2.zero_within)
    fun r _ => .zero_ite r.2.zero_within

theorem zero_within_sizedRows (k : DayKey) :
    (0 : SettlementSums).Within (amountOf k (sizedRows externalId q db)) := by
  have none := SettlementSums.Within.sum (List.nil_sublist (decisionRows externalId q db))
    (fun r _ => SettlementSums.Within.ite (c := r.1 = k) id r.2.within_size r.2.zero_within)
    fun r _ => .zero_ite r.2.zero_within
  rw [sizedRows, amountOf, List.map_map]
  exact none

theorem SumsFit.day (fit : SumsFit externalId q db) {row : DayKey × SettlementSums}
    (mem : row ∈ dayRows externalId q db) : row.2.Fits := by
  have within := amountOf_within id DayKey.pair (k := row.1)
    (fun key same => congrArg DayKey.pair same) (decisionRows externalId q db)
  have all := fit.sums row.1.pair
  simp only [sizedRows, List.map_map, Function.comp_def] at all
  rw [dayRows_tallies.sums row mem]
  exact SettlementSums.Within.fits (by simpa using within) all

section Loops
variable {days : List SettlementDay} {totals : List SettlementTotal}

theorem SumsFit.some_days (fit : SumsFit externalId q db)
    (tallies : Tallies SettlementDay.toDayKey SettlementDay.toSettlementSums
      (decisionRows externalId q db) days)
    (part : List SettlementDay) (sub : part.Sublist days) (k : Id × CurrencyCode) :
    SettlementSums.Fits (amountOf k (part.map fun day => (day.pair, day.toSettlementSums))) := by
  have sized : Tallies SettlementDay.toDayKey
      (fun day => amountOf day.toDayKey (sizedRows externalId q db))
      (sizedRows externalId q db) days :=
    ⟨tallies.distinct, fun j => by simpa [sizedRows] using tallies.keys j, fun _ _ => rfl⟩
  have all := fit.sums k
  have regroup := sized.amountOf_coarsen DayKey.pair (AddMonoidHom.id _) k
  simp only [AddMonoidHom.id_apply] at regroup
  rw [← regroup] at all
  refine SettlementSums.Within.fits ?_ all
  have each : ∀ day ∈ days,
      day.toSettlementSums.Within (amountOf day.toDayKey (sizedRows externalId q db)) := by
    intro day mem
    rw [tallies.sums day mem]
    simpa [sizedRows] using amountOf_within id id (k := day.toDayKey) (fun _ same => same)
      (decisionRows externalId q db)
  rw [amountOf, amountOf, List.map_map, List.map_map]
  exact .sum sub (fun day mem => .ite id (each day mem) (zero_within_sizedRows _)) fun day _ =>
    .zero_ite (zero_within_sizedRows _)

theorem SumsFit.totals_return (fit : SumsFit externalId q db)
    (tallies : Tallies SettlementDay.toDayKey SettlementDay.toSettlementSums
      (decisionRows externalId q db) days) : ∃ totals, days.foldlM addDay [] = .ok totals := by
  refine totals_returned (fun day mem => ?_) fun part k first =>
    (fit.some_days tallies part first.sublist k).held
  have one := fit.some_days tallies [day] (List.singleton_sublist.mpr mem) day.pair
  exact SettlementSums.Fits.held (by simpa using one)

end Loops

theorem controlRows_few {row : Id × List Nat} (mem : row ∈ controlRows q db) :
    row.2.length ≤ (allocationRows q db).length := by
  obtain ⟨g, listed, rfl⟩ := List.mem_map.mp ((List.mem_insertionSort _).mp mem)
  obtain ⟨k, _, rfl⟩ := List.mem_map.mp listed
  rw [List.length_map]
  exact List.length_filter_le _ _

theorem SumsFit.control (fit : SumsFit externalId q db) {row : Id × List Nat}
    (mem : row ∈ controlRows q db) : ∃ control, readControl row = .ok control := by
  have few : row.2.length ≤ i64Max := (controlRows_few mem).trans fit.few
  have raws : row.2.sum < rawLimit := by
    rw [controlRows_tallies.sums row mem]
    exact fit.raws row.1
  exact ⟨⟨row.1, row.2.length, row.2.sum⟩,
    by rw [readControl, count, if_pos few, raw, if_pos raws]; rfl⟩

theorem SumsFit.ledger_returns (fit : SumsFit externalId q db) (maxRows : Nat) :
    ∃ ledger, settlementLedger externalId q maxRows db = .ok ledger := by
  obtain ⟨days, read⟩ := mapM_returns readDay ((dayRows externalId q db).take (rowLimit maxRows))
    fun row mem => ⟨_, by rw [readDay, (fit.day (List.mem_of_mem_take mem)).read]; rfl⟩
  obtain ⟨allocations, controls⟩ := mapM_returns readControl (controlRows q db)
    fun row mem => fit.control mem
  exact ⟨⟨days, allocations⟩, by rw [settlementLedger, read, controls]; rfl⟩

/-- The counts of the period are bigints. -/
structure CountsFit (externalId : Id → Text) (q : LedgerQuery) (db : Db) : Prop where
  days : ∀ row ∈ dayRows externalId q db, row.2.payments ≤ i64Max ∧
    row.2.partialPayments ≤ i64Max ∧ row.2.overpaidPayments ≤ i64Max
  few : (allocationRows q db).length ≤ i64Max

theorem CountsFit.day_error (fit : CountsFit externalId q db) {row : DayKey × SettlementSums}
    (mem : row ∈ dayRows externalId q db) {e : RepositoryError} (failed : readDay row = .error e) :
    ∃ text, e = .corruptData text := by
  obtain ⟨payments, partials, overpaid⟩ := fit.days row mem
  simp only [readDay, readSums, count, if_pos payments, if_pos partials, if_pos overpaid, raw, fiat]
    at failed
  repeat' split at failed
  all_goals first
    | cases failed; exact ⟨_, rfl⟩
    | cases failed

theorem CountsFit.control_error (fit : CountsFit externalId q db) {row : Id × List Nat}
    (mem : row ∈ controlRows q db) {e : RepositoryError} (failed : readControl row = .error e) :
    ∃ text, e = .corruptData text := by
  simp only [readControl, count, if_pos ((controlRows_few mem).trans fit.few), raw] at failed
  split at failed
  · cases failed
  · cases failed
    exact ⟨_, rfl⟩

/-- The control query does not read a sum of 2^256 or more, whatever the day rows are. -/
theorem CountsFit.refused (fit : CountsFit externalId q db) (maxRows : Nat) {asset : Id}
    (large : rawLimit ≤ amountOf asset (allocationRows q db)) :
    ∃ text, settlementLedger externalId q maxRows db = .error (.corruptData text) := by
  have listed : asset ∈ (controlRows q db).map (·.1) := by
    refine (controlRows_tallies.keys asset).mpr (by_contra fun absent => ?_)
    rw [amountOf_absent absent] at large
    exact absurd large (by decide)
  obtain ⟨total, mem, rfl⟩ := List.mem_map.mp listed
  unfold settlementLedger
  rcases mapM_cases readDay ((dayRows externalId q db).take (rowLimit maxRows)) with
    each | ⟨row, inRow, e, failed, stops⟩
  · obtain ⟨days, read⟩ := mapM_returns _ _ each
    rw [read]
    rcases mapM_cases readControl (controlRows q db) with each | ⟨row, inRow, e, failed, stops⟩
    · -- the asset's own row is not read
      obtain ⟨control, ok⟩ := each total mem
      rw [← controlRows_tallies.sums total mem] at large
      obtain ⟨_, _, ok⟩ := except_bind_ok ok
      simp [raw, Nat.not_lt.mpr large] at ok
    · obtain ⟨text, rfl⟩ := fit.control_error inRow failed
      exact ⟨text, by rw [stops]; rfl⟩
  · obtain ⟨text, rfl⟩ := fit.day_error (List.mem_of_mem_take inRow) failed
    exact ⟨text, by rw [stops]; rfl⟩

end Returns

structure Balances (externalId : Id → Text) (q : LedgerQuery) (maxRows : Nat)
    (period : AccountingPeriod) (db : Db) : Prop where
  sums : ∀ asset, amountOf asset
      ((decisionRows externalId q db).map fun r => (r.1.assetId, r.2.allocatedRaw)) =
    amountOf asset (allocationRows q db)
  assets : ∀ asset, asset ∈ (decisionRows externalId q db).map (·.1.assetId) ↔
    asset ∈ (allocationRows q db).map (·.1)
  balanced : ∀ ledger export_, settlementLedger externalId q maxRows db = .ok ledger →
    buildExport period q.merchantId ledger = .ok export_ → export_.control.balanced = true
  returns : SumsFit externalId q db → ∃ ledger export_,
    settlementLedger externalId q maxRows db = .ok ledger ∧
      buildExport period q.merchantId ledger = .ok export_
  refused : CountsFit externalId q db → ∀ asset, rawLimit ≤ amountOf asset (allocationRows q db) →
    ∃ text, settlementLedger externalId q maxRows db = .error (.corruptData text)

/-- In every reached state, period and merchant whose day rows fit the ceiling, decisions and
    allocations name the same money per asset, an export is balanced and built when the sums fit
    their types, and a raw sum of 2^256 or more is refused. -/
theorem settlement_export_balances {config : Config} {allow : Gateway → Event Request → Prop}
    {s : Gateway} (reached : Reached config allow s) (externalId : Id → Text) (q : LedgerQuery)
    (maxRows : Nat) (fits : (dayRows externalId q s.db).length ≤ min maxRows i64Max)
    (period : AccountingPeriod) : Balances externalId q maxRows period s.db := by
  have money := period_money externalId (q := q) reached.sane reached.books
  refine ⟨amountOf_perm money, fun asset => ?_, fun ledger export_ read built => ?_, fun fit => ?_,
    fun counts asset large => counts.refused maxRows large⟩
  · have same := (money.map Prod.fst).mem_iff (a := asset)
    rw [List.map_map] at same
    exact same
  · obtain ⟨days, controls⟩ := settlementLedger_ok fits read
    obtain ⟨totals, added, built⟩ := except_bind_ok built
    obtain ⟨perAsset, summed, ⟨⟩⟩ := except_bind_ok built
    obtain ⟨length, found⟩ := (buildExport_perAsset days added summed).agree controls money
    exact isBalanced_of_agree length found
  · obtain ⟨ledger, read⟩ := fit.ledger_returns maxRows
    obtain ⟨days, _⟩ := settlementLedger_ok fits read
    obtain ⟨totals, added⟩ := fit.totals_return days
    have byPair := (days.coarsen DayKey.pair (AddMonoidHom.id _) (totals_tallies added)).perm
      (List.perm_insertionSort (fun a b => a.before b) totals).symm
    obtain ⟨perAsset, summed⟩ := perAsset_returned byPair fun asset => by
      rw [List.map_map]
      exact (amountOf_perm money asset).trans_lt (fit.raws asset)
    obtain ⟨export_, built⟩ := buildExport_ok period q.merchantId added summed
    exact ⟨ledger, export_, read, built⟩

namespace Sample

def firstDay : LedgerQuery := ⟨0, microsPerDay, none⟩

def noNames : Id → Text := fun _ => []

def settledLedger : SettlementLedger where
  days := [⟨⟨0, 7, [], 1, ['U', 'S', 'D']⟩, ⟨1, 0, 0, 100, 100, 0⟩⟩]
  allocations := [⟨1, 1, 100⟩]

theorem settlement_export_balances_settled :
    ∃ s export_, Reached config anyStep s ∧
      settlementLedger noNames firstDay 20000 s.db = .ok settledLedger ∧
      buildExport ⟨0, 0⟩ none settledLedger = .ok export_ ∧ export_.control.balanced = true := by
  have reached := Gateway.after_reached config anyStep settled
  have read : settlementLedger noNames firstDay 20000 (Gateway.after config anyStep settled).db =
      .ok settledLedger := by decide +kernel
  obtain ⟨export_, built⟩ : ∃ export_, buildExport ⟨0, 0⟩ none settledLedger = .ok export_ :=
    ⟨_, rfl⟩
  have balances := settlement_export_balances reached noNames firstDay 20000
    (by decide +kernel) ⟨0, 0⟩
  exact ⟨_, export_, reached, read, built, balances.balanced _ export_ read built⟩

def hugePrices : Catalog :=
  { catalog with
    prices := [(1, ['U', 'S', 'D'], ⟨1, 2 ^ 255, 1, [some ['a'], some ['b']], 0⟩)] }

def minorUnit (reference : Char) : CreatePaymentIntent :=
    { order reference with amountMinor := ['1'] }

def paidHuge : List (Slice Request) :=
  whole 0 0 (.replaceCatalog hugePrices) ++
    whole 1 0 (.registerCollector ⟨1, [1], ['a'], 0, none, .active⟩) ++
    whole 2 0 (.acquireLease ['s'] ['h'] 1000) ++
    whole 3 0 (.createIntent 7 (key 'a') (minorUnit 'r')) ++
    whole 4 0 (.issueQuote 7 (key 'b') ⟨1, 1⟩) ++
    whole 5 0 (.createIntent 7 (key 'c') (minorUnit 's')) ++
    whole 6 0 (.issueQuote 7 (key 'd') ⟨5, 1⟩) ++
    whole 7 0 (sighting 0 (2 ^ 255) 1) ++ whole 8 0 (sighting 1 (2 ^ 255 + 1) 1) ++
    whole 9 0 (sighted 9 0 (2 ^ 255) 1) ++ whole 10 0 (sighted 10 1 (2 ^ 255 + 1) 1) ++
    whole 11 0 (.settlePending lease 10)

/-- The day's row fits the ceiling, and yet nothing is exported. -/
theorem paidHuge_exports_nothing :
    Reached config anyStep (Gateway.after config anyStep paidHuge) ∧
      (dayRows noNames firstDay (Gateway.after config anyStep paidHuge).db).length = 1 ∧
      amountOf 1 (allocationRows firstDay (Gateway.after config anyStep paidHuge).db) =
        2 ^ 256 + 1 ∧
      (settlementLedger noNames firstDay 20000
        (Gateway.after config anyStep paidHuge).db).isOk = false :=
  ⟨Gateway.after_reached _ _ _, by decide +kernel, by decide +kernel, by decide +kernel⟩

end Sample
end CryptoGateway
