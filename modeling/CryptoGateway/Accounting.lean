import CryptoGateway.Engine.Tally
import CryptoGateway.Storage.Operations
import Mathlib.Data.Char
import Mathlib.Data.List.Lex

/-!
`accounting.rs` of `gateway-storage` and of `gateway-application`: settled money per UTC day,
added up from the decisions and from the allocations.
-/
namespace CryptoGateway
open Engine

/-- `MONEY_OUTCOMES`. -/
def moneyOutcomes : List DecisionOutcome := [.settled, .overpaid, .partialPay]

def microsPerDay : Int := 86400000000

def i64Max : Nat := 2 ^ 63 - 1
def u64Limit : Nat := 2 ^ 64
def i128Limit : Int := 2 ^ 127

/-- The columns that are summed, of one decision or of many. -/
@[ext] structure SettlementSums where
  payments : Nat
  partialPayments : Nat
  overpaidPayments : Nat
  allocatedRaw : Nat
  fiatMinor : Int
  remainderRaw : Nat
deriving DecidableEq, Repr

namespace SettlementSums

instance : Zero SettlementSums := ⟨⟨0, 0, 0, 0, 0, 0⟩⟩

instance : Add SettlementSums where
  add a b :=
    ⟨a.payments + b.payments, a.partialPayments + b.partialPayments,
      a.overpaidPayments + b.overpaidPayments, a.allocatedRaw + b.allocatedRaw,
      a.fiatMinor + b.fiatMinor, a.remainderRaw + b.remainderRaw⟩

theorem zero_eq : (0 : SettlementSums) = ⟨0, 0, 0, 0, 0, 0⟩ := rfl

theorem add_eq (a b : SettlementSums) : a + b =
    ⟨a.payments + b.payments, a.partialPayments + b.partialPayments,
      a.overpaidPayments + b.overpaidPayments, a.allocatedRaw + b.allocatedRaw,
      a.fiatMinor + b.fiatMinor, a.remainderRaw + b.remainderRaw⟩ := rfl

instance : AddCommMonoid SettlementSums where
  add_assoc a b c := by simp [add_eq, add_assoc]
  zero_add a := by simp [add_eq, zero_eq]
  add_zero a := by simp [add_eq, zero_eq]
  add_comm a b := by simp [add_eq, add_comm]
  nsmul := nsmulRec

end SettlementSums

/-- What the aggregates of the day query count of one decision. -/
def DecisionRow.sums (row : DecisionRow) : SettlementSums where
  payments := if row.outcome ∈ [.settled, .overpaid] then 1 else 0
  partialPayments := if row.outcome = .partialPay then 1 else 0
  overpaidPayments := if row.outcome = .overpaid then 1 else 0
  allocatedRaw := row.allocatedRaw
  fiatMinor := if row.outcome ∈ [.settled, .overpaid] then row.fiatAmountMinor else 0
  remainderRaw := row.remainderRaw

/-- `GROUP BY 1, 2, 3, 4, 5`. -/
structure DayKey where
  day : Int
  merchantId : Id
  merchantExternalId : Text
  assetId : Id
  fiatCurrency : CurrencyCode
deriving DecidableEq, Repr

/-- `ORDER BY 1, 2, 4, 5`. -/
def DayKey.before (a b : DayKey) : Bool :=
  decide (a.day < b.day) || decide (a.day = b.day) &&
    (decide (a.merchantId < b.merchantId) || decide (a.merchantId = b.merchantId) &&
      (decide (a.assetId < b.assetId) || decide (a.assetId = b.assetId) &&
        decide (a.fiatCurrency ≤ b.fiatCurrency)))

structure SettlementDay extends DayKey, SettlementSums
deriving DecidableEq, Repr

structure SettlementTotal extends SettlementSums where
  assetId : Id
  fiatCurrency : CurrencyCode
deriving DecidableEq, Repr

structure AllocationControl where
  assetId : Id
  allocationRows : Nat
  allocatedRaw : Nat
deriving DecidableEq, Repr

structure SettlementLedger where
  days : List SettlementDay
  allocations : List AllocationControl
deriving DecidableEq, Repr

structure LedgerQuery where
  start : Int
  end_ : Int
  merchantId : Option Id
deriving DecidableEq, Repr

/-- The `WHERE` clause that both queries share. -/
def LedgerQuery.counts (q : LedgerQuery) (row : DecisionRow) : Bool :=
  decide (row.outcome ∈ moneyOutcomes) && decide (q.start ≤ row.decidedAt) &&
    decide (row.decidedAt < q.end_) && q.merchantId.all fun id => decide (row.merchantId = id)

section Queries
variable (externalId : Id → Text) (q : LedgerQuery) (db : Db)

/-- The decisions joined to their transfer, intent and merchant. A merchant's row is
    never deleted; `externalId` is its column. -/
def decisionRows : List (DayKey × SettlementSums) :=
  db.decisions.entries.filterMap fun e =>
    if q.counts e.2 then do
      let transfer ← db.transfers.row e.1.2
      let intent ← db.intents.row e.1.1
      some (⟨e.2.decidedAt / microsPerDay, e.2.merchantId, externalId e.2.merchantId,
        transfer.assetId, intent.currency⟩, e.2.sums)
    else none

def dayRows : List (DayKey × SettlementSums) :=
  ((groupBy (·.1) (decisionRows externalId q db)).map fun g =>
    (g.1, (g.2.map (·.2)).sum)).insertionSort
    fun a b => DayKey.before a.1 b.1

/-- The allocations joined to their decision and transfer. -/
def allocationRows : List (Id × Nat) :=
  db.allocations.entries.filterMap fun e => do
    let decision ← db.decisions.row (e.2.paymentIntentId, e.1.2)
    let transfer ← db.transfers.row e.1.2
    if q.counts decision then some (transfer.assetId, e.2.allocatedRaw) else none

def controlRows : List (Id × List Nat) :=
  ((groupBy (·.1) (allocationRows q db)).map fun g => (g.1, g.2.map (·.2))).insertionSort
    fun a b => decide (a.1 ≤ b.1)

end Queries

/-- `count(*)` is a bigint; a larger count fails the query. -/
def count (value : Nat) : Except RepositoryError Nat :=
  if value ≤ i64Max then .ok value else .error .unavailable

def raw (value : Nat) : Except RepositoryError Nat :=
  if value < rawLimit then .ok value
  else .error (.corruptData ("a settled sum is not raw: " ++ toString value))

def fiat (value : Int) : Except RepositoryError Int :=
  if -i128Limit ≤ value ∧ value < i128Limit then .ok value
  else .error (.corruptData "a fiat sum is not an integer")

def readSums (row : SettlementSums) : Except RepositoryError SettlementSums := do
  let payments ← count row.payments
  let partialPayments ← count row.partialPayments
  let overpaidPayments ← count row.overpaidPayments
  let allocatedRaw ← raw row.allocatedRaw
  let fiatMinor ← fiat row.fiatMinor
  let remainderRaw ← raw row.remainderRaw
  pure ⟨payments, partialPayments, overpaidPayments, allocatedRaw, fiatMinor, remainderRaw⟩

def readDay (row : DayKey × SettlementSums) : Except RepositoryError SettlementDay := do
  let sums ← readSums row.2
  pure { row.1, sums with }

def readControl (row : Id × List Nat) : Except RepositoryError AllocationControl := do
  let allocationRows ← count row.2.length
  let allocatedRaw ← raw row.2.sum
  pure ⟨row.1, allocationRows, allocatedRaw⟩

/-- `i64::try_from(max_rows).unwrap_or(i64::MAX).saturating_add(1)`. -/
def rowLimit (maxRows : Nat) : Nat := min (min maxRows i64Max + 1) i64Max

/-- Both queries of the REPEATABLE READ transaction see one snapshot, `db`. -/
def settlementLedger (externalId : Id → Text) (q : LedgerQuery) (maxRows : Nat) (db : Db) :
    Except RepositoryError SettlementLedger := do
  let days ← ((dayRows externalId q db).take (rowLimit maxRows)).mapM readDay
  let allocations ← (controlRows q db).mapM readControl
  pure { days, allocations }

/-- Inclusive UTC calendar days. -/
structure AccountingPeriod where
  from_ : Int
  to_ : Int
deriving DecidableEq, Repr

structure ControlSum where
  allocations : List AllocationControl
  balanced : Bool
deriving DecidableEq, Repr

structure AccountingExport where
  period : AccountingPeriod
  merchantId : Option Id
  days : List SettlementDay
  totals : List SettlementTotal
  control : ControlSum
deriving DecidableEq, Repr

def sumsOverflow : OperationsError := .repository (.corruptData "settled sums overflow")

def checkedAdd (limit a b : Nat) : Except OperationsError Nat :=
  if a + b < limit then .ok (a + b) else .error sumsOverflow

def checkedAddI128 (a b : Int) : Except OperationsError Int :=
  if -i128Limit ≤ a + b ∧ a + b < i128Limit then .ok (a + b) else .error sumsOverflow

def SettlementTotal.add (total : SettlementTotal) (day : SettlementSums) :
    Except OperationsError SettlementTotal := do
  let payments ← checkedAdd u64Limit total.payments day.payments
  let partialPayments ← checkedAdd u64Limit total.partialPayments day.partialPayments
  let overpaidPayments ← checkedAdd u64Limit total.overpaidPayments day.overpaidPayments
  let allocatedRaw ← checkedAdd rawLimit total.allocatedRaw day.allocatedRaw
  let fiatMinor ← checkedAddI128 total.fiatMinor day.fiatMinor
  let remainderRaw ← checkedAdd rawLimit total.remainderRaw day.remainderRaw
  pure
    { total with
      payments := payments, partialPayments := partialPayments
      overpaidPayments := overpaidPayments, allocatedRaw := allocatedRaw
      fiatMinor := fiatMinor, remainderRaw := remainderRaw }

def addDay (totals : List SettlementTotal) (day : SettlementDay) :
    Except OperationsError (List SettlementTotal) :=
  accumulate (fun t => decide (t.assetId = day.assetId ∧ t.fiatCurrency = day.fiatCurrency))
    (SettlementTotal.add
      { (0 : SettlementSums) with assetId := day.assetId, fiatCurrency := day.fiatCurrency }
      day.toSettlementSums)
    (·.add day.toSettlementSums) totals

def addAsset (perAsset : List (Id × Nat)) (total : SettlementTotal) :
    Except OperationsError (List (Id × Nat)) :=
  accumulate (fun entry => decide (entry.1 = total.assetId))
    (.ok (total.assetId, total.allocatedRaw))
    (fun entry => do
      let sum ← checkedAdd rawLimit entry.2 total.allocatedRaw
      pure (entry.1, sum)) perAsset

def SettlementTotal.before (a b : SettlementTotal) : Bool :=
  decide (a.assetId < b.assetId) ||
    decide (a.assetId = b.assetId) && decide (a.fiatCurrency ≤ b.fiatCurrency)

def isBalanced (perAsset : List (Id × Nat)) (allocations : List AllocationControl) : Bool :=
  decide (perAsset.length = allocations.length) &&
    perAsset.all fun entry => allocations.any fun control =>
      decide (control.assetId = entry.1 ∧ control.allocatedRaw = entry.2)

def buildExport (period : AccountingPeriod) (merchantId : Option Id) (ledger : SettlementLedger) :
    Except OperationsError AccountingExport := do
  let totals ← ledger.days.foldlM addDay []
  let totals := totals.insertionSort fun a b => a.before b
  let perAsset ← totals.foldlM addAsset []
  pure
    { period, merchantId, days := ledger.days, totals
      control :=
        { allocations := ledger.allocations
          balanced := isBalanced perAsset ledger.allocations } }

end CryptoGateway
