import Mathlib.Data.List.Sort
import CryptoGateway.WooCommerce.OrderSync

/-!
The reconciliation job: the newest hundred orders that wait are fetched, and the first twenty of
them that are due are checked.
-/
namespace CryptoGateway.WooCommerce
open Engine

def batch : Nat := 20

def fetchLimit : Nat := 100

def maxAge : Int := 30 * 86400

/-- Seconds an unpaid order waits before the job polls it, from the configured minutes. -/
def reconcileDelay (minutes : Int) : Int := max 2 (min 1440 minutes) * 60

/-- What one run meets: its clock, whether a client is configured, which of two orders of one
    second is fetched first, and the answers and the time of every check. -/
structure Poll where
  now : Int
  client : Bool := true
  tie : Nat → Nat := fun id => id
  answers : Nat → Answers
  checkedAt : Nat → Int

section
variable (minutes : Int)

def Order.waits (now : Int) (o : Order) : Bool :=
  o.ours && o.hasStatus [.pending, .onHold] && decide (now - maxAge ≤ o.createdAt) &&
    decide (o.createdAt ≤ now - reconcileDelay minutes)

def Order.pastLateWindow (now : Int) (o : Order) : Bool :=
  decide (o.intentStatus = some .expired) && decide (0 < o.lateUntil) && decide (o.lateUntil < now)

def Order.due (now : Int) (o : Order) : Bool :=
  o.intentId.isSome && decide (o.lastChecked ≤ now - reconcileDelay minutes) &&
  !o.pastLateWindow now

def Poll.newest (poll : Poll) (a b : Nat × Order) : Bool :=
  decide (b.2.createdAt < a.2.createdAt) ||
    (decide (b.2.createdAt = a.2.createdAt) && decide (poll.tie a.1 ≤ poll.tie b.1))

def Poll.waiting (poll : Poll) (shop : Shop) : List (Nat × Order) :=
  (shop.entries.filter fun e => e.2.waits minutes poll.now).mergeSort poll.newest

def Poll.fetch (poll : Poll) (shop : Shop) : List Nat :=
  ((poll.waiting minutes shop).take fetchLimit).map (·.1)

/-- The loop over the fetched orders, with the number of checks done so far; the ids of the
    orders it checked come with the shop. -/
def Poll.loop (poll : Poll) : List Nat → Nat → Shop → Shop × List Nat
  | [], _, shop => (shop, [])
  | id :: rest, done, shop =>
    if batch ≤ done then (shop, [])
    else if (shop.row id).any (·.due minutes poll.now) then
      let after := poll.loop rest (done + 1) (check id (poll.checkedAt id) (poll.answers id) shop)
      (after.1, id :: after.2)
    else poll.loop rest done shop

def Poll.run (poll : Poll) (shop : Shop) : Shop × List Nat :=
  if poll.client then poll.loop minutes (poll.fetch minutes shop) 0 shop else (shop, [])

def runs : List Poll → Shop → Shop × List Nat
  | [], shop => (shop, [])
  | poll :: rest, shop =>
    let first := poll.run minutes shop
    let later := runs rest first.1
    (later.1, first.2 ++ later.2)

/-- A pass with room for every order: the fetch cuts none off and no more than a batch is due. -/
def Poll.roomy (poll : Poll) (shop : Shop) : Bool :=
  decide ((poll.waiting minutes shop).length ≤ fetchLimit) &&
    decide (((poll.waiting minutes shop).filter fun e => e.2.due minutes poll.now).length ≤ batch)

def roomy : List Poll → Shop → Bool
  | [], _ => true
  | poll :: rest, shop => poll.roomy minutes shop && roomy rest (poll.run minutes shop).1

end

variable {minutes : Int} {poll : Poll} {shop : Shop} {id : Nat} {o : Order}

theorem mem_waiting : (id, o) ∈ poll.waiting minutes shop ↔
    shop.row id = some o ∧ o.waits minutes poll.now = true := by
  rw [Poll.waiting, (List.mergeSort_perm _ _).mem_iff, List.mem_filter, Table.mem_entries]

theorem waiting_nodup : ((poll.waiting minutes shop).map (·.1)).Nodup := by
  have filtered : ((shop.entries.filter fun e => e.2.waits minutes poll.now).map (·.1)).Nodup :=
    (List.filter_sublist.map _).nodup (by rw [Table.keys_entries]; exact shop.nodup)
  exact ((List.mergeSort_perm _ _).map _).nodup_iff.mpr filtered

theorem check_row_ne {k : Nat} {now : Int} {answers : Answers} (other : k ≠ id) :
    (check id now answers shop).row k = shop.row k := by
  unfold check
  exact Table.row_modify_ne other _

def dueIn (minutes : Int) (poll : Poll) (shop : Shop) (ids : List Nat) : List Nat :=
  ids.filter fun id => (shop.row id).any (·.due minutes poll.now)

variable {ids : List Nat}

theorem dueIn_check {now : Int} {answers : Answers} (absent : id ∉ ids) :
    dueIn minutes poll (check id now answers shop) ids = dueIn minutes poll shop ids := by
  apply List.filter_congr
  intro k mem
  have other : k ≠ id := by
    rintro rfl
    exact absent mem
  rw [check_row_ne other]

theorem loop_checked (done : Nat) (nodup : ids.Nodup) : (poll.loop minutes ids done shop).2 =
    (dueIn minutes poll shop ids).take (batch - done) := by
  induction ids generalizing done shop with
  | nil => simp [Poll.loop, dueIn]
  | cons k rest ih =>
    obtain ⟨absent, nodup'⟩ := List.nodup_cons.mp nodup
    unfold Poll.loop
    by_cases full : batch ≤ done
    · rw [if_pos full, Nat.sub_eq_zero_of_le full, List.take_zero]
    rw [if_neg full]
    by_cases due : (shop.row k).any (·.due minutes poll.now) = true
    · have split : dueIn minutes poll shop (k :: rest) = k :: dueIn minutes poll shop rest := by
        simp [dueIn, due]
      have left : batch - done = batch - (done + 1) + 1 := by omega
      rw [if_pos due, split, left, List.take_succ_cons, ← dueIn_check absent, ← ih _ nodup']
    · have skip : dueIn minutes poll shop (k :: rest) = dueIn minutes poll shop rest := by
        simp [dueIn, due]
      rw [if_neg due, skip, ih _ nodup']

theorem loop_keeps {done : Nat} (unchecked : id ∉ (poll.loop minutes ids done shop).2) :
    (poll.loop minutes ids done shop).1.row id = shop.row id := by
  induction ids generalizing done shop with
  | nil => rfl
  | cons k rest ih =>
    unfold Poll.loop at unchecked ⊢
    split at unchecked
    · rename_i full
      rw [if_pos full]
    · rename_i more
      rw [if_neg more]
      split at unchecked
      · rename_i due
        rw [if_pos due]
        rw [List.mem_cons, not_or] at unchecked
        obtain ⟨other, later⟩ := unchecked
        exact (ih later).trans (check_row_ne other)
      · rename_i skipped
        rw [if_neg skipped]
        exact ih unchecked

/-- A pass checks the first twenty due orders among the hundred newest that wait. -/
theorem run_checked (client : poll.client = true) : (poll.run minutes shop).2 =
    (dueIn minutes poll shop (poll.fetch minutes shop)).take batch := by
  have nodup : (poll.fetch minutes shop).Nodup :=
    ((List.take_sublist _ _).map _).nodup waiting_nodup
  rw [Poll.run, if_pos client, loop_checked 0 nodup, Nat.sub_zero]

theorem run_checks (room : poll.roomy minutes shop = true) (client : poll.client = true)
    (stored : shop.row id = some o) (waits : o.waits minutes poll.now = true)
    (due : o.due minutes poll.now = true) : id ∈ (poll.run minutes shop).2 := by
  simp only [Poll.roomy, Bool.and_eq_true, decide_eq_true_eq] at room
  obtain ⟨all, few⟩ := room
  have fetched : poll.fetch minutes shop = (poll.waiting minutes shop).map (·.1) := by
    rw [Poll.fetch, List.take_of_length_le all]
  -- the due orders of the fetch are those of the waiting rows
  have counted : dueIn minutes poll shop ((poll.waiting minutes shop).map (·.1)) =
      ((poll.waiting minutes shop).filter fun e => e.2.due minutes poll.now).map (·.1) := by
    rw [dueIn, List.filter_map]
    congr 1
    apply List.filter_congr
    rintro ⟨k, p⟩ mem
    simp [(mem_waiting.mp mem).1]
  rw [run_checked client, fetched, counted, List.take_of_length_le (by rwa [List.length_map])]
  exact List.mem_map.mpr ⟨(id, o), List.mem_filter.mpr ⟨mem_waiting.mpr ⟨stored, waits⟩, due⟩, rfl⟩

theorem run_keeps (unchecked : id ∉ (poll.run minutes shop).2) :
    (poll.run minutes shop).1.row id = shop.row id := by
  unfold Poll.run at unchecked ⊢
  split at unchecked
  · rename_i client
    rw [if_pos client]
    exact loop_keeps unchecked
  · rename_i unset
    rw [if_neg unset]

/-- Where every pass has room, an order that waits, has an intent and is not past its late window
    is checked by the time its delay is over. -/
theorem poll_reaches_order {polls : List Poll} (room : roomy minutes polls shop = true)
    (stored : shop.row id = some o) (intent : o.intentId.isSome = true)
    (eligible : ∀ poll ∈ polls, poll.client = true ∧ o.waits minutes poll.now = true ∧
      o.pastLateWindow poll.now = false)
    (turn : ∃ poll ∈ polls, o.lastChecked ≤ poll.now - reconcileDelay minutes) :
    id ∈ (runs minutes polls shop).2 := by
  induction polls generalizing shop with
  | nil =>
    obtain ⟨poll, mem, _⟩ := turn
    cases mem
  | cons poll rest ih =>
    simp only [roomy, Bool.and_eq_true] at room
    obtain ⟨client, waits, open_⟩ := eligible poll List.mem_cons_self
    simp only [runs]
    by_cases checked : id ∈ (poll.run minutes shop).2
    · exact List.mem_append_left _ checked
    · -- it was not its turn yet, and the order is as it was
      apply List.mem_append_right
      apply ih room.2
      · rw [run_keeps checked]
        exact stored
      · intro later mem
        exact eligible later (List.mem_cons_of_mem _ mem)
      · obtain ⟨later, mem, over_⟩ := turn
        rcases List.mem_cons.mp mem with rfl | mem
        · have due : o.due minutes later.now = true := by
            simp [Order.due, intent, over_, open_]
          exact absurd (run_checks room.1 client stored waits due) checked
        · exact ⟨later, mem, over_⟩

theorem loop_keys (done : Nat) : (poll.loop minutes ids done shop).1.keys = shop.keys := by
  induction ids generalizing done shop with
  | nil => rfl
  | cons k rest ih =>
    unfold Poll.loop
    split
    · rfl
    split
    · exact ih _
    · exact ih _

theorem run_keys (poll : Poll) (shop : Shop) : (poll.run minutes shop).1.keys = shop.keys := by
  unfold Poll.run
  split
  · exact loop_keys 0
  · rfl

/-- A shop of no more orders than a batch leaves room in every pass. -/
theorem roomy_of_few (polls : List Poll) (few : shop.keys.length ≤ batch) :
    roomy minutes polls shop = true := by
  induction polls generalizing shop with
  | nil => rfl
  | cons poll rest ih =>
    have waiting : (poll.waiting minutes shop).length ≤ batch := by
      rw [Poll.waiting, List.length_mergeSort, ← List.length_map (·.1)]
      refine ((List.filter_sublist.map _).length_le).trans ?_
      rwa [Table.keys_entries]
    have due := (List.length_filter_le (fun e : Nat × Order => e.2.due minutes poll.now)
      (poll.waiting minutes shop)).trans waiting
    simp only [roomy, Poll.roomy, Bool.and_eq_true, decide_eq_true_eq]
    exact ⟨⟨waiting.trans (by decide), due⟩, ih (by rwa [run_keys])⟩

theorem loop_idle {done : Nat} (idle : dueIn minutes poll shop ids = []) :
    poll.loop minutes ids done shop = (shop, []) := by
  induction ids with
  | nil => rfl
  | cons k rest ih =>
    rw [dueIn, List.filter_eq_nil_iff] at idle
    unfold Poll.loop
    split
    · rfl
    · rw [if_neg (idle k List.mem_cons_self)]
      exact ih (List.filter_eq_nil_iff.mpr fun j mem => idle j (List.mem_cons_of_mem _ mem))

theorem waiting_sorted :
    (poll.waiting minutes shop).Pairwise fun a b => poll.newest a b = true := by
  apply List.pairwise_mergeSort
  · intro a b c first second
    simp only [Poll.newest, Bool.or_eq_true, Bool.and_eq_true, decide_eq_true_eq] at first second ⊢
    omega
  · intro a b
    simp only [Poll.newest, Bool.or_eq_true, Bool.and_eq_true, decide_eq_true_eq]
    omega

theorem oldest_not_fetched (many : fetchLimit < (poll.waiting minutes shop).length)
    (stored : shop.row id = some o)
    (oldest : ∀ k p, shop.row k = some p → k ≠ id → o.createdAt < p.createdAt) :
    id ∉ poll.fetch minutes shop := by
  intro mem
  obtain ⟨⟨k, p⟩, taken, rfl⟩ := List.mem_map.mp mem
  have row := (mem_waiting.mp (List.mem_of_mem_take taken)).1
  cases row.symm.trans stored
  -- an order behind the fetch would be older still
  obtain ⟨⟨j, q⟩, rest, split⟩ : ∃ last rest,
      (poll.waiting minutes shop).drop fetchLimit = last :: rest :=
    List.exists_cons_of_length_pos (by rw [List.length_drop]; omega)
  have whole : (poll.waiting minutes shop).take fetchLimit ++ (j, q) :: rest =
      poll.waiting minutes shop := by rw [← split]; exact List.take_append_drop _ _
  have sorted : (poll.waiting minutes shop).Pairwise fun a b => poll.newest a b = true :=
    waiting_sorted
  have nodup : ((poll.waiting minutes shop).map (·.1)).Nodup := waiting_nodup
  rw [← whole] at sorted nodup
  have before := (List.pairwise_append.mp sorted).2.2 _ taken _ List.mem_cons_self
  rw [List.map_append, List.map_cons] at nodup
  have other : j ≠ k := by
    rintro rfl
    exact (List.nodup_append.mp nodup).2.2 j (List.mem_map.mpr ⟨_, taken, rfl⟩) j
      List.mem_cons_self rfl
  have behind : (j, q) ∈ poll.waiting minutes shop := by rw [← whole]; simp
  have newer := oldest j q (mem_waiting.mp behind).1 other
  simp only [Poll.newest, Bool.or_eq_true, Bool.and_eq_true, decide_eq_true_eq] at before
  omega

namespace Sample

def oldest : Order :=
  { status := .pending, intentId := some 7, intentStatus := some .awaitingPayment }

/-- A hundred orders without an intent, and an older one with an intent. -/
def backlog : Shop :=
  (List.range 100).foldl (fun shop k => shop.insert k { status := .pending, createdAt := 101 - k })
    (Table.empty.insert 100 oldest)

theorem backlog_oldest : backlog.row 100 = some oldest := by decide +kernel

theorem backlog_length : backlog.entries.length = 101 := by decide +kernel

theorem backlog_rows : backlog.entries.all (fun e =>
    (e.2.ours && decide (e.2.status = .pending) && decide (0 ≤ e.2.createdAt) &&
      decide (e.2.createdAt ≤ 101)) &&
    (decide (e.1 = 100) || (decide (0 < e.2.createdAt) && e.2.intentId.isNone))) = true := by
  decide +kernel

theorem backlog_row {id : Nat} {o : Order} (stored : backlog.row id = some o) :
    (o.ours = true ∧ o.status = .pending ∧ 0 ≤ o.createdAt ∧ o.createdAt ≤ 101) ∧
    (id = 100 ∨ (0 < o.createdAt ∧ o.intentId = none)) := by
  have row := List.all_eq_true.mp backlog_rows _ (Table.mem_entries.mpr stored)
  simpa [Bool.and_eq_true, and_assoc] using row

theorem backlog_waits {id : Nat} {o : Order} {now : Int} (stored : backlog.row id = some o)
    (started : 701 ≤ now) (recent : now ≤ maxAge) : o.waits 10 now = true := by
  obtain ⟨⟨ours, status, first, last⟩, _⟩ := backlog_row stored
  have delay : reconcileDelay 10 = 600 := rfl
  simp only [Order.waits, ours, Order.hasStatus, status, delay, Bool.and_eq_true, decide_eq_true_eq]
  refine ⟨⟨⟨trivial, rfl⟩, ?_⟩, ?_⟩ <;> omega

theorem backlog_idle {poll : Poll} (started : 701 ≤ poll.now) (recent : poll.now ≤ maxAge) :
    poll.run 10 backlog = (backlog, []) := by
  have all : (poll.waiting 10 backlog).length = 101 := by
    rw [Poll.waiting, (List.mergeSort_perm _ _).length_eq, List.filter_eq_self.mpr]
    · exact backlog_length
    · rintro ⟨k, p⟩ mem
      exact backlog_waits (Table.mem_entries.mp mem) started recent
  have cut : 100 ∉ poll.fetch 10 backlog := by
    refine oldest_not_fetched (by rw [all]; decide) backlog_oldest fun k p row other => ?_
    rcases (backlog_row row).2 with same | ⟨newer, _⟩
    · exact absurd same other
    · exact newer
  unfold Poll.run
  split
  · refine loop_idle (List.filter_eq_nil_iff.mpr fun k mem due => ?_)
    obtain ⟨⟨j, p⟩, taken, rfl⟩ := List.mem_map.mp mem
    have row := (mem_waiting.mp (List.mem_of_mem_take taken)).1
    rcases (backlog_row row).2 with same | ⟨_, bare⟩
    · exact cut (same ▸ mem)
    · simp [row, Order.due, bare] at due
  · rfl

theorem backlog_unchecked {polls : List Poll}
    (window : ∀ poll ∈ polls, 701 ≤ poll.now ∧ poll.now ≤ maxAge) :
    runs 10 polls backlog = (backlog, []) := by
  induction polls with
  | nil => rfl
  | cons poll rest ih =>
    obtain ⟨started, recent⟩ := window poll List.mem_cons_self
    have later := ih fun next mem => window next (List.mem_cons_of_mem _ mem)
    simp [runs, backlog_idle started recent, later]

end Sample

/-- A hundred newer orders without an intent keep an older order out of every fetch, for as long
    as it is polled. -/
theorem older_order_never_polled :
    ∃ o, Sample.backlog.row 100 = some o ∧ o.intentId.isSome = true ∧
      o.intentStatus = some .awaitingPayment ∧
      (∀ now, 701 ≤ now → now ≤ maxAge → o.waits 10 now = true ∧ o.due 10 now = true) ∧
      ∀ polls : List Poll, (∀ poll ∈ polls, 701 ≤ poll.now ∧ poll.now ≤ maxAge) →
        100 ∉ (runs 10 polls Sample.backlog).2 := by
  refine ⟨Sample.oldest, Sample.backlog_oldest, rfl, rfl, fun now started recent => ⟨?_, ?_⟩,
    fun polls window => ?_⟩
  · exact Sample.backlog_waits Sample.backlog_oldest started recent
  · have delay : reconcileDelay 10 = 600 := rfl
    have early : 600 ≤ now := by omega
    simp [Order.due, Order.pastLateWindow, Sample.oldest, delay, early]
  · rw [Sample.backlog_unchecked window]
    exact List.not_mem_nil

/-- An order beside two newer ones, polled before and after its delay. -/
theorem poll_reaches_order_sample :
    ∃ shop : Shop, ∃ polls : List Poll, shop.keys = [3, 2, 1] ∧ roomy 10 polls shop = true ∧
      1 ∈ (runs 10 polls shop).2 := by
  let order : Order := { status := .pending, intentId := some 7, lastChecked := 500 }
  let answers : Answers := { intent := .ok ⟨7, some .awaitingPayment⟩ }
  let poll (now : Int) : Poll := { now, answers := fun _ => answers, checkedAt := fun _ => now }
  let shop : Shop := ((Table.empty.insert 1 order).insert 2 { order with createdAt := 100 }).insert
    3 { order with createdAt := 200, intentId := none }
  have room : roomy 10 [poll 900, poll 1200] shop = true := roomy_of_few _ (by decide)
  refine ⟨shop, [poll 900, poll 1200], by decide, room,
    poll_reaches_order room (o := order) rfl rfl ?_ ?_⟩
  · decide +kernel
  · decide +kernel

end CryptoGateway.WooCommerce
