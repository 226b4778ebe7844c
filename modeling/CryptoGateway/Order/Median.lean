import Mathlib.Algebra.Order.Field.Rat
import Mathlib.Data.List.Sort
import Mathlib.Tactic.Linarith

/-!
Sorting by a key and the middle of what was sorted. A comparison that agrees with the key on the
pairs of a list sorts the list by the key.
-/
namespace Median

section Sorting
variable {α β : Type} [LinearOrder β]

theorem orderedInsert_congr {r r' : α → α → Prop} [DecidableRel r] [DecidableRel r'] {a : α}
    {l : List α} (same : ∀ b ∈ l, (r a b ↔ r' a b)) :
    l.orderedInsert r a = l.orderedInsert r' a := by
  induction l with
  | nil => rfl
  | cons b rest ih =>
    have here := same b List.mem_cons_self
    by_cases before : r a b
    · rw [List.orderedInsert_cons, List.orderedInsert_cons, if_pos before, if_pos (here.mp before)]
    · rw [List.orderedInsert_cons, List.orderedInsert_cons, if_neg before,
        if_neg fun other => before (here.mpr other),
        ih fun c mem => same c (List.mem_cons_of_mem _ mem)]

theorem insertionSort_congr {r r' : α → α → Prop} [DecidableRel r] [DecidableRel r'] {l : List α}
    (same : l.Pairwise fun a b => (r a b ↔ r' a b)) : l.insertionSort r = l.insertionSort r' := by
  induction l with
  | nil => rfl
  | cons a rest ih =>
    obtain ⟨here, tail⟩ := List.pairwise_cons.mp same
    rw [List.insertionSort_cons, List.insertionSort_cons, ih tail]
    exact orderedInsert_congr fun b mem => here b ((List.mem_insertionSort _).mp mem)

theorem pairwise_ends {r : α → α → Prop} {l : List α} (pairs : l.Pairwise r) (two : 2 ≤ l.length) :
    ∃ a b, l.head? = some a ∧ l.getLast? = some b ∧ r a b := by
  cases l with
  | nil => simp at two
  | cons a tail =>
    cases tail with
    | nil => simp at two
    | cons b rest =>
      have last := List.getLast_mem (List.cons_ne_nil b rest)
      refine ⟨a, (b :: rest).getLast (List.cons_ne_nil b rest), rfl, ?_, ?_⟩
      · rw [List.getLast?_cons_cons, List.getLast?_eq_getLast_of_ne_nil]
      · exact (List.pairwise_cons.mp pairs).1 _ last

def sorted (l : List β) : List β := l.insertionSort (· ≤ ·)

theorem sorted_pairwise (l : List β) :
    (sorted l).Pairwise (· ≤ ·) := List.pairwise_insertionSort _ l

theorem sorted_perm (l : List β) : (sorted l).Perm l := List.perm_insertionSort _ l

theorem sorted_eq_of_perm {l l' : List β} (perm : l.Perm l') : sorted l = sorted l' :=
  List.Perm.eq_of_pairwise (fun _ _ _ _ => le_antisymm) (sorted_pairwise l) (sorted_pairwise l')
    ((sorted_perm l).trans (perm.trans (sorted_perm l').symm))

theorem sorted_eq_self {l : List β} (ordered : l.Pairwise (· ≤ ·)) : sorted l = l :=
  List.Perm.eq_of_pairwise (fun _ _ _ _ => le_antisymm) (sorted_pairwise l) ordered (sorted_perm l)

theorem map_insertionSort (key : α → β) (l : List α) :
    (l.insertionSort fun a b => key a ≤ key b).map key = sorted (l.map key) :=
  List.map_insertionSort _ _ key l fun _ _ _ _ => Iff.rfl

end Sorting

def middle (l : List ℚ) : Option ℚ :=
  if l.length % 2 = 1 then l[l.length / 2]?
  else
    match l[l.length / 2 - 1]?, l[l.length / 2]? with
    | some a, some b => some ((a + b) / 2)
    | _, _ => none

def median (l : List ℚ) : Option ℚ := middle (sorted l)

theorem median_eq_of_perm {l l' : List ℚ} (perm : l.Perm l') : median l = median l' := by
  rw [median, median, sorted_eq_of_perm perm]

end Median
