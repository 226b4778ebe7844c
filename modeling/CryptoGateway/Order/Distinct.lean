import Mathlib.Data.Finset.Card

/-!
How many distinct values a list has, as `BTreeSet::len` counts them.
-/
namespace Distinct

variable {α : Type} [BEq α] [LawfulBEq α]

theorem nodup_eraseDups (l : List α) : l.eraseDups.Nodup := by
  -- the tail that is left to clean up is no longer than the tail of the list
  induction h : l.length using Nat.strong_induction_on generalizing l with
  | _ n ih =>
    cases l with
    | nil => exact List.nodup_nil
    | cons a rest =>
      rw [List.eraseDups_cons, List.nodup_cons]
      refine ⟨by simp [List.mem_eraseDups], ih _ ?_ _ rfl⟩
      rw [← h, List.length_cons]
      exact Nat.lt_succ_of_le (List.length_filter_le _ _)

section
variable [DecidableEq α]

theorem length_eraseDups (l : List α) : l.eraseDups.length = l.toFinset.card := by
  rw [← List.toFinset_card_of_nodup (nodup_eraseDups l)]
  congr 1
  ext x
  simp [List.mem_eraseDups]

end

theorem length_eraseDups_le (l : List α) : l.eraseDups.length ≤ l.length := by
  classical
  rw [length_eraseDups]
  exact List.toFinset_card_le l

theorem length_eraseDups_eq_length {l : List α} : l.eraseDups.length = l.length ↔ l.Nodup := by
  classical
  rw [length_eraseDups]
  exact Multiset.toFinset_card_eq_card_iff_nodup (m := (l : Multiset α))

theorem length_eraseDups_mono {l l' : List α} (sub : l ⊆ l') :
    l.eraseDups.length ≤ l'.eraseDups.length := by
  classical
  rw [length_eraseDups, length_eraseDups]
  exact Finset.card_le_card fun x mem => List.mem_toFinset.mpr (sub (List.mem_toFinset.mp mem))

theorem length_eraseDups_perm {l l' : List α} (perm : l.Perm l') :
    l.eraseDups.length = l'.eraseDups.length := by
  classical
  rw [length_eraseDups, length_eraseDups, List.toFinset_eq_of_perm l l' perm]

theorem one_lt_length_eraseDups {l : List α} :
    1 < l.eraseDups.length ↔ ∃ a ∈ l, ∃ b ∈ l, a ≠ b := by
  classical
  rw [length_eraseDups, Finset.one_lt_card]
  simp

end Distinct
