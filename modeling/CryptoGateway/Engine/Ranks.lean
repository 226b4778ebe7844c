import Mathlib.Data.List.Perm.Subperm
import Mathlib.Data.List.Sort

/-!
Ranks in a list under a strict order: at most `k` of its elements have fewer than `k`
others before them.
-/
namespace Engine

variable {α : Type} {before : α → α → Bool} {l s : List α} {k : Nat}

structure Lined (before : α → α → Bool) (l : List α) : Prop where
  trans : ∀ {a b c}, before a b = true → before b c = true → before a c = true
  total : ∀ {a b}, a ∈ l → b ∈ l → a ≠ b → before a b = true ∨ before b a = true

theorem Lined.subset (lined : Lined before l) (sub : s ⊆ l) : Lined before s where
  trans := lined.trans
  total a b := lined.total (sub a) (sub b)

theorem Lined.exists_last [DecidableEq α] (lined : Lined before l) (nonempty : l ≠ []) :
    ∃ last ∈ l, ∀ x ∈ l, x ≠ last → before x last = true := by
  induction l with
  | nil => exact absurd rfl nonempty
  | cons a rest ih =>
    by_cases single : rest = []
    · subst single
      exact ⟨a, by simp, fun x mem other => absurd (List.mem_singleton.mp mem) other⟩
    · obtain ⟨last, mem, greatest⟩ := ih (lined.subset (List.subset_cons_self a rest)) single
      by_cases same : a = last
      · subst same
        refine ⟨a, by simp, fun x listed other => ?_⟩
        rcases List.mem_cons.mp listed with rfl | behind
        · exact absurd rfl other
        · exact greatest x behind other
      · rcases lined.total List.mem_cons_self (List.mem_cons_of_mem a mem) same with first | second
        · refine ⟨last, List.mem_cons_of_mem a mem, fun x listed other => ?_⟩
          rcases List.mem_cons.mp listed with rfl | behind
          · exact first
          · exact greatest x behind other
        · refine ⟨a, List.mem_cons_self, fun x listed other => ?_⟩
          rcases List.mem_cons.mp listed with rfl | behind
          · exact absurd rfl other
          · by_cases top : x = last
            · rw [top]; exact second
            · exact lined.trans (greatest x behind top) second

theorem Lined.length_le_of_rank [DecidableEq α] (lined : Lined before l) (distinct : s.Nodup)
    (sub : s ⊆ l) (ranked : ∀ x ∈ s, (l.filter (before · x)).length < k) : s.length ≤ k := by
  by_cases empty : s = []
  · simp [empty]
  · obtain ⟨last, mem, greatest⟩ := (lined.subset sub).exists_last empty
    have behind : s.erase last ⊆ l.filter (before · last) := by
      intro x listed
      have member := List.mem_of_mem_erase listed
      have other : x ≠ last := fun same => by
        subst same
        exact distinct.not_mem_erase listed
      exact List.mem_filter.mpr ⟨sub member, greatest x member other⟩
    have fewer := (List.subperm_of_subset (distinct.erase last) behind).length_le
    rw [List.length_erase_of_mem mem] at fewer
    have rank := ranked last mem
    omega

end Engine
