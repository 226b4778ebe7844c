import Mathlib.Data.List.Nodup
import Mathlib.Logic.Function.Basic
import Mathlib.Algebra.Order.BigOperators.Group.List
import Mathlib.Algebra.Order.Ring.Nat

/-!
Keyed tables with a finite, duplicate-free key list, so that a second row under a stored key
cannot be built and a scan meets every row once.
-/
namespace Engine

structure Table (κ ρ : Type) where
  keys : List κ
  row : κ → Option ρ
  nodup : keys.Nodup
  stored : ∀ k, k ∈ keys ↔ (row k).isSome

namespace Table
variable {κ ρ : Type}

def empty : Table κ ρ := ⟨[], fun _ => none, List.nodup_nil, by simp⟩

def entries (t : Table κ ρ) : List (κ × ρ) :=
  t.keys.filterMap fun k => (t.row k).map (k, ·)

def total (f : κ → ρ → Nat) (t : Table κ ρ) : Nat := (t.entries.map fun e => f e.1 e.2).sum

@[simp] theorem row_empty (k : κ) : (empty : Table κ ρ).row k = none := rfl

variable {t : Table κ ρ} {k : κ}

theorem mem_entries {r : ρ} : (k, r) ∈ t.entries ↔ t.row k = some r := by
  simp only [entries, List.mem_filterMap, Option.map_eq_some_iff, Prod.mk.injEq]
  constructor
  · rintro ⟨j, _, s, found, rfl, rfl⟩
    exact found
  · intro found
    exact ⟨k, by simp [t.stored, found], r, found, rfl, rfl⟩

theorem le_total (f : κ → ρ → Nat) {r : ρ} (found : t.row k = some r) : f k r ≤ t.total f :=
  List.le_sum_of_mem (List.mem_map.mpr ⟨(k, r), mem_entries.mpr found, rfl⟩)

theorem total_eq_zero (f : κ → ρ → Nat)
    (zero : ∀ k r, t.row k = some r → f k r = 0) : t.total f = 0 := by
  apply List.sum_eq_zero
  intro n mem
  obtain ⟨⟨k, r⟩, member, rfl⟩ := List.mem_map.mp mem
  exact zero k r (mem_entries.mp member)

theorem total_congr {f g : κ → ρ → Nat}
    (same : ∀ k r, t.row k = some r → f k r = g k r) : t.total f = t.total g := by
  unfold total
  congr 1
  refine List.map_congr_left fun ⟨k, r⟩ member => same k r (mem_entries.mp member)

theorem keys_entries (t : Table κ ρ) : t.entries.map (·.1) = t.keys := by
  rw [entries, List.map_filterMap]
  refine (List.filterMap_congr fun k mem => ?_).trans List.filterMap_some
  obtain ⟨r, found⟩ := Option.isSome_iff_exists.mp ((t.stored k).mp mem)
  simp [found]

theorem entries_nodup (t : Table κ ρ) : t.entries.Nodup :=
  List.Nodup.of_map (·.1) (by rw [keys_entries]; exact t.nodup)

variable [DecidableEq κ]

theorem filter_entries {r : ρ} (found : t.row k = some r) :
    t.entries.filter (fun e => e.1 = k) = [(k, r)] := by
  refine List.perm_singleton.mp
    ((List.perm_ext_iff_of_nodup (t.entries_nodup.filter _) (List.nodup_singleton _)).mpr ?_)
  rintro ⟨j, s⟩
  simp only [List.mem_filter, mem_entries, decide_eq_true_eq, List.mem_singleton, Prod.mk.injEq]
  constructor
  · rintro ⟨stored, rfl⟩
    exact ⟨rfl, Option.some.inj (stored.symm.trans found)⟩
  · rintro ⟨rfl, rfl⟩
    exact ⟨found, rfl⟩

/-- A key that is already stored keeps its row: the caller checks for the
    conflict first, as `INSERT` does. -/
def insert (k : κ) (r : ρ) (t : Table κ ρ) : Table κ ρ :=
  if absent : t.row k = none then
    { keys := k :: t.keys
      row := Function.update t.row k (some r)
      nodup := List.nodup_cons.mpr ⟨by simp [t.stored, absent], t.nodup⟩
      stored := by
        intro j
        by_cases same : j = k
        · subst same; simp
        · simp [same, t.stored] }
  else t

def modify (k : κ) (f : ρ → ρ) (t : Table κ ρ) : Table κ ρ where
  keys := t.keys
  row := Function.update t.row k ((t.row k).map f)
  nodup := t.nodup
  stored := by
    intro j
    by_cases same : j = k
    · subst same; simp [t.stored]
    · simp [same, t.stored]

def erase (k : κ) (t : Table κ ρ) : Table κ ρ where
  keys := t.keys.filter (· ≠ k)
  row := Function.update t.row k none
  nodup := t.nodup.filter _
  stored := by
    intro j
    by_cases same : j = k
    · subst same; simp
    · simp [same, t.stored]

def put (k : κ) (r : ρ) (t : Table κ ρ) : Table κ ρ := (t.insert k r).modify k fun _ => r

theorem row_insert (t : Table κ ρ) (k j : κ) (r : ρ) :
    (t.insert k r).row j = if j = k then some ((t.row k).getD r) else t.row j := by
  unfold insert
  split
  · rename_i absent
    by_cases same : j = k
    · subst same; simp [absent]
    · simp [same]
  · rename_i present
    by_cases same : j = k
    · subst same
      cases stored : t.row j with
      | none => exact absurd stored present
      | some old => simp
    · simp [same]

theorem row_insert_fresh (absent : t.row k = none) (j : κ) (r : ρ) :
    (t.insert k r).row j = if j = k then some r else t.row j := by rw [row_insert, absent]; rfl

@[simp] theorem row_insert_ne {j : κ} (other : j ≠ k) (r : ρ) : (t.insert k r).row j = t.row j := by
  rw [row_insert, if_neg other]

theorem row_insert_or (t : Table κ ρ) (k j : κ) (r : ρ) :
    (t.insert k r).row j = t.row j ∨ k = j := by
  by_cases same : j = k
  · exact .inr same.symm
  · exact .inl (row_insert_ne same r)

theorem row_insert_stored {j : κ} {old : ρ} (stored : t.row j = some old) (k : κ)
    (r : ρ) : (t.insert k r).row j = some old := by
  rw [row_insert]
  split
  · rename_i same
    subst same; simp [stored]
  · exact stored

theorem row_insert_cases {j : κ} {r found : ρ} (after : (t.insert k r).row j = some found) :
    t.row j = some found ∨ (t.row j = none ∧ j = k ∧ found = r) := by
  rw [row_insert] at after
  split at after
  · rename_i same
    subst same
    cases stored : t.row j with
    | none => simp [stored] at after; exact .inr ⟨rfl, rfl, after.symm⟩
    | some old => simpa [stored] using after
  · exact .inl after

theorem row_modify (t : Table κ ρ) (k j : κ) (f : ρ → ρ) :
    (t.modify k f).row j = if j = k then (t.row k).map f else t.row j := by
  by_cases same : j = k
  · subst same; simp [modify]
  · simp [modify, same]

@[simp] theorem row_modify_self (t : Table κ ρ) (k : κ) (f : ρ → ρ) :
    (t.modify k f).row k = (t.row k).map f := by rw [row_modify, if_pos rfl]

@[simp] theorem row_modify_ne {j : κ} (other : j ≠ k) (f : ρ → ρ) :
    (t.modify k f).row j = t.row j := by rw [row_modify, if_neg other]

theorem row_modify_or (t : Table κ ρ) (k j : κ) (f : ρ → ρ) :
    (t.modify k f).row j = t.row j ∨ k = j := by
  by_cases same : j = k
  · exact .inr same.symm
  · exact .inl (row_modify_ne same f)

theorem row_foldl_modify (f : ρ → ρ) (idem : ∀ r, f (f r) = f r) (ks : List κ) (t : Table κ ρ)
    (j : κ) : (ks.foldl (fun t k => t.modify k f) t).row j =
      if j ∈ ks then (t.row j).map f else t.row j := by
  induction ks generalizing t with
  | nil => rfl
  | cons k rest ih =>
    rw [List.foldl_cons, ih, row_modify]
    by_cases same : j = k
    · subst same
      simp [Function.comp_def, idem]
    · simp [same]

theorem map_row_modify {τ : Type} {g : ρ → τ} (f : ρ → ρ) (kept : ∀ r, g (f r) = g r)
    (t : Table κ ρ) (k j : κ) : ((t.modify k f).row j).map g = (t.row j).map g := by
  rw [row_modify]
  split
  · rename_i same
    subst same
    simp [Function.comp_def, kept]
  · rfl

theorem row_erase (t : Table κ ρ) (k j : κ) :
    (t.erase k).row j = if j = k then none else t.row j := by
  by_cases same : j = k
  · subst same; simp [erase]
  · simp [erase, same]

theorem row_erase_or (t : Table κ ρ) (k j : κ) : (t.erase k).row j = t.row j ∨ k = j := by
  by_cases same : j = k
  · exact .inr same.symm
  · exact .inl (by rw [row_erase, if_neg same])

theorem row_put (t : Table κ ρ) (k j : κ) (r : ρ) :
    (t.put k r).row j = if j = k then some r else t.row j := by
  rw [put, row_modify, row_insert]
  by_cases same : j = k
  · simp [same]
  · rw [if_neg same, row_insert_ne same, if_neg same]

theorem row_put_or (t : Table κ ρ) (k j : κ) (r : ρ) : (t.put k r).row j = t.row j ∨ k = j := by
  by_cases same : j = k
  · exact .inr same.symm
  · exact .inl (by rw [row_put, if_neg same])

theorem insert_stored (stored : (t.row k).isSome = true) (r : ρ) : t.insert k r = t := by
  have present : t.row k ≠ none := by
    intro absent; simp [absent] at stored
  simp [insert, present]

theorem modify_insert_fresh (absent : t.row k = none) (r : ρ)
    (f : ρ → ρ) : (t.insert k r).modify k f = t.insert k (f r) := by simp [insert, modify, absent]

theorem entries_insert_fresh (absent : t.row k = none) (r : ρ) :
    (t.insert k r).entries = (k, r) :: t.entries := by
  have notin : k ∉ t.keys := by simp [t.stored, absent]
  simp only [entries, insert, absent, ↓reduceDIte, List.filterMap_cons, Function.update_self,
    Option.map_some, List.cons.injEq, true_and]
  apply List.filterMap_congr
  intro j mem
  have other : j ≠ k := by rintro rfl; exact notin mem
  simp [other]

theorem entries_insert_suffix (t : Table κ ρ) (k : κ) (r : ρ) :
    t.entries <:+ (t.insert k r).entries := by
  cases found : t.row k with
  | none => rw [entries_insert_fresh found]; exact List.suffix_cons _ _
  | some old => exact (insert_stored (by rw [found]; rfl) r).symm ▸ List.suffix_refl _

theorem entries_modify (t : Table κ ρ) (k : κ) (f : ρ → ρ) :
    (t.modify k f).entries = t.entries.map fun e => if e.1 = k then (e.1, f e.2) else e := by
  have keys : (t.modify k f).keys = t.keys := rfl
  simp only [entries, keys, List.map_filterMap]
  refine List.filterMap_congr fun j _ => ?_
  by_cases same : j = k
  · subst same
    rw [row_modify_self]
    cases t.row j <;> simp
  · rw [row_modify_ne same]
    cases t.row j <;> simp [same]

theorem total_insert_fresh (f : κ → ρ → Nat) (absent : t.row k = none)
    (r : ρ) : (t.insert k r).total f = f k r + t.total f := by
  simp [total, entries_insert_fresh absent]

end Table
end Engine
