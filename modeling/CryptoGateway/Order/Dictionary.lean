import Mathlib.Data.List.Perm.Basic
import Mathlib.Data.List.Sort
import Mathlib.Order.Defs.LinearOrder

/-!
A map as the list of its entries in the order of their keys: of the entries given for a key the
last one stays.
-/
namespace Dictionary

variable {κ ν : Type} [LinearOrder κ]

def insert (entry : κ × ν) : List (κ × ν) → List (κ × ν)
  | [] => [entry]
  | head :: rest =>
      if entry.1 < head.1 then entry :: head :: rest
      else if entry.1 = head.1 then entry :: rest
      else head :: insert entry rest

def collect (entries : List (κ × ν)) : List (κ × ν) :=
  entries.foldl (fun known entry => insert entry known) []

def Ordered (known : List (κ × ν)) : Prop := known.Pairwise fun a b => a.1 < b.1

theorem mem_insert {entry x : κ × ν} {known : List (κ × ν)} (ordered : Ordered known) :
    x ∈ insert entry known ↔ x = entry ∨ (x ∈ known ∧ x.1 ≠ entry.1) := by
  induction known with
  | nil => simp [insert]
  | cons head rest ih =>
    obtain ⟨first, tail⟩ := List.pairwise_cons.mp ordered
    rw [insert]
    by_cases below : entry.1 < head.1
    · -- every key here is greater than the new one
      have greater : ∀ y ∈ head :: rest, y.1 ≠ entry.1 := by
        intro y mem
        rcases List.mem_cons.mp mem with rfl | behind
        · exact below.ne'
        · exact (lt_trans below (first y behind)).ne'
      rw [if_pos below, List.mem_cons]
      exact or_congr_right ⟨fun mem => ⟨mem, greater x mem⟩, fun mem => mem.1⟩
    by_cases same : entry.1 = head.1
    · rw [if_neg below, if_pos same, List.mem_cons, List.mem_cons]
      refine or_congr_right ⟨fun mem => ⟨.inr mem, ?_⟩, ?_⟩
      · rw [same]
        exact (first x mem).ne'
      · rintro ⟨rfl | behind, other⟩
        · exact absurd same.symm other
        · exact behind
    · rw [if_neg below, if_neg same, List.mem_cons, List.mem_cons, ih tail]
      constructor
      · rintro (rfl | rfl | behind)
        · exact .inr ⟨.inl rfl, Ne.symm same⟩
        · exact .inl rfl
        · exact .inr ⟨.inr behind.1, behind.2⟩
      · rintro (rfl | ⟨rfl | behind, other⟩)
        · exact .inr (.inl rfl)
        · exact .inl rfl
        · exact .inr (.inr ⟨behind, other⟩)

theorem insert_ordered (entry : κ × ν) {known : List (κ × ν)} (ordered : Ordered known) :
    Ordered (insert entry known) := by
  induction known with
  | nil => exact List.pairwise_singleton _ _
  | cons head rest ih =>
    obtain ⟨first, tail⟩ := List.pairwise_cons.mp ordered
    rw [insert]
    by_cases below : entry.1 < head.1
    · rw [if_pos below]
      refine List.pairwise_cons.mpr ⟨fun x mem => ?_, ordered⟩
      rcases List.mem_cons.mp mem with rfl | behind
      · exact below
      · exact lt_trans below (first x behind)
    by_cases same : entry.1 = head.1
    · rw [if_neg below, if_pos same]
      refine List.pairwise_cons.mpr ⟨fun x mem => ?_, tail⟩
      rw [same]
      exact first x mem
    · rw [if_neg below, if_neg same]
      refine List.pairwise_cons.mpr ⟨fun x mem => ?_, ih tail⟩
      rcases (mem_insert tail).mp mem with rfl | ⟨behind, _⟩
      · exact lt_of_le_of_ne (not_lt.mp below) (Ne.symm same)
      · exact first x behind

section Collect
variable {entries : List (κ × ν)} {known : List (κ × ν)}

theorem foldl_ordered (entries : List (κ × ν)) (ordered : Ordered known) :
    Ordered (entries.foldl (fun known entry => insert entry known) known) := by
  induction entries generalizing known with
  | nil => exact ordered
  | cons entry rest ih => exact ih (insert_ordered entry ordered)

theorem collect_ordered (entries : List (κ × ν)) : Ordered (collect entries) :=
  foldl_ordered entries List.Pairwise.nil

theorem mem_collect_concat {entry x : κ × ν} :
    x ∈ collect (entries ++ [entry]) ↔ x = entry ∨ x ∈ collect entries ∧ x.1 ≠ entry.1 := by
  rw [collect, List.foldl_append]
  exact mem_insert (collect_ordered entries)

theorem mem_insert_keys {entry : κ × ν} {k : κ} (ordered : Ordered known) :
    k ∈ (insert entry known).map (·.1) ↔ k = entry.1 ∨ k ∈ known.map (·.1) := by
  simp only [List.mem_map, mem_insert ordered]
  constructor
  · rintro ⟨x, rfl | ⟨mem, _⟩, rfl⟩
    · exact .inl rfl
    · exact .inr ⟨x, mem, rfl⟩
  · rintro (rfl | ⟨x, mem, rfl⟩)
    · exact ⟨entry, .inl rfl, rfl⟩
    · by_cases same : x.1 = entry.1
      · exact ⟨entry, .inl rfl, same.symm⟩
      · exact ⟨x, .inr ⟨mem, same⟩, rfl⟩

theorem mem_foldl_keys {k : κ} (ordered : Ordered known) :
    k ∈ (entries.foldl (fun known entry => insert entry known) known).map (·.1) ↔
      k ∈ entries.map (·.1) ∨ k ∈ known.map (·.1) := by
  induction entries generalizing known with
  | nil => simp
  | cons entry rest ih =>
    rw [List.foldl_cons, ih (insert_ordered entry ordered), mem_insert_keys ordered, List.map_cons,
      List.mem_cons]
    tauto

theorem mem_collect_keys {k : κ} : k ∈ (collect entries).map (·.1) ↔ k ∈ entries.map (·.1) :=
  (mem_foldl_keys List.Pairwise.nil).trans (by simp)

theorem mem_foldl (ordered : Ordered known)
    (single : ∀ x ∈ entries, ∀ y, y ∈ entries ∨ y ∈ known → x.1 = y.1 → x = y) {x : κ × ν} :
    x ∈ entries.foldl (fun known entry => insert entry known) known ↔ x ∈ entries ∨ x ∈ known := by
  induction entries generalizing known with
  | nil => simp
  | cons entry rest ih =>
    have kept : ∀ y, y ∈ insert entry known ↔ y = entry ∨ y ∈ known := by
      intro y
      rw [mem_insert ordered]
      refine or_congr_right' fun other => ⟨fun mem => mem.1, fun mem => ⟨mem, fun same => other ?_⟩⟩
      exact (single entry List.mem_cons_self y (.inr mem) same.symm).symm
    rw [List.foldl_cons, ih (insert_ordered entry ordered), kept, List.mem_cons]
    · tauto
    · intro a mem b there
      rw [kept] at there
      refine single a (List.mem_cons_of_mem _ mem) b ?_
      rcases there with behind | rfl | old
      · exact .inl (List.mem_cons_of_mem _ behind)
      · exact .inl List.mem_cons_self
      · exact .inr old

theorem mem_collect (single : ∀ x ∈ entries, ∀ y ∈ entries, x.1 = y.1 → x = y) {x : κ × ν} :
    x ∈ collect entries ↔ x ∈ entries := by
  rw [collect, mem_foldl List.Pairwise.nil fun a mem b there => single a mem b
    (by simpa using there)]
  simp

theorem collect_ext {entries' : List (κ × ν)} (same : ∀ x, x ∈ entries ↔ x ∈ entries')
    (single : ∀ x ∈ entries, ∀ y ∈ entries, x.1 = y.1 → x = y) :
    collect entries = collect entries' := by
  have single' : ∀ x ∈ entries', ∀ y ∈ entries', x.1 = y.1 → x = y := fun x left y right =>
    single x ((same x).mpr left) y ((same y).mpr right)
  have nodup : ∀ entries : List (κ × ν), (collect entries).Nodup := fun entries =>
    List.Pairwise.imp (fun before same => absurd (congrArg Prod.fst same) before.ne)
      (collect_ordered entries)
  refine List.Perm.eq_of_pairwise (fun a b _ _ before after => absurd (lt_trans before after)
    (lt_irrefl _)) (collect_ordered entries) (collect_ordered entries') ?_
  rw [List.perm_ext_iff_of_nodup (nodup _) (nodup _)]
  intro x
  rw [mem_collect single, mem_collect single', same]

theorem collect_perm {entries' : List (κ × ν)} (perm : entries.Perm entries')
    (single : ∀ x ∈ entries, ∀ y ∈ entries, x.1 = y.1 → x = y) :
    collect entries = collect entries' := collect_ext (fun _ => perm.mem_iff) single

end Collect
end Dictionary
