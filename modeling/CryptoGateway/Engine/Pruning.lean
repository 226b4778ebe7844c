import CryptoGateway.Engine.Table

/-!
Tables that lose rows again: a row may go once enough stored rows are above it, as
some earlier state of the table showed.
-/
namespace Engine.Table

variable {κ ρ : Type}

def Within (t u : Table κ ρ) : Prop := ∀ k r, t.row k = some r → u.row k = some r

def outranked (above : κ × ρ → κ × ρ → Bool) (t : Table κ ρ) (e : κ × ρ) : Nat :=
  t.entries.countP (above · e)

variable {above : κ × ρ → κ × ρ → Bool} {t u v : Table κ ρ} {n m : Nat}

theorem Within.refl (t : Table κ ρ) : t.Within t := fun _ _ found => found

theorem Within.trans (first : t.Within u) (second : u.Within v) : t.Within v :=
  fun k r found => second k r (first k r found)

theorem Within.outranked_le (within : t.Within u) (above : κ × ρ → κ × ρ → Bool) (e : κ × ρ) :
    t.outranked above e ≤ u.outranked above e := by
  have more : t.entries ⊆ u.entries := fun ⟨k, r⟩ mem =>
    mem_entries.mpr (within k r (mem_entries.mp mem))
  exact (List.subperm_of_subset t.entries_nodup more).countP_le _

variable [DecidableEq κ]

theorem Within.insert (t : Table κ ρ) (k : κ) (r : ρ) : t.Within (t.insert k r) :=
  fun _ _ found => row_insert_stored found k r

def eraseAll (ks : List κ) (t : Table κ ρ) : Table κ ρ := ks.foldl (fun t k => t.erase k) t

theorem row_eraseAll (ks : List κ) (t : Table κ ρ) (k : κ) :
    (t.eraseAll ks).row k = if k ∈ ks then none else t.row k := by
  induction ks generalizing t with
  | nil => simp [eraseAll]
  | cons j rest ih =>
    rw [show t.eraseAll (j :: rest) = (t.erase j).eraseAll rest from rfl, ih, row_erase]
    by_cases behind : k ∈ rest
    · simp [behind]
    · by_cases same : k = j <;> simp [behind, same]

theorem Within.eraseAll (ks : List κ) (t : Table κ ρ) : (t.eraseAll ks).Within t := by
  intro k r found
  rw [row_eraseAll] at found
  split at found
  · cases found
  · exact found

/-- The table has lost no row that has fewer than `n` rows above it among all that were
    ever stored. -/
structure Retains (above : κ × ρ → κ × ρ → Bool) (n : Nat) (ever t : Table κ ρ) : Prop where
  within : t.Within ever
  kept : ∀ {k r}, ever.row k = some r → ever.outranked above (k, r) < n → t.row k = some r

namespace Retains
variable {ever seen : Table κ ρ}

omit [DecidableEq κ] in
theorem refl (t : Table κ ρ) : Retains above n t t := ⟨.refl t, fun found _ => found⟩

theorem insert (retains : Retains above n ever t) {k : κ} (unused : ever.row k = none) (r : ρ) :
    Retains above n (ever.insert k r) (t.insert k r) := by
  have unused' : t.row k = none := by
    cases found : t.row k with
    | none => rfl
    | some old => cases unused.symm.trans (retains.within k old found)
  constructor
  · intro j found stored
    rw [row_insert_fresh unused'] at stored
    rw [row_insert_fresh unused]
    split
    · rename_i same
      rwa [if_pos same] at stored
    · rename_i other
      rw [if_neg other] at stored
      exact retains.within j found stored
  · intro j found stored few
    rw [row_insert_fresh unused] at stored
    rw [row_insert_fresh unused']
    split
    · rename_i same
      rwa [if_pos same] at stored
    · rename_i other
      rw [if_neg other] at stored
      have fewer := (Within.insert ever k r).outranked_le above (j, found)
      exact retains.kept stored (by omega)

theorem eraseAll (retains : Retains above n ever t) (seen_ : seen.Within ever) {ks : List κ}
    (low : ∀ k ∈ ks, ∃ r, seen.row k = some r ∧ n ≤ seen.outranked above (k, r)) :
    Retains above n ever (t.eraseAll ks) := by
  constructor
  · exact (Within.eraseAll ks t).trans retains.within
  · intro k r stored few
    rw [row_eraseAll]
    split
    · rename_i deleted
      obtain ⟨r', found, many⟩ := low k deleted
      cases (seen_ k r' found).symm.trans stored
      have fewer := seen_.outranked_le above (k, r)
      omega
    · exact retains.kept stored few

end Retains
end Engine.Table
