import Mathlib.Data.List.Dedup
import Mathlib.Data.List.Perm.Basic
import Mathlib.Algebra.BigOperators.Group.List.Lemmas
import Mathlib.Algebra.Order.BigOperators.Group.List

/-!
Grouped sums. A tally of keyed amounts has one row for each key that occurs, with the sum of its
amounts. A `GROUP BY` makes tallies, and so does a loop that looks a row up and adds to it.
-/
namespace Engine
variable {κ κ' μ μ' τ τ' ρ ε : Type} [DecidableEq κ] [DecidableEq κ'] [AddCommMonoid μ]
  [AddCommMonoid μ']

def amountOf (k : κ) (rows : List (κ × μ)) : μ := (rows.map fun r => if r.1 = k then r.2 else 0).sum

@[simp] theorem amountOf_nil (k : κ) : amountOf k ([] : List (κ × μ)) = 0 := rfl

@[simp] theorem amountOf_cons (k : κ) (r : κ × μ) (rows : List (κ × μ)) :
    amountOf k (r :: rows) = (if r.1 = k then r.2 else 0) + amountOf k rows := by simp [amountOf]

@[simp] theorem amountOf_append (k : κ) (rows more : List (κ × μ)) :
    amountOf k (rows ++ more) = amountOf k rows + amountOf k more := by simp [amountOf]

theorem amountOf_absent {k : κ} {rows : List (κ × μ)} (absent : k ∉ rows.map (·.1)) :
    amountOf k rows = 0 := by
  refine List.sum_eq_zero fun m mem => ?_
  obtain ⟨r, listed, rfl⟩ := List.mem_map.mp mem
  refine if_neg fun same => absent ?_
  exact List.mem_map.mpr ⟨r, listed, same⟩

theorem amountOf_perm {rows rows' : List (κ × μ)} (perm : rows.Perm rows') (k : κ) :
    amountOf k rows = amountOf k rows' := (perm.map _).sum_eq

structure Tallies (key : τ → κ) (amount : τ → μ) (rows : List (κ × μ)) (xs : List τ) : Prop where
  distinct : (xs.map key).Nodup
  keys : ∀ k, k ∈ xs.map key ↔ k ∈ rows.map (·.1)
  sums : ∀ x ∈ xs, amount x = amountOf (key x) rows

namespace Tallies
variable {key : τ → κ} {amount : τ → μ} {rows rows' : List (κ × μ)} {xs ys : List τ}

theorem nil : Tallies key amount [] [] := ⟨List.nodup_nil, by simp, by simp⟩

theorem perm_rows (tallies : Tallies key amount rows xs) (perm : rows.Perm rows') :
    Tallies key amount rows' xs where
  distinct := tallies.distinct
  keys k := (tallies.keys k).trans (perm.map _).mem_iff
  sums x mem := (tallies.sums x mem).trans (amountOf_perm perm _)

theorem perm (tallies : Tallies key amount rows xs) (perm : xs.Perm ys) :
    Tallies key amount rows ys where
  distinct := (perm.map key).nodup_iff.mp tallies.distinct
  keys k := (perm.map key).mem_iff.symm.trans (tallies.keys k)
  sums x mem := tallies.sums x (perm.mem_iff.mpr mem)

theorem congr {key' : τ' → κ} {amount' : τ' → μ} {xs' : List τ'}
    (tallies : Tallies key amount rows xs)
    (same : xs'.map (fun x => (key' x, amount' x)) = xs.map fun x => (key x, amount x)) :
    Tallies key' amount' rows xs' where
  distinct := by
    have keys := congrArg (List.map Prod.fst) same
    rw [List.map_map, List.map_map] at keys
    exact (congrArg List.Nodup keys).mpr tallies.distinct
  keys k := by
    have keys := congrArg (List.map Prod.fst) same
    rw [List.map_map, List.map_map] at keys
    exact (congrArg (k ∈ ·) keys).to_iff.trans (tallies.keys k)
  sums x' mem := by
    have listed : (key' x', amount' x') ∈ xs.map fun x => (key x, amount x) := by
      rw [← same]
      exact List.mem_map_of_mem mem
    obtain ⟨x, member, eq⟩ := List.mem_map.mp listed
    obtain ⟨key_eq, amount_eq⟩ := Prod.mk.inj eq
    rw [← key_eq, ← amount_eq]
    exact tallies.sums x member

theorem agree {key' : τ' → κ} {amount' : τ' → μ} {xs' : List τ'}
    (tallies : Tallies key amount rows xs) (other : Tallies key' amount' rows' xs')
    (perm : rows.Perm rows') : xs.length = xs'.length ∧
      ∀ x ∈ xs, ∃ y ∈ xs', key' y = key x ∧ amount' y = amount x := by
  have same : ∀ k, k ∈ xs.map key ↔ k ∈ xs'.map key' := fun k =>
    ((tallies.perm_rows perm).keys k).trans (other.keys k).symm
  refine ⟨?_, fun x mem => ?_⟩
  · have keys := (List.perm_ext_iff_of_nodup tallies.distinct other.distinct).mpr same
    simpa using keys.length_eq
  · obtain ⟨y, listed, eq⟩ := List.mem_map.mp ((same _).mp (List.mem_map_of_mem mem))
    refine ⟨y, listed, eq, ?_⟩
    rw [other.sums y listed, tallies.sums x mem, eq, amountOf_perm perm]

end Tallies

theorem sum_ite_eq_of_nodup {k : κ} (m : κ → μ) {ks : List κ} (distinct : ks.Nodup) (mem : k ∈ ks) :
    (ks.map fun j => if k = j then m j else 0).sum = m k := by
  induction ks with
  | nil => cases mem
  | cons j rest ih =>
    obtain ⟨notin, distinct⟩ := List.nodup_cons.mp distinct
    rw [List.map_cons, List.sum_cons]
    by_cases same : k = j
    · subst same
      have zero : (rest.map fun j => if k = j then m j else 0).sum = 0 := by
        refine List.sum_eq_zero fun n listed => ?_
        obtain ⟨i, member, rfl⟩ := List.mem_map.mp listed
        exact if_neg (by rintro rfl; exact notin member)
      rw [if_pos rfl, zero, add_zero]
    · rw [if_neg same, zero_add, ih distinct ((List.mem_cons.mp mem).resolve_left same)]

theorem sum_amountOf (f : κ → μ →+ μ') {ks : List κ} (distinct : ks.Nodup)
    (rows : List (κ × μ)) (all : ∀ r ∈ rows, r.1 ∈ ks) :
    (ks.map fun k => f k (amountOf k rows)).sum = (rows.map fun r => f r.1 r.2).sum := by
  induction rows with
  | nil => simp
  | cons r rest ih =>
    have split : (ks.map fun k => f k (amountOf k (r :: rest))) =
        ks.map fun k => (if r.1 = k then f k r.2 else 0) + f k (amountOf k rest) := by
      refine List.map_congr_left fun k _ => ?_
      rw [amountOf_cons, map_add]
      split
      · rfl
      · rw [map_zero]
    rw [split, List.sum_map_add, ih fun r' mem => all r' (List.mem_cons_of_mem _ mem),
      sum_ite_eq_of_nodup (fun k => f k r.2) distinct (all r List.mem_cons_self), List.map_cons,
      List.sum_cons]

theorem Tallies.amountOf_coarsen {key : τ → κ} {amount : τ → μ} {rows : List (κ × μ)} {xs : List τ}
    (fine : Tallies key amount rows xs) (c : κ → κ') (g : μ →+ μ') (k : κ') :
    amountOf k (xs.map fun x => (c (key x), g (amount x))) =
      amountOf k (rows.map fun r => (c r.1, g r.2)) := by
  have regroup := sum_amountOf (fun j => if c j = k then g else 0) fine.distinct rows
    fun r listed => (fine.keys _).mpr (List.mem_map_of_mem listed)
  rw [List.map_map] at regroup
  simp only [amountOf, List.map_map, Function.comp_def] at regroup ⊢
  refine Eq.trans (congrArg List.sum (List.map_congr_left fun x listed => ?_))
    (regroup.trans (congrArg List.sum (List.map_congr_left fun r _ => ?_)))
  · rw [fine.sums x listed]
    simp only [amountOf]
    split <;> rfl
  · split <;> rfl

theorem Tallies.coarsen {key : τ → κ} {amount : τ → μ} {rows : List (κ × μ)} {xs : List τ}
    {key' : τ' → κ'} {amount' : τ' → μ'} {ys : List τ'} (c : κ → κ') (g : μ →+ μ')
    (fine : Tallies key amount rows xs)
    (coarse : Tallies key' amount' (xs.map fun x => (c (key x), g (amount x))) ys) :
    Tallies key' amount' (rows.map fun r => (c r.1, g r.2)) ys where
  distinct := coarse.distinct
  keys k := by
    rw [coarse.keys]
    simp only [List.map_map, List.mem_map, Function.comp]
    constructor
    · rintro ⟨x, mem, rfl⟩
      obtain ⟨r, listed, same⟩ := List.mem_map.mp ((fine.keys _).mp (List.mem_map_of_mem mem))
      exact ⟨r, listed, by rw [same]⟩
    · rintro ⟨r, listed, rfl⟩
      obtain ⟨x, mem, same⟩ := List.mem_map.mp ((fine.keys _).mpr (List.mem_map_of_mem listed))
      exact ⟨x, mem, by rw [same]⟩
  sums y mem := (coarse.sums y mem).trans (fine.amountOf_coarsen c g _)

def groupBy (key : ρ → κ) (rows : List ρ) : List (κ × List ρ) :=
  (rows.map key).dedup.map fun k => (k, rows.filter (key · = k))

theorem sum_filter_key (key : ρ → κ) (amount : ρ → μ) (k : κ) (rows : List ρ) :
    ((rows.filter (key · = k)).map amount).sum =
      amountOf k (rows.map fun r => (key r, amount r)) := by
  induction rows with
  | nil => rfl
  | cons r rest ih =>
    rw [List.map_cons, amountOf_cons, ← ih, List.filter_cons]
    by_cases same : key r = k <;> simp [same]

theorem groupBy_tallies (key : ρ → κ) (amount : ρ → μ) (rows : List ρ) :
    Tallies (·.1) (fun g => (g.2.map amount).sum) (rows.map fun r => (key r, amount r))
      (groupBy key rows) where
  distinct := by
    simp only [groupBy, List.map_map, Function.comp_def, List.map_id']
    exact List.nodup_dedup _
  keys k := by simp [groupBy]
  sums g mem := by
    obtain ⟨k, _, rfl⟩ := List.mem_map.mp mem
    exact sum_filter_key key amount k rows

theorem except_bind_ok {α β : Type} {x : Except ε α} {f : α → Except ε β} {b : β}
    (ok : x >>= f = .ok b) : ∃ a, x = .ok a ∧ f a = .ok b := by
  cases x with
  | error e => cases ok
  | ok a => exact ⟨a, rfl, ok⟩

theorem map_mapM {α β γ : Type} {f : α → Except ε β} {g : α → γ} {g' : β → γ}
    (same : ∀ a b, f a = .ok b → g' b = g a) {as : List α} {bs : List β}
    (ok : as.mapM f = .ok bs) : bs.map g' = as.map g := by
  induction as generalizing bs with
  | nil => cases ok; rfl
  | cons a rest ih =>
    rw [List.mapM_cons] at ok
    obtain ⟨b, one, ok⟩ := except_bind_ok ok
    obtain ⟨bs', more, ⟨⟩⟩ := except_bind_ok ok
    rw [List.map_cons, List.map_cons, same a b one, ih more]

theorem mapM_cases {α β : Type} (f : α → Except ε β) (as : List α) :
    (∀ a ∈ as, ∃ b, f a = .ok b) ∨ ∃ a ∈ as, ∃ e, f a = .error e ∧ as.mapM f = .error e := by
  induction as with
  | nil => exact .inl (by simp)
  | cons a rest ih =>
    cases one : f a with
    | error e => exact .inr ⟨a, List.mem_cons_self, e, one, by rw [List.mapM_cons, one]; rfl⟩
    | ok b =>
      rcases ih with each | ⟨x, mem, e, failed, stops⟩
      · exact .inl (List.forall_mem_cons.mpr ⟨⟨b, one⟩, each⟩)
      · exact .inr ⟨x, List.mem_cons_of_mem a mem, e, failed, by
          rw [List.mapM_cons, one, stops]; rfl⟩

theorem mapM_returns {α β : Type} (f : α → Except ε β) (as : List α)
    (each : ∀ a ∈ as, ∃ b, f a = .ok b) : ∃ bs, as.mapM f = .ok bs := by
  induction as with
  | nil => exact ⟨[], rfl⟩
  | cons a rest ih =>
    obtain ⟨b, one⟩ := each a List.mem_cons_self
    obtain ⟨bs, more⟩ := ih fun a mem => each a (List.mem_cons_of_mem _ mem)
    exact ⟨b :: bs, by rw [List.mapM_cons, one, more]; rfl⟩

def accumulate (hits : τ → Bool) (create : Except ε τ) (add : τ → Except ε τ) :
    List τ → Except ε (List τ)
  | [] => do
    let new ← create
    pure [new]
  | x :: rest =>
    if hits x then do
      let sum ← add x
      pure (sum :: rest)
    else do
      let rest ← accumulate hits create add rest
      pure (x :: rest)

/-- The step adds the amount `m` under the key `k`. -/
structure Adds (key : τ → κ) (amount : τ → μ) (k : κ) (m : μ) (hits : τ → Bool)
    (create : Except ε τ) (add : τ → Except ε τ) : Prop where
  hits : ∀ x, hits x = true ↔ key x = k
  create : ∀ c, create = .ok c → key c = k ∧ amount c = m
  add : ∀ x y, key x = k → add x = .ok y → key y = k ∧ amount y = amount x + m

namespace Adds
variable {key : τ → κ} {amount : τ → μ} {k : κ} {m : μ} {hits : τ → Bool} {create : Except ε τ}
  {add : τ → Except ε τ} {xs ys : List τ}

theorem keys_after (adds : Adds key amount k m hits create add)
    (ok : accumulate hits create add xs = .ok ys) :
    ys.map key = if k ∈ xs.map key then xs.map key else xs.map key ++ [k] := by
  induction xs generalizing ys with
  | nil =>
    obtain ⟨c, created, ⟨⟩⟩ := except_bind_ok ok
    simp [(adds.create c created).1]
  | cons x rest ih =>
    rw [accumulate] at ok
    split at ok
    · rename_i hit
      have same := (adds.hits x).mp hit
      obtain ⟨y, added, ⟨⟩⟩ := except_bind_ok ok
      simp [(adds.add x y same added).1, same]
    · rename_i miss
      have other : k ≠ key x := fun same => miss ((adds.hits x).mpr same.symm)
      obtain ⟨rest', after, ⟨⟩⟩ := except_bind_ok ok
      rw [List.map_cons, ih after]
      by_cases present : k ∈ rest.map key
      · simp only [List.map_cons, List.mem_cons, present, or_true, if_true]
      · simp only [List.map_cons, List.mem_cons, other, present, or_self, if_false,
          List.cons_append]

omit [DecidableEq κ] in
theorem row_after (adds : Adds key amount k m hits create add) (distinct : (xs.map key).Nodup)
    (ok : accumulate hits create add xs = .ok ys) {y : τ} (mem : y ∈ ys) :
    (y ∈ xs ∧ key y ≠ k) ∨ (∃ x ∈ xs, key x = k ∧ key y = k ∧ amount y = amount x + m) ∨
      (k ∉ xs.map key ∧ key y = k ∧ amount y = m) := by
  induction xs generalizing ys with
  | nil =>
    obtain ⟨c, created, ⟨⟩⟩ := except_bind_ok ok
    rw [List.mem_singleton.mp mem]
    exact .inr (.inr ⟨by simp, adds.create c created⟩)
  | cons x rest ih =>
    obtain ⟨notin, distinct⟩ := List.nodup_cons.mp distinct
    rw [accumulate] at ok
    split at ok
    · rename_i hit
      have same := (adds.hits x).mp hit
      obtain ⟨y', added, ⟨⟩⟩ := except_bind_ok ok
      rcases List.mem_cons.mp mem with rfl | old
      · exact .inr (.inl ⟨x, List.mem_cons_self, same, adds.add x y same added⟩)
      · refine .inl ⟨List.mem_cons_of_mem _ old, fun eq => notin ?_⟩
        rw [same, ← eq]
        exact List.mem_map_of_mem old
    · rename_i miss
      have other : key x ≠ k := fun same => miss ((adds.hits x).mpr same)
      obtain ⟨rest', after, ⟨⟩⟩ := except_bind_ok ok
      rcases List.mem_cons.mp mem with rfl | old
      · exact .inl ⟨List.mem_cons_self, other⟩
      · rcases ih distinct after old with ⟨stays, ne⟩ | ⟨z, listed, found⟩ | ⟨absent, new⟩
        · exact .inl ⟨List.mem_cons_of_mem _ stays, ne⟩
        · exact .inr (.inl ⟨z, List.mem_cons_of_mem _ listed, found⟩)
        · exact .inr (.inr ⟨by simp [absent, Ne.symm other], new⟩)

theorem tallies (adds : Adds key amount k m hits create add) {rows : List (κ × μ)}
    (before : Tallies key amount rows xs) (ok : accumulate hits create add xs = .ok ys) :
    Tallies key amount (rows ++ [(k, m)]) ys where
  distinct := by
    rw [adds.keys_after ok]
    split
    · exact before.distinct
    · rename_i absent
      exact List.nodup_append.mpr ⟨before.distinct, List.nodup_singleton k, by
        rintro j listed _ mem rfl
        cases List.mem_singleton.mp mem
        exact absent listed⟩
  keys j := by
    have known := before.keys
    rw [adds.keys_after ok, List.map_append, List.mem_append, ← known]
    split
    · rename_i present
      simp only [List.map_cons, List.map_nil, List.mem_singleton]
      exact ⟨.inl, by rintro (old | rfl); exacts [old, present]⟩
    · simp
  sums y mem := by
    rw [amountOf_append]
    rcases adds.row_after before.distinct ok mem with ⟨old, ne⟩ | ⟨x, old, same, eq, sum⟩ |
      ⟨absent, eq, sum⟩
    · simp [before.sums y old, Ne.symm ne]
    · simp [sum, before.sums x old, same, eq]
    · simp [sum, eq, amountOf_absent (mt (before.keys k).mpr absent)]

omit [DecidableEq κ] in
theorem returns (adds : Adds key amount k m hits create add) (new : ∃ c, create = .ok c)
    (sum : ∀ x ∈ xs, key x = k → ∃ y, add x = .ok y) :
    ∃ ys, accumulate hits create add xs = .ok ys := by
  induction xs with
  | nil =>
    obtain ⟨c, created⟩ := new
    exact ⟨[c], by rw [accumulate, created]; rfl⟩
  | cons x rest ih =>
    rw [accumulate]
    split
    · rename_i hit
      obtain ⟨y, added⟩ := sum x List.mem_cons_self ((adds.hits x).mp hit)
      exact ⟨y :: rest, by rw [added]; rfl⟩
    · obtain ⟨ys, after⟩ := ih fun z mem => sum z (List.mem_cons_of_mem _ mem)
      exact ⟨x :: ys, by rw [after]; rfl⟩

end Adds

section Loop
variable {σ : Type} {key : τ → κ} {amount : τ → μ} (row : σ → κ × μ)
  {step : List τ → σ → Except ε (List τ)}

theorem tallies_foldlM (each : ∀ r rows xs ys, Tallies key amount rows xs → step xs r = .ok ys →
      Tallies key amount (rows ++ [row r]) ys)
    {rs : List σ} {rows : List (κ × μ)} {xs ys : List τ} (before : Tallies key amount rows xs)
    (ok : rs.foldlM step xs = .ok ys) : Tallies key amount (rows ++ rs.map row) ys := by
  induction rs generalizing rows xs with
  | nil => cases ok; simpa using before
  | cons r rest ih =>
    obtain ⟨zs, one, more⟩ := except_bind_ok ok
    simpa using ih (each r rows xs zs before one) more

theorem foldlM_returns (each : ∀ r rows xs ys, Tallies key amount rows xs → step xs r = .ok ys →
      Tallies key amount (rows ++ [row r]) ys)
    {rs : List σ} {rows : List (κ × μ)} {xs : List τ} (before : Tallies key amount rows xs)
    (fits : ∀ done r rest, rs = done ++ r :: rest → ∀ xs,
      Tallies key amount (rows ++ done.map row) xs → ∃ ys, step xs r = .ok ys) :
    ∃ ys, rs.foldlM step xs = .ok ys := by
  induction rs generalizing rows xs with
  | nil => exact ⟨xs, rfl⟩
  | cons r rest ih =>
    obtain ⟨zs, one⟩ := fits [] r rest rfl xs (by simpa using before)
    obtain ⟨ys, more⟩ := ih (each r rows xs zs before one) fun done r' rest' split xs' tallies =>
      fits (r :: done) r' rest' (by rw [split]; rfl) xs' (by simpa using tallies)
    exact ⟨ys, by rw [List.foldlM_cons, one]; exact more⟩

end Loop
end Engine
