import CryptoGateway.Engine.Process

/-!
How a view of the store moves under a list of writes: it stays, or one of the
writes put there what it shows.
-/
namespace Engine
variable {DB W R τ : Type} [Store DB W R]

@[simp] theorem applyAll_nil (db : DB) : applyAll ([] : List W) db = db := rfl

@[simp] theorem applyAll_cons (w : W) (ws : List W) (db : DB) :
    applyAll (w :: ws) db = applyAll ws (Store.apply w db) := rfl

@[simp] theorem applyAll_append (ws vs : List W) (db : DB) :
    applyAll (ws ++ vs) db = applyAll vs (applyAll ws db) := List.foldl_append

variable {ws : List W}

theorem applyAll_induct {P : DB → Prop} {db : DB} (now : P db)
    (keep : ∀ w ∈ ws, ∀ db, P db → P (Store.apply w db)) : P (applyAll ws db) := by
  induction ws generalizing db with
  | nil => exact now
  | cons w rest ih =>
    exact ih (keep w List.mem_cons_self db now) fun v mem => keep v (List.mem_cons_of_mem w mem)

theorem applyAll_same (view : DB → τ) (db : DB)
    (same : ∀ w ∈ ws, ∀ db, view (Store.apply w db) = view db) : view (applyAll ws db) = view db :=
  applyAll_induct (P := fun db' => view db' = view db) rfl
    fun w mem db' eq => (same w mem db').trans eq

theorem applyAll_origin (view : DB → Option τ) {P : W → Prop} {db : DB} {v : τ}
    (each : ∀ w ∈ ws, ∀ db, view (Store.apply w db) = some v → view db = some v ∨ P w)
    (after : view (applyAll ws db) = some v) : view db = some v ∨ ∃ w ∈ ws, P w := by
  induction ws generalizing db with
  | nil => exact .inl after
  | cons w rest ih =>
    rcases ih (fun u mem => each u (List.mem_cons_of_mem w mem)) after with before | ⟨u, mem, put⟩
    · rcases each w List.mem_cons_self db before with stays | put
      · exact .inl stays
      · exact .inr ⟨w, List.mem_cons_self, put⟩
    · exact .inr ⟨u, List.mem_cons_of_mem w mem, put⟩

def Persists (view : DB → Option τ) : Prop :=
  ∀ (w : W) (db : DB) (v : τ), view db = some v → view (Store.apply w db) = some v

theorem Persists.applyAll {view : DB → Option τ} (persists : Persists (W := W) view)
    {db : DB} {v : τ} (now : view db = some v) (ws : List W) : view (applyAll ws db) = some v :=
  applyAll_induct (P := fun db => view db = some v) now fun w _ db held => persists w db v held

theorem Persists.map {σ : Type} {view : DB → Option τ} (persists : Persists (W := W) view)
    (f : τ → σ) : Persists (W := W) fun db => (view db).map f := by
  intro w db v now
  obtain ⟨u, stored, rfl⟩ := Option.map_eq_some_iff.mp now
  exact Option.map_eq_some_iff.mpr ⟨u, persists w db u stored, rfl⟩

theorem Persists.applyAll_mem {view : DB → Option τ} (persists : Persists (W := W) view)
    {v : τ} {w : W} (mem : w ∈ ws) (put : ∀ db, view (Store.apply w db) = some v)
    (db : DB) : view (Engine.applyAll ws db) = some v := by
  obtain ⟨before, after, rfl⟩ := List.append_of_mem mem
  rw [applyAll_append, applyAll_cons]
  exact persists.applyAll (put _) after

end Engine
