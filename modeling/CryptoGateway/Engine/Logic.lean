import Mathlib.Logic.Relation
import CryptoGateway.Engine.Table
import CryptoGateway.Engine.Views

/-!
A program logic for sessions. `Interferes` is what other sessions may commit while this one holds
its locks; `wp` asks for the postcondition under any such interference, and at every commit for an
effect that `eff` permits.
-/
namespace Engine

/-- `inv` holds of every committed store; `eff log db ws` permits a session that
    remembers `log` to commit the writes `ws` to the store `db`. -/
structure Spec (DB W R T : Type) [Store DB W R] where
  inv : DB → Prop
  eff : Log DB T → DB → List W → Prop
  keeps : ∀ {log db ws}, inv db → eff log db ws → inv (applyAll ws db)

structure Ctx (DB W R T : Type) where
  held : List (Lock R)
  writes : List W
  log : Log DB T
  db : DB

section Logic
variable {DB W R T ε δ α β Q : Type} [DecidableEq R] [Store DB W R]
variable (spec : Spec DB W R T)

def Interferes (held : List (Lock R)) (db db' : DB) : Prop :=
  spec.inv db ∧ ∃ log ws,
    (∀ w ∈ ws, ∀ l ∈ Store.needs DB w, ∀ h ∈ held, clash l h = false) ∧
    spec.eff log db ws ∧ db' = applyAll ws db

def Later (held : List (Lock R)) : DB → DB → Prop :=
  Relation.ReflTransGen (Interferes spec held)

def Stable (held : List (Lock R)) (K : DB → Prop) : Prop :=
  ∀ ⦃db db'⦄, Interferes spec held db db' → K db → K db'

def wp : Proc DB W R T ε α → (α → Ctx DB W R T → Prop) → (ε → Ctx DB W R T → Prop) →
    Ctx DB W R T → Prop
  | .done a, post, _, c => post a c
  | .fail e, _, fault, c => fault e c
  | .read tag query next, post, fault, c =>
      ∀ m : Moment DB, Later spec c.held c.db m.db → spec.inv m.db →
        wp (next (query (applyAll c.writes m.db))) post fault
          ⟨c.held, c.writes, record tag m c.log, m.db⟩
  | .stmt tag exec next, post, fault, c =>
      ∀ m : Moment DB, Later spec c.held c.db m.db → spec.inv m.db →
      ∀ db', Later spec c.held m.db db' → spec.inv db' →
      ∀ grant : Lock R → Bool,
        let reply := exec (applyAll c.writes m.db) (applyAll c.writes db') grant
        wp (next reply.value) post fault
          ⟨required DB reply ++ c.held, c.writes ++ reply.writes, record tag m c.log, db'⟩
  | .commit next, post, fault, c =>
      ∀ db', Later spec c.held c.db db' → spec.inv db' →
        spec.eff c.log db' c.writes ∧
        wp next post fault ⟨[], [], c.log, applyAll c.writes db'⟩
  | .rollback next, post, fault, c =>
      ∀ db', Later spec c.held c.db db' → spec.inv db' →
        wp next post fault ⟨[], [], c.log, db'⟩
  | .clock tag next, post, fault, c =>
      ∀ m : Moment DB, Later spec c.held c.db m.db → spec.inv m.db →
        wp (next m.now) post fault ⟨c.held, c.writes, record tag m c.log, m.db⟩
  | .fresh next, post, fault, c =>
      ∀ n db', Later spec c.held c.db db' → spec.inv db' →
        wp (next n) post fault ⟨c.held, c.writes, c.log, db'⟩

variable {spec}

theorem Interferes.mono {held more : List (Lock R)} (sub : held ⊆ more) {db db' : DB}
    (move : Interferes spec more db db') : Interferes spec held db db' := by
  obtain ⟨inv, log, ws, apart, eff, eq⟩ := move
  exact ⟨inv, log, ws, fun w mem l need h inHeld => apart w mem l need h (sub inHeld), eff, eq⟩

theorem Stable.mono {held more : List (Lock R)} (sub : held ⊆ more) {K : DB → Prop}
    (stable : Stable spec held K) : Stable spec more K := fun _ _ move => stable (move.mono sub)

theorem Stable.later {held : List (Lock R)} {K : DB → Prop}
    (stable : Stable spec held K) {db db' : DB}
    (moved : Later spec held db db') (now : K db) : K db' := by
  induction moved with
  | refl => exact now
  | tail _ move ih => exact stable move ih

theorem Stable.and {held : List (Lock R)} {K L : DB → Prop}
    (left : Stable spec held K) (right : Stable spec held L) :
    Stable spec held fun db => K db ∧ L db :=
  fun _ _ move both => ⟨left move both.1, right move both.2⟩

theorem Stable.const {held : List (Lock R)} (p : Prop) : Stable spec held fun _ : DB => p :=
  fun _ _ _ holds => holds

theorem Stable.of_permitted {held : List (Lock R)} {K : DB → Prop} (legal : W → Prop)
    (permitted : ∀ {log db ws}, spec.inv db → spec.eff log db ws → ∀ w ∈ ws, legal w)
    (keep : ∀ (w : W) (db : DB), legal w →
      (∀ l ∈ Store.needs DB w, ∀ h ∈ held, clash l h = false) → K db → K (Store.apply w db)) :
    Stable spec held K := by
  rintro db _ ⟨inv, log, ws, apart, eff, rfl⟩ now
  have allowed := permitted inv eff
  clear * - keep apart now allowed
  induction ws generalizing db with
  | nil => exact now
  | cons w rest ih =>
    exact ih (fun v mem => apart v (List.mem_cons_of_mem w mem))
      (keep w db (allowed w List.mem_cons_self) (apart w List.mem_cons_self) now)
      (fun v mem => allowed v (List.mem_cons_of_mem w mem))

theorem Stable.of_write {held : List (Lock R)} {K : DB → Prop}
    (keep : ∀ (w : W) (db : DB), (∀ l ∈ Store.needs DB w, ∀ h ∈ held, clash l h = false) →
      K db → K (Store.apply w db)) : Stable spec held K :=
  .of_permitted (fun _ => True) (fun _ _ _ _ => trivial) fun w db _ => keep w db

theorem Stable.of_effect {held : List (Lock R)} {K : DB → Prop}
    (keep : ∀ {log db ws}, spec.inv db → spec.eff log db ws → K db → K (applyAll ws db)) :
    Stable spec held K := by
  rintro db _ ⟨inv, log, ws, _, eff, rfl⟩ now
  exact keep inv eff now

theorem Persists.stable {τ : Type} {view : DB → Option τ} (persists : Persists view)
    (held : List (Lock R)) (v : τ) : Stable spec held fun db => view db = some v :=
  .of_write fun w db _ now => persists w db v now

/-- Only writes that lock `row` exclusively change the view. -/
def Guarded {τ : Type} (view : DB → τ) (row : R) : Prop :=
  ∀ (w : W) (db : DB), view (Store.apply w db) = view db ∨
    (row, .noKeyUpdate) ∈ Store.needs DB w ∨ (row, .update) ∈ Store.needs DB w

theorem Guarded.stable {τ : Type} {view : DB → τ} {row : R} (guarded : Guarded view row)
    {held : List (Lock R)} (locked : (row, .noKeyUpdate) ∈ held ∨ (row, .update) ∈ held) (v : τ) :
    Stable spec held fun db => view db = v := by
  refine .of_write fun w db apart now => ?_
  rcases guarded w db with same | taken
  · exact same.trans now
  · rcases taken with need | need <;> rcases locked with mine | mine <;>
      exact absurd (apart _ need _ mine) (by simp [clash, Mode.conflicts])

omit [DecidableEq R] in
theorem Guarded.map {τ σ : Type} {view : DB → τ} {row : R} (guarded : Guarded view row)
    (f : τ → σ) : Guarded (fun db => f (view db)) row :=
  fun w db => (guarded w db).imp_left fun same => congrArg f same

section Inserts
variable {κ ρ : Type} [DecidableEq κ] {view : DB → Table κ ρ} {put : κ → ρ → W}

/-- The table is written by the inserts `put` alone. -/
def Inserts (view : DB → Table κ ρ) (put : κ → ρ → W) : Prop :=
  ∀ (w : W) (db : DB), view (Store.apply w db) = view db ∨
    ∃ k r, w = put k r ∧ view (Store.apply w db) = (view db).insert k r

omit [DecidableEq R] in
theorem Inserts.persists (inserts : Inserts view put) (k : κ) :
    Persists (W := W) fun db => (view db).row k := by
  intro w db v stored
  rcases inserts w db with same | ⟨j, r, _, new⟩
  · exact (congrArg (Table.row · k) same).trans stored
  · exact (congrArg (Table.row · k) new).trans (Table.row_insert_stored stored j r)

omit [DecidableEq R] in
theorem Inserts.origin (inserts : Inserts view put) {ws : List W} {db : DB} {k : κ} {r : ρ}
    (after : (view (applyAll ws db)).row k = some r) : (view db).row k = some r ∨ put k r ∈ ws := by
  have each : ∀ w ∈ ws, ∀ db : DB, (view (Store.apply w db)).row k = some r →
      (view db).row k = some r ∨ w = put k r := by
    intro w _ db stored
    rcases inserts w db with same | ⟨j, s, rfl, new⟩
    · exact .inl ((congrArg (Table.row · k) same).symm.trans stored)
    · rw [new] at stored
      exact (Table.row_insert_cases stored).imp_right fun ⟨_, same, eq⟩ => by rw [same, eq]
  simpa using applyAll_origin (fun db => (view db).row k) each after

omit [DecidableEq R] in
theorem Inserts.guarded (inserts : Inserts view put) (lock : κ → R)
    (locks : ∀ k r, (lock k, .update) ∈ Store.needs DB (put k r)) (k : κ) :
    Guarded (W := W) (fun db => (view db).row k) (lock k) := by
  intro w db
  rcases inserts w db with same | ⟨j, r, rfl, new⟩
  · exact .inl (congrArg (Table.row · k) same)
  · rcases Table.row_insert_or (view db) j k r with same | rfl
    · exact .inl ((congrArg (Table.row · k) new).trans same)
    · exact .inr (.inr (locks j r))

end Inserts

section Rules
variable {held : List (Lock R)} {ws : List W} {log : Log DB T} {db : DB} {K : DB → Prop}
  {post : α → Ctx DB W R T → Prop} {fault : ε → Ctx DB W R T → Prop} {tag : Option T}

theorem wp_read {query : DB → β} {next : β → Proc DB W R T ε α}
    (stable : Stable spec held K) (now : K db) (cont : ∀ m : Moment DB, spec.inv m.db → K m.db →
      wp spec (next (query (applyAll ws m.db))) post fault ⟨held, ws, record tag m log, m.db⟩) :
    wp spec (.read tag query next) post fault ⟨held, ws, log, db⟩ :=
  fun m moved inv => cont m inv (stable.later moved now)

theorem wp_stmt {exec : DB → DB → (Lock R → Bool) → Reply W R β} {next : β → Proc DB W R T ε α}
    (stable : Stable spec held K) (now : K db)
    (cont : ∀ (m : Moment DB) (db' : DB) (grant : Lock R → Bool), spec.inv m.db → spec.inv db' →
      K m.db → K db' → Later spec held m.db db' →
      ∀ reply, reply = exec (applyAll ws m.db) (applyAll ws db') grant →
      wp spec (next reply.value) post fault
        ⟨required DB reply ++ held, ws ++ reply.writes, record tag m log, db'⟩) :
    wp spec (.stmt tag exec next) post fault ⟨held, ws, log, db⟩ := by
  intro m moved inv db' waited inv' grant
  have start := stable.later moved now
  exact cont m db' grant inv inv' start (stable.later waited start) waited _ rfl

theorem wp_commit {next : Proc DB W R T ε α} (stable : Stable spec held K) (now : K db)
    (eff : ∀ db', spec.inv db' → K db' → spec.eff log db' ws)
    (cont : ∀ db', spec.inv db' → wp spec next post fault ⟨[], [], log, db'⟩) :
    wp spec (.commit next) post fault ⟨held, ws, log, db⟩ := by
  intro db' moved inv
  have permitted := eff db' inv (stable.later moved now)
  exact ⟨permitted, cont _ (spec.keeps inv permitted)⟩

theorem wp_clock {next : Int → Proc DB W R T ε α} (stable : Stable spec held K) (now : K db)
    (cont : ∀ m : Moment DB, spec.inv m.db → K m.db →
      wp spec (next m.now) post fault ⟨held, ws, record tag m log, m.db⟩) :
    wp spec (.clock tag next) post fault ⟨held, ws, log, db⟩ :=
  fun m moved inv => cont m inv (stable.later moved now)

theorem wp_fresh {next : Nat → Proc DB W R T ε α} (stable : Stable spec held K) (now : K db)
    (cont : ∀ n db', spec.inv db' → K db' → wp spec (next n) post fault ⟨held, ws, log, db'⟩) :
    wp spec (.fresh next) post fault ⟨held, ws, log, db⟩ :=
  fun n db' moved inv => cont n db' inv (stable.later moved now)

end Rules

@[simp] theorem wp_pure (a : α) (post : α → Ctx DB W R T → Prop) (fault : ε → Ctx DB W R T → Prop)
    (c : Ctx DB W R T) : wp spec (pure a : Proc DB W R T ε α) post fault c = post a c := rfl

theorem wp_bind (p : Proc DB W R T ε α) (f : α → Proc DB W R T ε β)
    (post : β → Ctx DB W R T → Prop) (fault : ε → Ctx DB W R T → Prop) (c : Ctx DB W R T) :
    wp spec (p >>= f) post fault c = wp spec p (fun a c => wp spec (f a) post fault c) fault c := by
  change wp spec (p.bind f) post fault c = _
  induction p generalizing c with
  | done a => rfl
  | fail e => rfl
  | read tag query next ih => simp only [Proc.bind, wp, ih]
  | stmt tag exec next ih => simp only [Proc.bind, wp, ih]
  | commit next ih => simp only [Proc.bind, wp, ih]
  | rollback next ih => simp only [Proc.bind, wp, ih]
  | clock tag next ih => simp only [Proc.bind, wp, ih]
  | fresh next ih => simp only [Proc.bind, wp, ih]

theorem wp_handle (p : Proc DB W R T ε α) (recover : ε → Proc DB W R T δ α)
    (post : α → Ctx DB W R T → Prop) (fault : δ → Ctx DB W R T → Prop) (c : Ctx DB W R T) :
    wp spec (p.handle recover) post fault c =
      wp spec p post (fun e c => wp spec (recover e) post fault c) c := by
  induction p generalizing c with
  | done a => rfl
  | fail e => rfl
  | read tag query next ih => simp only [Proc.handle, wp, ih]
  | stmt tag exec next ih => simp only [Proc.handle, wp, ih]
  | commit next ih => simp only [Proc.handle, wp, ih]
  | rollback next ih => simp only [Proc.handle, wp, ih]
  | clock tag next ih => simp only [Proc.handle, wp, ih]
  | fresh next ih => simp only [Proc.handle, wp, ih]

variable {post : α → Ctx DB W R T → Prop} {fault : ε → Ctx DB W R T → Prop} {c : Ctx DB W R T}
  {p : Proc DB W R T ε α}

theorem wp_mono {post' : α → Ctx DB W R T → Prop} {fault' : ε → Ctx DB W R T → Prop}
    (holds : wp spec p post fault c) (weaker : ∀ a c, post a c → post' a c)
    (milder : ∀ e c, fault e c → fault' e c) : wp spec p post' fault' c := by
  induction p generalizing c with
  | done a => exact weaker _ _ holds
  | fail e => exact milder _ _ holds
  | read tag query next ih => exact fun m moved inv => ih _ (holds m moved inv)
  | stmt tag exec next ih =>
    exact fun m moved inv db' waited inv' grant => ih _ (holds m moved inv db' waited inv' grant)
  | commit next ih =>
    exact fun db' moved inv => ⟨(holds db' moved inv).1, ih (holds db' moved inv).2⟩
  | rollback next ih => exact fun db' moved inv => ih (holds db' moved inv)
  | clock tag next ih => exact fun m moved inv => ih _ (holds m moved inv)
  | fresh next ih => exact fun n db' moved inv => ih _ (holds n db' moved inv)

theorem wp_remembers {known : Log DB T} (holds : wp spec p post fault c) (sub : known ⊆ c.log) :
    wp spec p (fun a c' => post a c' ∧ known ⊆ c'.log) (fun e c' => fault e c' ∧ known ⊆ c'.log)
      c := by
  induction p generalizing c with
  | done a => exact ⟨holds, sub⟩
  | fail e => exact ⟨holds, sub⟩
  | read tag query next ih =>
    exact fun m moved inv => ih _ (holds m moved inv)
      (List.Subset.trans sub (subset_record tag m c.log))
  | stmt tag exec next ih =>
    exact fun m moved inv db' waited inv' grant => ih _ (holds m moved inv db' waited inv' grant)
      (List.Subset.trans sub (subset_record tag m c.log))
  | commit next ih =>
    exact fun db' moved inv => ⟨(holds db' moved inv).1, ih (holds db' moved inv).2 sub⟩
  | rollback next ih => exact fun db' moved inv => ih (holds db' moved inv) sub
  | clock tag next ih =>
    exact fun m moved inv => ih _ (holds m moved inv)
      (List.Subset.trans sub (subset_record tag m c.log))
  | fresh next ih => exact fun n db' moved inv => ih _ (holds n db' moved inv) sub

theorem wp_frame {P : DB → Prop}
    (kept : ∀ {log db ws}, spec.inv db → spec.eff log db ws → P db → P (applyAll ws db))
    (holds : wp spec p post fault c) (now : P c.db) :
    wp spec p (fun a c' => post a c' ∧ P c'.db) (fun e c' => fault e c' ∧ P c'.db) c := by
  have later : ∀ {held db db'}, Later spec held db db' → P db → P db' :=
    fun moved => (Stable.of_effect kept).later moved
  induction p generalizing c with
  | done a => exact ⟨holds, now⟩
  | fail e => exact ⟨holds, now⟩
  | read tag query next ih => exact fun m moved inv => ih _ (holds m moved inv) (later moved now)
  | stmt tag exec next ih =>
    exact fun m moved inv db' waited inv' grant =>
      ih _ (holds m moved inv db' waited inv' grant) (later waited (later moved now))
  | commit next ih =>
    intro db' moved inv
    obtain ⟨permitted, rest⟩ := holds db' moved inv
    exact ⟨permitted, ih rest (kept inv permitted (later moved now))⟩
  | rollback next ih => exact fun db' moved inv => ih (holds db' moved inv) (later moved now)
  | clock tag next ih => exact fun m moved inv => ih _ (holds m moved inv) (later moved now)
  | fresh next ih => exact fun n db' moved inv => ih _ (holds n db' moved inv) (later moved now)

theorem wp_mapError (f : ε → δ) (p : Proc DB W R T ε α) (post : α → Ctx DB W R T → Prop)
    (fault : δ → Ctx DB W R T → Prop) (c : Ctx DB W R T) :
    wp spec (p.mapError f) post fault c = wp spec p post (fun e c => fault (f e) c) c :=
  wp_handle p _ post fault c

theorem wp_caught (p : Proc DB W R T ε α) (post : Except ε α → Ctx DB W R T → Prop)
    (fault : δ → Ctx DB W R T → Prop) (c : Ctx DB W R T) : wp spec p.caught post fault c =
      wp spec p (fun a c => post (.ok a) c) (fun e c => post (.error e) c) c := by
  unfold Proc.caught
  rw [wp_handle]
  exact wp_bind p _ _ _ c

def Between (spec : Spec DB W R T) (c : Ctx DB W R T) : Prop :=
  c.held = [] ∧ c.writes = [] ∧ spec.inv c.db

theorem wp_transaction_error {body : Proc DB W R T ε α} {P : ε → Log DB T → Prop}
    (inside : wp spec body post (fun e c => P e c.log) c)
    (outside : ∀ e log db, P e log → spec.inv db → fault e ⟨[], [], log, db⟩) :
    wp spec (Proc.transaction body) post fault c := by
  unfold Proc.transaction
  rw [wp_handle]
  exact wp_mono inside (fun _ _ held => held) fun e c holds db' _ inv =>
    outside e c.log db' holds inv

theorem wp_transaction {body : Proc DB W R T ε α} (inside : wp spec body post (fun _ _ => True) c)
    (outside : ∀ e log db, spec.inv db → fault e ⟨[], [], log, db⟩) :
    wp spec (Proc.transaction body) post fault c :=
  wp_transaction_error (P := fun _ _ => True) inside fun e log db _ inv => outside e log db inv

end Logic
end Engine
