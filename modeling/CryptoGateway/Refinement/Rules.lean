import CryptoGateway.Invariant.Contract

/-!
Rules for the statements of the repositories. `K` is what a session knows about the committed
database; it survives the other sessions' commits.
-/
namespace CryptoGateway
open Engine

section
variable {config : Config} {ε β : Type} {held : List (Lock Row)} {ws : List Write}
  {log : Log Db Watch} {db : Db} {K : Db → Prop}
  {post : β → Assertion} {fault : ε → Assertion}

variable {α δ : Type} {job : Job ε α} {known : Log Db Watch} {query : Db → β}
  {c : Ctx Db Write Row Watch} {exec : Exec (Option RepositoryError)}

theorem none_or_none {ρ : Type} {x y : Option ρ} (missing : ∀ r r', x = some r →
    y = some r' → False) :
    x = none ∨ y = none := by
  cases x with
  | none => exact .inl rfl
  | some r =>
    cases y with
    | none => exact .inr rfl
    | some r' => exact (missing r r' rfl rfl).elim

theorem wp_orFail {error : ε} {found : Option β}
    (absent : found = none → fault error c) (present : ∀ b, found = some b → post b c) :
    wp (contract config) (orFail error found) post fault c := by
  cases found with
  | none => exact absent rfl
  | some b => exact present b rfl

theorem wp_liftExcept {wrap : ε → δ} {result : Except ε β} {fault : δ → Assertion}
    (failed : ∀ e, result = .error e → fault (wrap e) c)
    (succeeded : ∀ b, result = .ok b → post b c) :
    wp (contract config) (liftExcept wrap result) post fault c := by
  cases result with
  | error e => exact failed e rfl
  | ok b => exact succeeded b rfl

section Knowing
variable (stable : Steady config held K) (holds : K db)
include stable holds

theorem wp_select
    (cont : ∀ db, Sane config db → K db → post (query (applyAll ws db)) ⟨held, ws, log, db⟩) :
    wp (contract config) (select query) post fault ⟨held, ws, log, db⟩ :=
  wp_read stable holds fun m sane known => cont m.db sane known

theorem wp_watch {tag : Watch} (cont : ∀ m : Moment Db, Sane config m.db → K m.db →
      post (query (applyAll ws m.db)) ⟨held, ws, (tag, m) :: log, m.db⟩) :
    wp (contract config) (watch tag query) post fault ⟨held, ws, log, db⟩ :=
  wp_read stable holds cont

theorem wp_execute {exec : Exec β}
    (cont : ∀ (m : Moment Db) (db' : Db) (grant : Lock Row → Bool), Sane config m.db →
      Sane config db' → K m.db → K db' → Later (contract config) held m.db db' →
      ∀ reply, reply = exec (applyAll ws m.db) (applyAll ws db') grant →
      post reply.value ⟨required Db reply ++ held, ws ++ reply.writes, log, db'⟩) :
    wp (contract config) (execute exec) post fault ⟨held, ws, log, db⟩ := wp_stmt stable holds cont

theorem wp_watched {tag : Watch} {exec : Exec β}
    (cont : ∀ (m : Moment Db) (db' : Db) (grant : Lock Row → Bool), Sane config m.db →
      Sane config db' → K m.db → K db' → Later (contract config) held m.db db' →
      ∀ reply, reply = exec (applyAll ws m.db) (applyAll ws db') grant →
      post reply.value ⟨required Db reply ++ held, ws ++ reply.writes, (tag, m) :: log, db'⟩) :
    wp (contract config) (Proc.stmt (some tag) exec .done) post fault ⟨held, ws, log, db⟩ :=
  wp_stmt stable holds cont

theorem wp_uuid {post : Id → Assertion}
    (cont : ∀ id db, Sane config db → K db → post id ⟨held, ws, log, db⟩) :
    wp (contract config) uuid post fault ⟨held, ws, log, db⟩ := wp_fresh stable holds cont

theorem wp_now {post : Int → Assertion}
    (cont : ∀ at_ db, Sane config db → K db → post at_ ⟨held, ws, log, db⟩) :
    wp (contract config) now post fault ⟨held, ws, log, db⟩ :=
  wp_clock stable holds fun m sane known => cont m.now m.db sane known

theorem wp_watchedClock {tag : Watch} {post : Int → Assertion}
    (cont : ∀ m : Moment Db, Sane config m.db → K m.db →
      post m.now ⟨held, ws, (tag, m) :: log, m.db⟩) :
    wp (contract config) (Proc.clock (some tag) .done) post fault ⟨held, ws, log, db⟩ :=
  wp_clock stable holds cont

theorem wp_commits {post : Unit → Assertion}
    (eff : ∀ db, Sane config db → K db → Effect config log db ws)
    (cont : ∀ db, Sane config db → post () ⟨[], [], log, db⟩) :
    wp (contract config) commit post fault ⟨held, ws, log, db⟩ := wp_commit stable holds eff cont

theorem wp_commitsTo {post : Unit → Assertion}
    (eff : ∀ db, Sane config db → K db → Effect config log db ws)
    (cont : ∀ db, Sane config (applyAll ws db) → K db → post () ⟨[], [], log, applyAll ws db⟩) :
    wp (contract config) commit post fault ⟨held, ws, log, db⟩ := by
  intro db' moved sane
  have known := stable.later moved holds
  have permitted := eff db' sane known
  exact ⟨permitted, cont db' (sane.keep permitted) known⟩

theorem wp_rollsBack {post : Unit → Assertion}
    (cont : ∀ db, Sane config db → K db → post () ⟨[], [], log, db⟩) :
    wp (contract config) rollback post fault ⟨held, ws, log, db⟩ :=
  fun db' moved sane => cont db' sane (stable.later moved holds)

theorem wp_forUpdate {ρ : Type} {row : Row} {find : Db → Option ρ} {post : Option ρ → Assertion}
    (absent : ∀ seen db, K seen → Sane config db → K db →
      find (applyAll ws seen) = none ∨ find (applyAll ws db) = none → post none ⟨held, ws, log, db⟩)
    (present : ∀ r db, Sane config db → K db → find (applyAll ws db) = some r →
      post (some r) ⟨(row, .update) :: held, ws, log, db⟩) :
    wp (contract config) (execute (forUpdate row find)) post fault ⟨held, ws, log, db⟩ := by
  refine wp_execute stable holds fun m db' grant _ sane before known _ reply eq => ?_
  unfold forUpdate at eq
  split at eq
  · rename_i r _ found
    subst eq
    simpa [Reply.locked, required] using present r db' sane known found
  · rename_i missing
    subst eq
    simp only [Reply.value, required, List.flatMap_nil, List.append_nil, List.nil_append]
    exact absent m.db db' before sane known (none_or_none missing)

theorem wp_updateOne {ρ : Type} {row : Row} {find : Db → Option ρ} {write : ρ → List Write}
    {post : Nat → Assertion} (absent : ∀ seen db, K seen → Sane config db → K db →
      find (applyAll ws seen) = none ∨ find (applyAll ws db) = none → post 0 ⟨held, ws, log, db⟩)
    (present : ∀ r db, Sane config db → K db → find (applyAll ws db) = some r →
      post 1 ⟨(row, .noKeyUpdate) :: ((write r).flatMap Write.needs ++ held), ws ++ write r, log,
        db⟩) :
    wp (contract config) (execute (updateOne row find write)) post fault ⟨held, ws, log, db⟩ := by
  refine wp_execute stable holds fun m db' grant _ sane before known _ reply eq => ?_
  unfold updateOne at eq
  split at eq
  · rename_i r _ found
    subst eq
    exact present r db' sane known found
  · rename_i missing
    subst eq
    simp only [Reply.value, required, List.flatMap_nil, List.append_nil, List.nil_append]
    exact absent m.db db' before sane known (none_or_none missing)

theorem wp_wrote {more : List Write} {b : β} (cont : ∀ db, Sane config db → K db →
      post b ⟨more.flatMap Write.needs ++ held, ws ++ more, log, db⟩) :
    wp (contract config) (execute fun _ _ _ => Reply.wrote more b) post fault
      ⟨held, ws, log, db⟩ := by
  refine wp_execute stable holds fun _ db' _ _ sane _ known _ reply eq => ?_
  subst eq
  exact cont db' sane known

theorem wp_locked {locks : List (Lock Row)} {b : β}
    (cont : ∀ db, Sane config db → K db → post b ⟨locks ++ held, ws, log, db⟩) :
    wp (contract config) (execute fun _ _ _ => Reply.locked locks b) post fault
      ⟨held, ws, log, db⟩ := by
  refine wp_execute stable holds fun _ db' _ _ sane _ known _ reply eq => ?_
  subst eq
  simpa [Reply.locked, required] using cont db' sane known

theorem wp_orViolation {post : Unit → Assertion} {fault : RepositoryError → Assertion}
    (cont : ∀ (seen newest : Db) (grant : Lock Row → Bool) reply, Sane config newest → K newest →
      reply = exec seen (applyAll ws newest) grant → (∀ error, reply.value = some error →
        fault error ⟨required Db reply ++ held, ws ++ reply.writes, log, newest⟩) ∧
      (reply.value = none → post () ⟨required Db reply ++ held, ws ++ reply.writes, log, newest⟩)) :
    wp (contract config) (orViolation exec) post fault ⟨held, ws, log, db⟩ := by
  unfold orViolation
  rw [wp_bind]
  refine wp_execute stable holds fun m db' grant _ sane _ known _ reply eq => ?_
  obtain ⟨refused, accepted⟩ := cont _ db' grant reply sane known eq
  split
  · rename_i error value
    exact refused error value
  · rename_i value
    exact accepted value

end Knowing

theorem stable_true : Steady config held fun _ => True := Stable.const True

theorem wp_commitsNothing {post : Unit → Assertion}
    (cont : ∀ db, Sane config db → post () ⟨[], [], log, db⟩) :
    wp (contract config) commit post fault ⟨held, [], log, db⟩ :=
  wp_commits stable_true trivial (fun _ _ _ => .aside (by simp)) cont

theorem wp_insertOr {w : Write} {C : Db → Prop} {post : Unit → Assertion}
    {fault : RepositoryError → Assertion}
    (accepts : ∀ seen newest grant, (exec seen newest grant).value = none →
      exec seen newest grant = Reply.wrote [w] none ∧ C newest)
    (stable : Steady config held K) (now : K db)
    (refused : ∀ seen newest grant e held' ws', Sane config newest → K newest →
      (exec seen (applyAll ws newest) grant).value = some e → fault e ⟨held', ws', log, newest⟩)
    (cont : ∀ db, Sane config db → K db → C (applyAll ws db) →
      post () ⟨w.needs ++ held, ws ++ [w], log, db⟩) :
    wp (contract config) (orViolation exec) post fault ⟨held, ws, log, db⟩ := by
  refine wp_orViolation stable now fun seen newest grant reply sane known eq => ?_
  subst eq
  refine ⟨fun e value => refused seen newest grant e _ _ sane known value, fun accepted => ?_⟩
  obtain ⟨reply, checked⟩ := accepts seen (applyAll ws newest) grant accepted
  rw [reply]
  simpa [Reply.wrote, required, Store.needs] using cont newest sane known checked

theorem wp_insert {w : Write} {C : Db → Prop} {post : Unit → Assertion}
    {fault : RepositoryError → Assertion}
    (accepts : ∀ seen newest grant, (exec seen newest grant).value = none →
      exec seen newest grant = Reply.wrote [w] none ∧ C newest)
    (stable : Steady config held K) (now : K db) (faults : ∀ e c, K c.db → fault e c)
    (cont : ∀ db, Sane config db → K db → C (applyAll ws db) →
      post () ⟨w.needs ++ held, ws ++ [w], log, db⟩) :
    wp (contract config) (orViolation exec) post fault ⟨held, ws, log, db⟩ :=
  wp_insertOr accepts stable now (fun _ _ _ _ _ _ _ known _ => faults _ _ known) cont

theorem wp_enqueueOutbox {merchantId : Option Id} {eventType : EventType} {aggregateId : Id}
    {post : Unit → Assertion}
    {fault : RepositoryError → Assertion}
    (stable : Steady config held K) (now : K db) (faults : ∀ e c, K c.db → fault e c)
    (cont : ∀ id db, Sane config db → K db → (applyAll ws db).events.row id = none →
      post () ⟨(.event id, .update) :: held,
        ws ++ [.insertEvent id { merchantId, eventType, aggregateId }], log, db⟩) :
    wp (contract config) (enqueueOutbox merchantId eventType aggregateId) post fault
      ⟨held, ws, log, db⟩ := by
  unfold enqueueOutbox
  rw [wp_bind]
  refine wp_uuid stable now fun id db _ known => ?_
  refine @wp_insert config held ws log db K _
    (.insertEvent id { merchantId, eventType, aggregateId }) (fun db => db.events.row id = none)
    post fault (fun _ newest _ accepted => ?_) stable known faults (cont id)
  split at accepted
  · cases accepted
  · rename_i absent
    exact ⟨if_neg absent, by simpa using absent⟩

def Committable (config : Config) (c : Ctx Db Write Row Watch) : Prop :=
  ∃ K : Db → Prop, Stable (contract config) c.held K ∧ K c.db ∧
    ∀ db, Sane config db → K db → Effect config c.log db c.writes

theorem Committable.commit {post : Unit → Assertion} (ready : Committable config c)
    (cont : ∀ db, Sane config db → post () ⟨[], [], c.log, db⟩) :
    wp (contract config) commit post fault c := by
  obtain ⟨K, stable, now, eff⟩ := ready
  exact wp_commits stable now eff cont

theorem wp_holdLease {lease : ComponentLease} {post : Unit → Assertion}
    {fault : RepositoryError → Assertion}
    (stable : Steady config held K) (now : K db) (faults : ∀ e c, K c.db → fault e c)
    (cont : ∀ held' db, held ⊆ held' → Sane config db → K db → post () ⟨held', ws, log, db⟩) :
    wp (contract config) (holdLease lease) post fault ⟨held, ws, log, db⟩ := by
  unfold holdLease
  rw [wp_bind]
  refine wp_now stable now fun at_ db _ known => ?_
  rw [wp_bind]
  refine wp_execute stable known fun m db' grant _ sane _ known _ reply eq => ?_
  split at eq
  · subst eq
    simp only [Reply.locked, ↓reduceIte, List.append_nil]
    exact cont _ db' (List.subset_append_right _ held) sane known
  · subst eq
    exact faults _ _ known

def Refines (config : Config) {α : Type} (job : Job ε α) : Prop :=
  ∀ log db, Sane config db → wp (contract config) job (fun _ => Between (contract config))
    (fun _ => Between (contract config)) ⟨[], [], log, db⟩

theorem Refines.transaction {body : Job ε α}
    (inside : ∀ log db, Sane config db → wp (contract config) body
      (fun _ => Between (contract config)) (fun _ _ => True) ⟨[], [], log, db⟩) :
    Refines config (Proc.transaction body) :=
  fun log db sane => wp_transaction (inside log db sane) fun _ _ _ inv => ⟨rfl, rfl, inv⟩

theorem Refines.bind {next : α → Job ε β} (first : Refines config job)
    (rest : ∀ a, Refines config (next a)) : Refines config (job >>= next) := by
  intro log db sane
  rw [wp_bind]
  refine wp_mono (first log db sane) (fun a c between => ?_) fun _ _ between => between
  obtain ⟨held, writes, log', db'⟩ := c
  obtain ⟨rfl, rfl, sane'⟩ := between
  exact rest a log' db' sane'

theorem Refines.mapError (refines : Refines config job)
    (f : ε → δ) : Refines config (job.mapError f) := by
  intro log db sane
  rw [wp_mapError]
  exact refines log db sane

theorem Refines.caught (refines : Refines config job) :
    Refines config (job.caught : Job δ (Except ε α)) := by
  intro log db sane
  rw [wp_caught]
  exact refines log db sane

theorem Refines.pure (a : α) : Refines config (pure a : Job ε α) := fun _ _ sane => ⟨rfl, rfl, sane⟩

theorem Refines.fail (e : ε) : Refines config (.fail e : Job ε α) :=
  fun _ _ sane => ⟨rfl, rfl, sane⟩

theorem Refines.select : Refines config (CryptoGateway.select query : Job ε β) :=
  fun _ _ _ => wp_select stable_true trivial fun _ sane _ => ⟨rfl, rfl, sane⟩

theorem Refines.uuid : Refines config (CryptoGateway.uuid : Job ε Id) :=
  fun _ _ _ => wp_uuid stable_true trivial fun _ _ sane _ => ⟨rfl, rfl, sane⟩

theorem Refines.now : Refines config (CryptoGateway.now : Job ε Int) :=
  fun _ _ _ => wp_now stable_true trivial fun _ _ sane _ => ⟨rfl, rfl, sane⟩

def RefinesFrom (config : Config) (known : Log Db Watch) {α : Type} (job : Job ε α) : Prop :=
  ∀ log db, known ⊆ log → Sane config db → wp (contract config) job
    (fun _ => Between (contract config)) (fun _ => Between (contract config)) ⟨[], [], log, db⟩

theorem Refines.from (refines : Refines config job) : RefinesFrom config known job :=
  fun log db _ sane => refines log db sane

theorem RefinesFrom.bind {next : α → Job ε β}
    (first : RefinesFrom config known job) (rest : ∀ a, RefinesFrom config known (next a)) :
    RefinesFrom config known (job >>= next) := by
  intro log db sub sane
  rw [wp_bind]
  refine wp_mono (wp_remembers (first log db sub sane) sub) (fun a c done => ?_)
    fun _ _ done => done.1
  obtain ⟨held, writes, log', db'⟩ := c
  obtain ⟨⟨rfl, rfl, sane'⟩, sub'⟩ := done
  exact rest a log' db' sub' sane'

theorem RefinesFrom.mapError (refines : RefinesFrom config known job) (f : ε → δ) :
    RefinesFrom config known (job.mapError f) := by
  intro log db sub sane
  rw [wp_mapError]
  exact refines log db sub sane

theorem RefinesFrom.transaction {body : Job ε α}
    (inside : ∀ log db, known ⊆ log → Sane config db → wp (contract config) body
      (fun _ => Between (contract config)) (fun _ _ => True) ⟨[], [], log, db⟩) :
    RefinesFrom config known (Proc.transaction body) :=
  fun log db sub sane => wp_transaction (inside log db sub sane) fun _ _ _ inv => ⟨rfl, rfl, inv⟩

theorem Refines.orFail {error : ε} {found : Option β} :
    Refines config (CryptoGateway.orFail error found) := by
  cases found with
  | none => exact .fail error
  | some b => exact .pure b

theorem Refines.liftExcept {wrap : ε → δ} {result : Except ε β} :
    Refines config (CryptoGateway.liftExcept wrap result) := by
  cases result with
  | error e => exact .fail (wrap e)
  | ok b => exact .pure b

end
end CryptoGateway
