import CryptoGateway.Refinement.Rules

/-!
The intent repository keeps the contract: creating and cancelling an intent.
-/
namespace CryptoGateway
open Engine

section
variable {config : Config} {held : List (Lock Row)} {ws : List Write} {log : Log Db Watch} {db : Db}
  {K : Db → Prop} {fault : RepositoryError → Assertion}

variable {merchantId i resource : Id} {key : Text} {route : Route} {hash : Digest}

theorem wp_insertIdempotency {row : IdempotencyRow}
    {post : Bool → Assertion} (stable : Steady config held K) (now : K db)
    (spent : ∀ record db, Sane config db → K db →
      (applyAll ws db).idempotency.row (merchantId, route, key) = some record →
      post false ⟨held, ws, log, db⟩) (fresh : ∀ db, Sane config db → K db →
      (applyAll ws db).idempotency.row (merchantId, route, key) = none → post true
      ⟨(.idempotency merchantId route key, .update) :: held,
        ws ++ [.insertIdempotency merchantId route key row], log, db⟩) :
    wp (contract config) (execute (insertIdempotency merchantId route key row)) post fault
      ⟨held, ws, log, db⟩ := by
  refine wp_execute stable now fun m db' grant _ sane _ known _ reply eq => ?_
  unfold insertIdempotency at eq
  split at eq
  · rename_i absent
    subst eq
    exact fresh db' sane known absent
  · rename_i record stored
    subst eq
    simpa [Reply.value, required] using spent record db' sane known stored

def Db.Spent (db : Db) (merchantId : Id) (route : Route) (key : Text) (hash : Digest)
    (resource : Id) : Prop :=
  db.idempotency.row (merchantId, route, key) = some ⟨hash, resource⟩

theorem spentKey_stable : Steady config held fun db =>
      db.Spent merchantId route key hash resource := (idempotency_inserts.persists _).stable held _

theorem spent_of_insert {rest : List Write}
    (unspent : db.idempotency.row (merchantId, route, key) = none) :
    (applyAll (.insertIdempotency merchantId route key ⟨hash, resource⟩ :: rest)
      db).Spent merchantId
      route key hash resource := by
  have put : (Store.apply (Write.insertIdempotency merchantId route key ⟨hash, resource⟩)
      db).idempotency.row (merchantId, route, key) = some ⟨hash, resource⟩ := by
    simp [Write.idempotency, Table.row_insert_fresh unspent]
  exact (idempotency_inserts.persists (merchantId, route, key)).applyAll put rest

theorem wp_replayedResource {spentOn : Digest} {post : Id → Assertion}
    (stored : db.Spent merchantId route key spentOn resource)
    (other : ∀ db, hash ≠ spentOn → fault .idempotencyConflict ⟨held, [], log, db⟩)
    (cont : ∀ db, Sane config db → db.Spent merchantId route key hash resource →
      hash = spentOn → post resource ⟨held, [], log, db⟩) :
    wp (contract config) (replayedResource merchantId route key hash) post fault
      ⟨held, [], log, db⟩ := by
  unfold replayedResource
  rw [wp_bind]
  refine wp_select spentKey_stable stored fun db sane stored => ?_
  rw [wp_bind, applyAll_nil, show db.idempotency.row _ = _ from stored]
  refine wp_orFail (fun absent => by cases absent) fun existing found => ?_
  cases found
  split
  · rename_i differs
    exact other db (Ne.symm differs)
  · rename_i same
    cases not_not.mp same
    exact cont db sane stored rfl

theorem wp_commitsReplay {post : Unit → Assertion}
    (stored : db.Spent merchantId route key hash resource)
    (cont : ∀ db, Sane config db → db.Spent merchantId route key hash resource →
      post () ⟨[], [], log, db⟩) : wp (contract config) commit post fault ⟨held, [], log, db⟩ :=
  wp_commitsTo spentKey_stable stored (fun _ _ _ => .aside (by simp)) fun db sane stored =>
    cont db sane stored

theorem createIdempotently_spec {intent : PaymentIntent} (opens : intent.status = .requiresQuote)
    (key : Text) (hash : Digest) : wp (contract config) (createIdempotently intent key hash)
      (fun r c => Between (contract config) c ∧ c.db.Spent intent.merchantId .create key hash r.id)
      (fun _ => Between (contract config)) ⟨[], [], log, db⟩ := by
  refine wp_transaction ?_ fun _ _ _ sane => ⟨rfl, rfl, sane⟩
  rw [wp_bind]
  refine wp_insertIdempotency stable_true trivial (fun record db sane _ stored => ?_)
    fun db sane _ unspent => ?_
  · simp only [Bool.false_eq_true, ↓reduceIte]
    rw [wp_bind]
    obtain ⟨spentOn, resource⟩ := record
    refine wp_replayedResource stored (fun _ _ => trivial)
      fun db sane stored _ => ?_
    rw [wp_bind]
    refine wp_select spentKey_stable stored fun db sane stored => ?_
    rw [wp_bind]
    refine wp_orFail (fun _ => trivial) fun row _ => ?_
    rw [wp_bind]
    exact wp_commitsReplay stored fun db sane stored => ⟨⟨rfl, rfl, sane⟩, stored⟩
  · simp only [↓reduceIte]
    rw [wp_bind]
    refine wp_execute ((idempotency_guarded _ _ _).stable (.inr List.mem_cons_self) none) unspent
      fun m db' grant _ sane' _ unspent _ reply eq => ?_
    unfold insertIntent at eq
    split at eq
    · subst eq; trivial
    · rename_i absent
      split at eq
      · subst eq; trivial
      · subst eq
        simp only [Reply.wrote]
        rw [wp_bind]
        have free : db'.intents.row intent.id = none := by
          simpa [Write.intents] using absent
        refine wp_commitsTo (((intents_guarded intent.id).stable (.inr ?_) none).and
          ((idempotency_guarded _ _ _).stable (.inr ?_) none)) ⟨free, unspent⟩
          (fun db _ known => .create intent.id (intentRow intent) known.1 opens known.2)
          fun db sane known => ⟨⟨rfl, rfl, sane⟩, ?_⟩
        rotate_left 2
        · exact spent_of_insert known.2
        all_goals simp [required, Store.needs, Write.needs]

theorem decidedOrClaimed_eq_true : db.decidedOrClaimed i = true ↔
    (∃ t row, db.decisions.row (i, t) = some row) ∨
      ∃ t claim, db.claims.row t = some claim ∧ claim.paymentIntentId = i := by
  simp only [Db.decidedOrClaimed, Bool.or_eq_true, List.any_eq_true, decide_eq_true_eq]
  constructor
  · rintro (⟨⟨⟨j, t⟩, row⟩, mem, rfl⟩ | ⟨⟨t, claim⟩, mem, of⟩)
    · exact .inl ⟨t, row, Table.mem_entries.mp mem⟩
    · exact .inr ⟨t, claim, Table.mem_entries.mp mem, of⟩
  · rintro (⟨t, row, found⟩ | ⟨t, claim, found, of⟩)
    · exact .inl ⟨((i, t), row), Table.mem_entries.mpr found, rfl⟩
    · exact .inr ⟨(t, claim), Table.mem_entries.mpr found, of⟩

theorem decidedOrClaimed_eq_false : db.decidedOrClaimed i = false ↔
    (∀ t row, db.decisions.row (i, t) ≠ some row) ∧
      ∀ t claim, db.claims.row t = some claim → claim.paymentIntentId ≠ i := by
  rw [← Bool.not_eq_true, decidedOrClaimed_eq_true]
  constructor
  · intro untouched
    exact ⟨fun t row found => untouched (.inl ⟨t, row, found⟩),
      fun t claim found of => untouched (.inr ⟨t, claim, found, of⟩)⟩
  · rintro ⟨undecided, unclaimed⟩ (⟨t, row, found⟩ | ⟨t, claim, found, of⟩)
    · exact undecided t row found
    · exact unclaimed t claim found of

theorem decidedOrClaimed_stable (locked : (.intent i, .update) ∈ held) :
    Steady config held fun db => db.decidedOrClaimed i = false := by
  refine .of_write fun w db apart now => ?_
  have away : (Row.intent i, Mode.keyShare) ∉ Store.needs Db w := fun need =>
    absurd (apart _ need _ locked) (by simp [clash, Mode.conflicts])
  rw [decidedOrClaimed_eq_false] at now ⊢
  obtain ⟨undecided, unclaimed⟩ := now
  refine ⟨fun t row found => ?_, fun t claim found => ?_⟩
  · rcases decided_origin (show (applyAll [w] db).decisions.row (i, t) = some row from found) with
      ⟨old, stored⟩ | ⟨new, put⟩
    · exact undecided t old stored
    · cases List.mem_singleton.mp put
      exact away (by simp [Store.needs, Write.needs])
  · rcases claims_inserts.origin (show (applyAll [w] db).claims.row t = some claim from found)
      with old | put
    · exact unclaimed t claim old
    · cases List.mem_singleton.mp put
      rintro rfl
      exact away (by simp [Store.needs, Write.needs])

def Db.Live (db : Db) (i a : Id) : Prop :=
  ∃ row, db.attempts.row a = some row ∧ row.paymentIntentId = i ∧ row.status = .awaitingPayment

theorem live_stable (locked : (.intent i, .update) ∈ held) (ids : Id → Prop) :
    Steady config held fun db => ∀ a, db.Live i a → ids a := by
  refine .of_permitted Write.Forward (fun _ eff w mem => eff.forward mem) ?_
  rintro w db forward apart now a ⟨row, found, rfl, live⟩
  rcases awaiting_origin (by simpa using forward)
    (show (applyAll [w] db).attempts.row a = some row from found) live with old | put
  · exact now a ⟨row, old, rfl, live⟩
  · cases List.mem_singleton.mp put
    exact absurd (apart (.intent row.paymentIntentId, .keyShare)
      (by simp [Store.needs, Write.needs])
      _ locked) (by simp [clash, Mode.conflicts])

theorem liveSet_stable {ids : List Id} (locked : (.intent i, .update) ∈ held)
    (rows : ∀ a ∈ ids, (.attempt a, .noKeyUpdate) ∈ held) :
    Steady config held fun db => ∀ a, a ∈ ids ↔ db.Live i a := by
  intro db db' move now a
  constructor
  · intro mem
    obtain ⟨row, found, rest⟩ := (now a).mp mem
    exact ⟨row, (attempts_guarded a).stable (.inl (rows a mem)) _ move found, rest⟩
  · exact live_stable locked (· ∈ ids) move (fun a live => (now a).mpr live) a

theorem wp_cancelAttempts {post : List Id → Assertion}
    (stable : Steady config held K) (now : K db) (locked : (.intent i, .update) ∈ held)
    (other : ∀ w ∈ ws, w.table ≠ .attempts)
    (cont : ∀ ids db, Sane config db → K db → (∀ a, a ∈ ids ↔ db.Live i a) →
      post ids ⟨(ids.map (.setAttemptStatus · .cancelled)).flatMap Write.needs ++ held,
        ws ++ ids.map (.setAttemptStatus · .cancelled), log, db⟩) :
    wp (contract config) (execute (cancelAttempts i)) post fault ⟨held, ws, log, db⟩ := by
  refine wp_execute stable now fun m db' grant _ sane _ known waited reply eq => ?_
  have lives : ∀ (db : Db) a, ((applyAll ws db).attempts.row a).any (fun row =>
      decide (row.paymentIntentId = i) && decide (row.status = .awaitingPayment)) = true ↔
      db.Live i a := by
    intro db a
    rw [attempts_same other]
    simp [Db.Live, Option.any_eq_true]
  have before : ∀ a, db'.Live i a → m.db.Live i a :=
    (live_stable locked (m.db.Live i)).later waited fun _ live => live
  simp only [cancelAttempts, Reply.wrote] at eq
  subst eq
  refine cont _ db' sane known fun a => ?_
  simp only [List.mem_filter, Bool.and_eq_true, lives, Table.stored]
  constructor
  · rintro ⟨_, _, live⟩
    exact live
  · intro live
    obtain ⟨row, found, _⟩ := before a live
    exact ⟨by rw [attempts_same other, found]; rfl, before a live, live⟩

theorem wp_cancelLocked {intentId : Id} {intent : IntentRow}
    {requestHash : Digest} (locked : (.intent intentId, .update) ∈ held)
    (mine : (.idempotency merchantId .cancel key, .update) ∈ held)
    (unspent : db.idempotency.row (merchantId, .cancel, key) = none)
    (stored : db.intents.row intentId = some intent) (ofMerchant : intent.merchantId = merchantId)
    (cancellable : intent.status ∈ cancellableStates)
    (untouched : db.decidedOrClaimed intentId = false) :
    wp (contract config) (cancelLocked merchantId intentId)
      (fun r c => Between (contract config) c ∧
        ∀ answer, r = some answer → c.db.Spent merchantId .cancel key requestHash answer.id)
      (fun _ _ => True)
      ⟨held, [.insertIdempotency merchantId .cancel key ⟨requestHash, intentId⟩], log, db⟩ := by
  have pinned : Steady config held fun db =>
      db.intents.row intentId = some intent ∧ db.decidedOrClaimed intentId = false ∧
        db.idempotency.row (merchantId, .cancel, key) = none :=
    ((intents_guarded intentId).stable (.inr locked) _).and ((decidedOrClaimed_stable locked).and
      ((idempotency_guarded _ _ _).stable (.inr mine) none))
  unfold cancelLocked
  rw [wp_bind]
  refine wp_updateOne pinned ⟨stored, untouched, unspent⟩ (fun seen db before _ known missing => ?_)
    fun row db sane known _ => ?_
  · -- a locked row cannot be missing
    simp [Write.intents, before.1, known.1] at missing
  · have more : held ⊆ (.intent intentId, .noKeyUpdate) ::
        (([.setIntentStatus intentId .cancelled] : List Write).flatMap Write.needs ++ held) :=
      fun _ mem => List.mem_cons_of_mem _ (List.mem_append_right _ mem)
    rw [wp_bind]
    refine wp_cancelAttempts (pinned.mono more) known (more locked) (by simp [Write.table])
      fun ids db sane known all => ?_
    have wider := List.subset_append_of_subset_right
      ((ids.map (.setAttemptStatus · .cancelled)).flatMap Write.needs) more
    have live : Steady config _ fun db => ∀ a, a ∈ ids ↔ db.Live intentId a :=
      liveSet_stable (wider locked) fun a mem => List.mem_append_left _
        (List.mem_flatMap.mpr ⟨_, List.mem_map.mpr ⟨a, mem, rfl⟩, by simp [Write.needs]⟩)
    rw [wp_bind]
    refine wp_enqueueOutbox ((pinned.mono wider).and live) ⟨known, all⟩ (fun _ _ _ => trivial)
      fun eventId db sane known _ => ?_
    have final := ((pinned.mono wider).and live).mono
      (List.subset_cons_self (.event eventId, .update) _)
    rw [wp_bind]
    refine wp_select final known fun db sane known => ?_
    rw [wp_bind]
    refine wp_orFail (fun _ => trivial) fun cancelled _ => ?_
    rw [wp_bind]
    refine wp_commitsTo final known (fun db _ known => ?_) fun db sane known => ?_
    · exact .cancel known.1.1 cancellable known.1.2.1 known.2 known.1.2.2 ofMerchant
    · refine ⟨⟨rfl, rfl, sane⟩, ?_⟩
      rintro _ ⟨⟩
      simpa only [List.cons_append, List.nil_append, IdempotentCreate.id] using
        spent_of_insert known.1.2.2

theorem findIntent_eq_some {intent : IntentRow} : db.findIntent merchantId i = some intent ↔
      db.intents.row i = some intent ∧ intent.merchantId = merchantId := by
  simp [Db.findIntent, Option.filter_eq_some_iff]

theorem cancelIdempotently_spec (merchantId intentId : Id) (key : Text) (hash : Digest) :
    wp (contract config) (cancelIdempotently merchantId intentId key hash)
      (fun r c => Between (contract config) c ∧
        ∀ answer, r = some answer → c.db.Spent merchantId .cancel key hash answer.id)
      (fun _ => Between (contract config)) ⟨[], [], log, db⟩ := by
  refine wp_transaction ?_ fun _ _ _ sane => ⟨rfl, rfl, sane⟩
  rw [wp_bind]
  refine wp_insertIdempotency stable_true trivial (fun record db sane _ stored => ?_)
    fun db sane _ unspent => ?_
  · simp only [Bool.not_false, ↓reduceIte]
    rw [wp_bind]
    obtain ⟨spentOn, resource⟩ := record
    refine wp_replayedResource stored (fun _ _ => trivial)
      fun db sane stored _ => ?_
    rw [wp_bind]
    refine wp_select spentKey_stable stored fun db sane stored => ?_
    rw [wp_bind]
    refine wp_commitsReplay stored fun db sane stored => ⟨⟨rfl, rfl, sane⟩, ?_⟩
    intro answer found
    obtain ⟨row, _, rfl⟩ := Option.map_eq_some_iff.mp found
    exact stored
  · simp only [Bool.not_true, Bool.false_eq_true, ↓reduceIte]
    rw [wp_bind]
    have scope : Steady config [(.idempotency merchantId .cancel key, .update)] fun db =>
        db.idempotency.row (merchantId, .cancel, key) = none :=
      (idempotency_guarded _ _ _).stable (.inr List.mem_cons_self) none
    refine wp_forUpdate scope unspent (fun _ db _ sane _ _ => ?_)
      fun intent db sane unspent found => ?_
    · simp only
      rw [wp_bind]
      exact wp_rollsBack stable_true trivial fun db sane _ => ⟨⟨rfl, rfl, sane⟩, by simp⟩
    · simp only
      obtain ⟨stored, ofMerchant⟩ := findIntent_eq_some.mp found
      have pinned : Steady config [(.intent intentId, .update),
          (.idempotency merchantId .cancel key, .update)] fun db =>
          db.intents.row intentId = some intent ∧
            db.idempotency.row (merchantId, .cancel, key) = none :=
        ((intents_guarded intentId).stable (.inr (by simp)) _).and
          (scope.mono (List.subset_cons_self _ _))
      rw [wp_bind]
      refine wp_select pinned ⟨stored, unspent⟩ fun db sane known => ?_
      split
      · trivial
      · rename_i open_
        simp only [Bool.or_eq_true, Bool.not_eq_true', decide_eq_false_iff_not, not_or,
          Bool.not_eq_true, Decidable.not_not] at open_
        exact wp_cancelLocked (by simp) (by simp) known.2 known.1 ofMerchant open_.1 open_.2

end
end CryptoGateway
