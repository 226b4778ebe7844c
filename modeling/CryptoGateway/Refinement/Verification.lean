import CryptoGateway.Refinement.Rules

/-!
Observed transfers keep the contract: the canonical row with its lifecycle, and
the walk of its current state towards finality.
-/
namespace CryptoGateway
open Engine

section
variable {config : Config} {held : List (Lock Row)} {ws : List Write} {log : Log Db Watch} {db : Db}
  {K : Db → Prop} {post : Unit → Assertion} {id : Id} {target : TransferState}

theorem observation_stable {observation : Id}
    (locked : (.observation observation, .keyShare) ∈ held) :
    Steady config held fun db => (db.observation observation).isSome := by
  refine .of_write fun w db apart now => ?_
  obtain ⟨row, live⟩ := Option.isSome_iff_exists.mp now
  obtain ⟨stored, kept⟩ := Option.filter_eq_some_iff.mp live
  suffices still : (Store.apply w db).observations.row observation = some row by
    simp only [Db.observation, still, Option.isSome_filter, Option.any_some]
    exact kept
  cases w with
  | insertObservation k new => exact Table.row_insert_stored stored k _
  | purgeObservation k =>
    rcases Table.row_modify_or db.observations k observation ({ · with purged := true })
      with same | rfl
    · exact same.trans stored
    · exact absurd (apart (.observation k, .update) (by simp [Store.needs, Write.needs]) _ locked)
        (by simp [clash, Mode.conflicts])
  | _ => exact stored

def lifecycleTables : List TableName := [.transfers, .stateEvents, .transferStates, .processing]

structure Attesting (latest : Log Db Watch) (db : Db) (named : List Id)
    (attested : List (Id × AttestationRow)) : Prop where
  live : ∀ e ∈ attested, (db.observation e.1).isSome
  covered : ∀ o ∈ named, Covered latest db attested o

theorem lifecycle_other {base : List Write} {done : List (Id × AttestationRow)}
    (only : ∀ w ∈ base, w.table ∈ lifecycleTables) {w : Write}
    (mem : w ∈ base ++ attestationWrites done) : w.table ≠ .observations ∧ w.table ≠ .catalog := by
  rcases List.mem_append.mp mem with mem | mem
  · have table := only w mem
    constructor <;> intro eq <;> simp [eq, lifecycleTables] at table
  · rw [attestationWrites_table mem]
    decide

theorem attested_origin {base : List Write} {done : List (Id × AttestationRow)} {o : Id}
    (only : ∀ w ∈ base, w.table ∈ lifecycleTables)
    (shown : ((applyAll (base ++ attestationWrites done) db).attestations.row o).isSome) :
    o ∈ done.map (·.1) ∨ (db.attestations.row o).isSome := by
  obtain ⟨row, found⟩ := Option.isSome_iff_exists.mp shown
  have each : ∀ w ∈ base ++ attestationWrites done, ∀ db : Db,
      (Store.apply w db).attestations.row o = some row →
      db.attestations.row o = some row ∨ ∃ e ∈ done, e.1 = o := by
    intro w mem db put
    rcases List.mem_append.mp mem with mem | mem
    · have table := only w mem
      cases w with
      | insertAttestation => simp [Write.table, lifecycleTables] at table
      | _ => exact .inl put
    · obtain ⟨e, listed, rfl⟩ := List.mem_map.mp mem
      rcases Table.row_insert_cases put with old | ⟨_, same, _⟩
      · exact .inl old
      · exact .inr ⟨e, listed, same.symm⟩
  rcases applyAll_origin (fun db : Db => db.attestations.row o) each found with
    stored | ⟨_, _, e, listed, same⟩
  · exact .inr (by rw [stored]; rfl)
  · exact .inl (List.mem_map.mpr ⟨e, listed, same⟩)

theorem Covered.mono {latest latest' : Log Db Watch} {done attested : List (Id × AttestationRow)}
    {o : Id} (covered : Covered latest db done o) (more : latest ⊆ latest')
    (wider : done ⊆ attested) : Covered latest' db attested o := by
  rcases covered with mem | stored | ⟨m, mem, gone⟩
  · exact .inl (List.map_subset _ wider mem)
  · exact .inr (.inl stored)
  · exact .inr (.inr ⟨m, more mem, gone⟩)

theorem wp_insertAttestations {attestations : List (Id × AttestationRole)} (base : List Write)
    (latest : Log Db Watch) (done : List (Id × AttestationRow)) (past : List Id)
    (only : ∀ w ∈ base, w.table ∈ lifecycleTables)
    (stable : Steady config held K) (sane : Sane config db) (now : K db)
    (known : ∀ db, K db → Attesting latest db past done)
    (ours : ∀ e ∈ done, e.1 ∈ past ∧ e.2.transferId = id)
    (cont : ∀ attested held' latest' K' db, held ⊆ held' → Steady config held' K' →
      Sane config db → K' db →
      (∀ db, K' db → K db ∧ Attesting latest' db (past ++ attestations.map (·.1)) attested) →
      (∀ e ∈ attested, e.1 ∈ past ++ attestations.map (·.1) ∧ e.2.transferId = id) →
      post () ⟨held', base ++ attestationWrites attested, latest' ++ log, db⟩) :
    wp (contract config) (insertAttestations id attestations) post (fun _ _ => True)
      ⟨held, base ++ attestationWrites done, latest ++ log, db⟩ := by
  induction attestations generalizing held latest db K done past with
  | nil =>
    refine cont done held latest K db (List.Subset.refl _) stable sane now ?_ ?_
    · exact fun db holds => ⟨holds, by simpa using known db holds⟩
    · simpa using ours
  | cons attestation rest ih =>
    obtain ⟨observation, role⟩ := attestation
    have again : past ++ (observation :: rest.map (·.1)) = (past ++ [observation]) ++
      rest.map (·.1) := by
      simp
    unfold insertAttestations
    rw [wp_bind]
    refine wp_watched stable now fun m db' grant _ sane _ now _ reply eq => ?_
    have seen : (applyAll (base ++ attestationWrites done) m.db).sourceOf observation =
        m.db.sourceOf observation := by
      simp only [Db.sourceOf, Db.observation,
        observations_same fun w mem => (lifecycle_other only mem).1,
        catalog_same fun w mem => (lifecycle_other only mem).2]
    have logged : latest ⊆ (Watch.attesting observation, m) :: latest := List.subset_cons_self _ _
    -- a reading that is passed over was attested or gone
    have skip (K₁ : Db → Prop) (stable₁ : Steady config held K₁) (now₁ : K₁ db')
        (weaker : ∀ db, K₁ db → K db)
        (covers : ∀ db, K₁ db →
          Covered ((Watch.attesting observation, m) :: latest) db done observation) :
        wp (contract config) (insertAttestations id rest) post (fun _ _ => True)
          ⟨held, base ++ attestationWrites done,
            (Watch.attesting observation, m) :: latest ++ log, db'⟩ := by
      refine ih _ done (past ++ [observation]) stable₁ sane now₁ (fun db holds => ?_)
        (fun e mem => ⟨List.mem_append_left _ (ours e mem).1, (ours e mem).2⟩)
        fun attested held' latest' K' db more stable' sane now' all named => ?_
      · have before := known db (weaker db holds)
        refine ⟨before.live, fun o mem => ?_⟩
        rcases List.mem_append.mp mem with mem | mem
        · exact (before.covered o mem).mono logged (List.Subset.refl _)
        · cases List.mem_singleton.mp mem
          exact covers db holds
      · rw [List.map_cons, again] at cont
        exact cont attested held' latest' K' db more stable' sane now'
          (fun db holds => ⟨weaker db (all db holds).1, (all db holds).2⟩) named
    unfold insertAttestation at eq
    split at eq
    · rename_i source visible free
      split at eq
      · subst eq; trivial
      · rename_i missing
        subst eq
        have live : (db'.observation observation).isSome := by
          rw [Db.observation, observations_same fun w mem => (lifecycle_other only mem).1,
            ← Db.observation] at missing
          simpa [Option.isSome_iff_ne_none] using missing
        set row : AttestationRow := ⟨id, source.providerGroup, decide (source.kind = .ownNode)⟩
        set held₁ := required Db (Reply.wrote [.insertAttestation observation row]
          (none : Option RepositoryError)) ++ held with isHeld₁
        have wider : held ⊆ held₁ := List.subset_append_right _ held
        have locked : (.observation observation, .keyShare) ∈ held₁ := by
          simp [isHeld₁, Reply.wrote, required, Store.needs]
        have writes : base ++ attestationWrites done ++ [.insertAttestation observation row] =
            base ++ attestationWrites (done ++ [(observation, row)]) := by simp [attestationWrites]
        simp only [Reply.wrote]
        rw [writes]
        refine ih ((Watch.attesting observation, m) :: latest) (done ++ [(observation, row)])
          (past ++ [observation])
          ((stable.mono wider).and (observation_stable locked)) sane ⟨now, live⟩
          (fun db holds => ?_) (fun e mem => ?_)
          fun attested held' latest' K' db more stable' sane now' all named => ?_
        · have before := known db holds.1
          refine ⟨fun e mem => ?_, fun o mem => ?_⟩
          · rcases List.mem_append.mp mem with mem | mem
            · exact before.live e mem
            · cases List.mem_singleton.mp mem
              exact holds.2
          · rcases List.mem_append.mp mem with mem | mem
            · exact (before.covered o mem).mono logged (List.subset_append_left _ _)
            · cases List.mem_singleton.mp mem
              exact .inl (by simp)
        · rcases List.mem_append.mp mem with mem | mem
          · exact ⟨List.mem_append_left _ (ours e mem).1, (ours e mem).2⟩
          · cases List.mem_singleton.mp mem
            exact ⟨by simp, rfl⟩
        · rw [List.map_cons, again] at cont
          exact cont attested held' latest' K' db (List.Subset.trans wider more) stable' sane now'
            (fun db holds => ⟨(all db holds).1.1, (all db holds).2⟩) named
    · rename_i passed
      subst eq
      simp only [Reply.value, required, List.flatMap_nil, List.append_nil, List.nil_append]
      cases source : m.db.sourceOf observation with
      | none =>
        exact skip K stable now (fun _ holds => holds) fun _ _ =>
          .inr (.inr ⟨m, List.mem_cons_self, source⟩)
      | some found =>
        have shown : ((applyAll (base ++ attestationWrites done) db').attestations.row
            observation).isSome := by
          rw [Option.isSome_iff_ne_none]
          exact fun none => passed found (seen.trans source) none
        rcases attested_origin only shown with mine | stored
        · exact skip K stable now (fun _ holds => holds) fun _ _ => .inl mine
        · refine skip (fun db => K db ∧ (db.attestations.row observation).isSome)
            (stable.and ?_) ⟨now, stored⟩ (fun _ holds => holds.1) fun _ holds =>
            .inr (.inl holds.2)
          intro db db' move isSome
          obtain ⟨row, found⟩ := Option.isSome_iff_exists.mp isSome
          rw [(attestations_inserts.persists observation).stable held row move found]
          rfl

theorem wp_insertStateEvent {previous : Option TransferState} {next : TransferState} {version : Nat}
    (stable : Steady config held K) (now : K db)
    (cont : ∀ held' db, held ⊆ held' → Sane config db → K db →
      post () ⟨held', ws ++ [.insertStateEvent id version ⟨previous, next⟩], log, db⟩) :
    wp (contract config) (insertStateEvent id previous next version) post (fun _ _ => True)
      ⟨held, ws, log, db⟩ := by
  refine @wp_insert config held ws log db K _ (.insertStateEvent id version ⟨previous, next⟩)
    (fun _ => True) _ _ (fun _ newest _ accepted => ?_) stable now (fun _ _ _ => trivial)
    fun db sane known _ => cont _ db (List.subset_append_right _ held) sane known
  split at accepted
  · cases accepted
  · rename_i free
    exact ⟨if_neg free, trivial⟩

theorem wp_advanceLocked {rounds : Nat} (current : StateRow)
    (stable : Steady config held K) (sane : Sane config db) (now : K db)
    (view : ∀ db, K db → (applyAll ws db).transferStates.row id = some current)
    (cont : ∀ steps held' db, held ⊆ held' → Sane config db → K db → Advances target current steps →
      post () ⟨held', ws ++ steps.flatMap (·.writes id), log, db⟩) :
    wp (contract config) (advanceState id target rounds) post (fun _ _ => True)
      ⟨held, ws, log, db⟩ := by
  induction rounds generalizing current held ws db with
  | zero => simpa [advanceState] using cont [] held db (List.Subset.refl _) sane now .stay
  | succ rounds ih =>
    have stay : ∀ db, Sane config db → K db → post () ⟨held, ws, log, db⟩ := by
      intro db sane known
      simpa using cont [] held db (List.Subset.refl _) sane known .stay
    unfold advanceState
    rw [wp_bind]
    refine wp_select stable now fun db sane known => ?_
    rw [wp_bind]
    refine wp_orFail (fun _ => trivial) fun found isRow => ?_
    cases (view db known).symm.trans isRow
    split
    · exact stay db sane known
    · rename_i next step
      rw [wp_bind]
      refine wp_updateOne stable known (fun _ db _ sane known _ => ?_)
        fun row db sane known found => ?_
      · exact stay db sane known
      · obtain ⟨stored, same⟩ := Option.filter_eq_some_iff.mp found
        cases (view db known).symm.trans stored
        simp only [ne_eq, not_true_eq_false, ↓reduceIte]
        have wider : held ⊆ (.transferState id, .noKeyUpdate) ::
            (([.setTransferState id ⟨next, current.stateVersion + 1⟩] : List Write).flatMap
              Write.needs ++ held) := fun _ mem => by simp [mem]
        rw [wp_bind]
        refine wp_insertStateEvent (stable.mono wider) known fun held₁ db more₁ sane known => ?_
        refine ih ⟨next, current.stateVersion + 1⟩
          (stable.mono (List.Subset.trans wider more₁)) sane known
          (fun db known => ?_)
          fun steps held' db more sane known walk => ?_
        · rw [applyAll_append, applyAll_append]
          simp [Write.transferStates, view db known]
        · have finish := cont (⟨current.state, ⟨next, current.stateVersion + 1⟩⟩ :: steps) held' db
            (List.Subset.trans (List.Subset.trans wider more₁) more) sane known (.move step walk)
          simpa [StateStep.writes] using finish

theorem wp_advanceState {rounds : Nat} (stable : Steady config held K) (now : K db)
    (other : ∀ w ∈ ws, w.table ≠ .transferStates)
    (cont : ∀ steps held' K' db, held ⊆ held' → Steady config held' K' →
      Sane config db → K' db → (∀ db, K' db → K db ∧
        ∃ current, db.transferStates.row id = some current ∧ Advances target current steps) →
      post () ⟨held', ws ++ steps.flatMap (·.writes id), log, db⟩) :
    wp (contract config) (advanceState id target (rounds + 1)) post (fun _ _ => True)
      ⟨held, ws, log, db⟩ := by
  unfold advanceState
  rw [wp_bind]
  refine wp_select stable now fun db sane known => ?_
  rw [wp_bind]
  refine wp_orFail (fun _ => trivial) fun current found => ?_
  rw [transferStates_same other] at found
  have present : Steady config held fun db =>
      K db ∧ (db.transferStates.row id).map (fun _ => ()) = some () :=
    stable.and ((hasState_persists id).stable held _)
  have known : K db ∧ (db.transferStates.row id).map (fun _ => ()) = some () :=
    ⟨known, by rw [found]; rfl⟩
  have stay : ∀ db, Sane config db →
      K db ∧ (db.transferStates.row id).map (fun _ => ()) = some () →
      post () ⟨held, ws, log, db⟩ := by
    intro db sane known
    have finish := cont [] held _ db (List.Subset.refl _) present sane known fun db known => by
      obtain ⟨current, stored, _⟩ := Option.map_eq_some_iff.mp known.2
      exact ⟨known.1, current, stored, .stay⟩
    simpa using finish
  split
  · exact stay db sane known
  · rename_i next step
    rw [wp_bind]
    refine wp_updateOne present known (fun _ db _ sane known _ => ?_)
      fun row db sane known found => ?_
    · exact stay db sane known
    · obtain ⟨stored, same⟩ := Option.filter_eq_some_iff.mp found
      rw [transferStates_same other] at stored
      cases of_decide_eq_true same
      simp only [ne_eq, not_true_eq_false, ↓reduceIte]
      have wider : held ⊆ (.transferState id, .noKeyUpdate) ::
          (([.setTransferState id ⟨next, current.stateVersion + 1⟩] : List Write).flatMap
            Write.needs ++ held) := fun _ mem => by simp [mem]
      have pinned := (stable.mono wider).and
        ((transferStates_guarded id).stable (.inl List.mem_cons_self) (some current))
      rw [wp_bind]
      refine wp_insertStateEvent pinned ⟨known.1, stored⟩ fun held₁ db more₁ sane known => ?_
      refine wp_advanceLocked ⟨next, current.stateVersion + 1⟩ (pinned.mono more₁) sane known
        (fun db known => ?_)
        fun steps held' db more sane known walk => ?_
      · simp [transferStates_same other, Write.transferStates, known.2]
      · have finish := cont (⟨current.state, ⟨next, current.stateVersion + 1⟩⟩ :: steps) held' _ db
          (List.Subset.trans (List.Subset.trans wider more₁) more)
          ((pinned.mono more₁).mono more) sane known
          fun db known => ⟨known.1, current, known.2, .move step walk⟩
        simpa [StateStep.writes] using finish

variable {event : ChainEventKey}

theorem transferOf_eq_some {t : Id} (found : db.transferOf event = some t) :
    ∃ row, db.transfers.row t = some row ∧ row.event = event := by
  obtain ⟨⟨k, row⟩, first, rfl⟩ := Option.map_eq_some_iff.mp found
  exact ⟨row, Table.mem_entries.mp (List.mem_of_find?_eq_some first),
    by simpa using List.find?_some first⟩

theorem transferOf_eq_none :
    db.transferOf event = none ↔ ∀ t row, db.transfers.row t = some row → row.event ≠ event := by
  simp only [Db.transferOf, Option.map_eq_none_iff, List.find?_eq_none, decide_eq_true_eq]
  constructor
  · exact fun none t row found => none (t, row) (Table.mem_entries.mpr found)
  · exact fun none e mem => none e.1 e.2 (Table.mem_entries.mp mem)

structure Opened (id : Id) (row : TransferRow) (db : Db) : Prop where
  transfer : db.transfers.row id = none
  state : db.transferStates.row id = none
  processing : db.processing.row id = none
  collector : db.collectorAsset row.collectorAddressId = some row.assetId
  newOf : ∀ t other, db.transfers.row t = some other → other.event ≠ row.event

def openWrites (id : Id) (row : TransferRow) : List Write :=
  [.insertTransfer id row, .insertStateEvent id 1 ⟨none, .canonical⟩,
    .insertTransferState id canonicalState, .insertProcessing id pendingProcessing]

theorem newOf_stable (locked : (.chainEvent event, .update) ∈ held) : Steady config held fun db =>
      ∀ t row, db.transfers.row t = some row → row.event ≠ event := by
  refine .of_write fun w db apart now t row found => ?_
  rcases transfers_inserts.origin (show (applyAll [w] db).transfers.row t = some row from found)
    with old | put
  · exact now t row old
  · cases List.mem_singleton.mp put
    rintro rfl
    exact absurd (apart (.chainEvent row.event, .update) (by simp [Store.needs, Write.needs]) _
      locked) (by simp [clash, Mode.conflicts])

theorem wp_openTransferLifecycle {row : TransferRow}
    (locked : (.transfer id, .update) ∈ held) (ours : (.chainEvent row.event, .update) ∈ held)
    (absent : db.transfers.row id = none)
    (collector : db.collectorAsset row.collectorAddressId = some row.assetId)
    (newOf : ∀ t other, db.transfers.row t = some other → other.event ≠ row.event)
    (cont : ∀ held' db, Steady config held' (Opened id row) → Sane config db →
      Opened id row db → post () ⟨held', openWrites id row, log, db⟩) :
    wp (contract config) (openTransferLifecycle id) post (fun _ _ => True)
      ⟨held, [.insertTransfer id row], log, db⟩ := by
  have stable : Steady config held fun db => db.transfers.row id = none ∧
      db.collectorAsset row.collectorAddressId = some row.assetId ∧
      ∀ t other, db.transfers.row t = some other → other.event ≠ row.event :=
    ((transfers_guarded id).stable (.inr locked) _).and
      (((collectorAsset_persists _).stable held _).and (newOf_stable ours))
  unfold openTransferLifecycle
  rw [wp_bind]
  refine wp_insertStateEvent stable ⟨absent, collector, newOf⟩ fun held₀ db more₀ sane known => ?_
  have stable := stable.mono more₀
  rw [wp_bind]
  refine @wp_insert config held₀ _ log db _ _ (.insertTransferState id canonicalState)
    (fun db => db.transferStates.row id = none) _ _ (fun _ newest _ accepted => ?_) stable
    known (fun _ _ _ => trivial) fun db sane known noState => ?_
  · split at accepted
    · cases accepted
    · rename_i free
      exact ⟨if_neg free, by simpa using free⟩
  have noState : db.transferStates.row id = none := by
    simpa [Write.transferStates] using noState
  have stable₁ : Steady config
      (Write.needs (.insertTransferState id canonicalState) ++ held₀) fun db =>
      (db.transfers.row id = none ∧
        db.collectorAsset row.collectorAddressId = some row.assetId ∧
        ∀ t other, db.transfers.row t = some other → other.event ≠ row.event) ∧
        db.transferStates.row id = none :=
    (stable.mono (List.subset_append_right _ held₀)).and
      ((transferStates_guarded id).stable (.inr (by simp [Write.needs])) _)
  refine @wp_insert config _ _ log db _ _ (.insertProcessing id pendingProcessing)
    (fun db => db.processing.row id = none) _ _ (fun _ newest _ accepted => ?_) stable₁
    ⟨known, noState⟩ (fun _ _ _ => trivial) fun db sane known noProcessing => ?_
  · split at accepted
    · cases accepted
    · rename_i free
      exact ⟨if_neg free, by simpa using free⟩
  have noProcessing : db.processing.row id = none := by
    simpa [Write.processing] using noProcessing
  refine cont _ db ?_ sane ⟨known.1.1, known.2, noProcessing, known.1.2.1, known.1.2.2⟩
  intro db db' move opened
  exact ⟨(transfers_guarded id).stable (.inr (by simp [more₀ locked])) _ move opened.transfer,
    (transferStates_guarded id).stable (.inr (by simp [Write.needs])) _ move opened.state,
    (processing_guarded id).stable (.inr (by simp [Write.needs])) _ move opened.processing,
    (collectorAsset_persists _).stable _ _ move opened.collector,
    newOf_stable (by simp [more₀ ours]) move opened.newOf⟩

theorem wp_recordVerdict {verdict : VerdictKind} {reason : Text}
    {transferId : Option Id} {at_ : Int} (stable : Steady config held K) (now : K db)
    (cont : ∀ row held' db, held ⊆ held' → Sane config db → K db → row.verdict = verdict →
      (∀ t, transferId = some t → row.transferId = some t) →
      post () ⟨held', ws ++ [.putVerdict event row], log, db⟩) :
    wp (contract config) (recordVerdict event verdict reason transferId at_) post (fun _ _ => True)
      ⟨held, ws, log, db⟩ := by
  refine wp_execute stable now fun m db' grant _ sane _ known _ reply eq => ?_
  subst eq
  refine cont _ _ db' (List.subset_append_right _ held) sane known rfl ?_
  rintro t rfl
  rfl

theorem wp_commitVerified {verified : VerifiedTransfer} {at_ : Int}
    (about : verified.transfer.event = event) (judged : Judged log verified) :
    wp (contract config) (commitVerified event verified at_) (fun _ => Committable config)
      (fun _ _ => True) ⟨held, [], log, db⟩ := by
  subst about
  unfold commitVerified
  rw [wp_bind]
  refine wp_uuid stable_true trivial fun fresh db _ _ => ?_
  rw [wp_bind]
  refine wp_execute stable_true trivial fun m db' grant _ sane _ _ _ reply eq => ?_
  unfold insertTransfer at eq
  split at eq
  · subst eq; trivial
  split at eq
  · -- the event is known: its transfer moves on
    subst eq
    simp only [Reply.value, required, List.flatMap_nil, List.append_nil, List.nil_append]
    rw [wp_bind]
    refine wp_select stable_true trivial fun db sane _ => ?_
    rw [wp_bind]
    refine wp_orFail (fun _ => trivial) fun existing isTransfer => ?_
    obtain ⟨row, stored, ofEvent⟩ := transferOf_eq_some isTransfer
    have stable (held : List (Lock Row)) : Steady config held fun db =>
        db.transfers.row existing = some row := (transfers_inserts.persists existing).stable held _
    rw [wp_bind]
    refine wp_insertAttestations [] [] [] [] (by simp) (stable _) sane stored
      (fun _ _ => ⟨by simp, by simp⟩) (by simp)
      fun attested held₁ latest K₁ db _ stable₁ sane known₁ all named => ?_
    rw [wp_bind]
    refine wp_advanceState stable₁ known₁ (fun w mem => ?_)
      fun steps held₂ K₂ db _ stable₂ sane known advances => ?_
    · rw [List.nil_append] at mem
      rw [attestationWrites_table mem]
      decide
    · rw [wp_bind]
      refine wp_recordVerdict stable₂ known
        fun verdict held₃ db more₃ sane known verifies names => ?_
      refine ⟨K₂, stable₂.mono more₃, known, fun db _ known => ?_⟩
      obtain ⟨known, current, found, walk⟩ := advances db known
      obtain ⟨stored, attesting⟩ := all db known
      exact .advance (judged.mono (List.subset_append_right _ _)) found walk stored ofEvent
        (fun e mem => ⟨(named e mem).1, (named e mem).2, attesting.live e mem⟩)
        ⟨verifies, names _ rfl⟩
  rename_i unknown
  split at eq
  · subst eq; trivial
  · rename_i accepted
    subst eq
    simp only [Reply.wrote, Bool.or_eq_true, not_or, applyAll_nil, Bool.not_eq_true,
      Option.isSome_eq_false_iff, Option.isNone_iff_eq_none] at accepted ⊢
    rw [wp_bind]
    refine wp_openTransferLifecycle ?_ ?_ accepted.1
      (by simpa [Db.collectorAsset] using accepted.2) ?_ fun held₁ db stable₁ sane opened => ?_
    · simp [required, Store.needs, Write.needs]
    · simp [required, Store.needs, Write.needs]
    · exact transferOf_eq_none.mp (by simpa using unknown)
    rw [wp_bind]
    refine wp_insertAttestations (openWrites fresh verified.transfer.row) [] [] []
      (by simp [openWrites, Write.table, lifecycleTables]) stable₁ sane opened
      (fun _ _ => ⟨by simp, by simp⟩) (by simp)
      fun attested held₂ latest K₂ db more₂ stable₂ sane known₂ all named => ?_
    rw [wp_bind]
    refine wp_advanceLocked canonicalState stable₂ sane known₂ (fun db known => ?_)
      fun steps held₃ db more₃ sane known walk => ?_
    · rw [applyAll_append, transferStates_same fun w mem eq => ?_]
      · simp [openWrites, Write.transferStates, Table.row_insert_fresh (all db known).1.state]
      · rw [attestationWrites_table mem] at eq
        cases eq
    · rw [wp_bind]
      refine wp_recordVerdict (stable₂.mono more₃) known
        fun verdict held₄ db more₄ sane known verifies names => ?_
      refine ⟨_, (stable₂.mono more₃).mono more₄, known, fun db _ known => ?_⟩
      obtain ⟨opened, attesting⟩ := all db known
      exact .observe (judged.mono (List.subset_append_right _ _)) opened.transfer opened.state
        opened.processing
        (by simpa [Db.collectorAsset, CanonicalTransfer.row] using opened.collector) opened.newOf
        (fun e mem => ⟨(named e mem).1, (named e mem).2, attesting.live e mem⟩) walk
        ⟨verifies, names _ rfl⟩ ⟨latest, log, rfl, judged, attesting.covered⟩

theorem wp_judge {verdict : VerdictKind} {reason : Text} {at_ : Int}
    {outcome : VerdictOutcome} (other : verdict ≠ .verified) :
    wp (contract config)
      (do recordVerdict event verdict reason none at_; pure outcome) (fun _ => Committable config)
      (fun _ _ => True) ⟨held, [], log, db⟩ := by
  rw [wp_bind]
  refine wp_recordVerdict stable_true trivial fun row held' db _ sane _ verdict' _ => ?_
  exact ⟨_, stable_true, trivial, fun db _ _ => .judge (by rw [verdict']; exact other)⟩

def Verdict.Reached (known : Log Db Watch) (event : ChainEventKey) (verdict : Verdict) : Prop :=
  ∀ fact, verdict = .verified fact → fact.transfer.event = event ∧ Judged known fact

theorem commitVerdict_refines {known : Log Db Watch} {verdict : Verdict}
    (reached : verdict.Reached known event) (lease : ComponentLease) (at_ : Int) :
    RefinesFrom config known (commitVerdict lease event verdict at_) := by
  refine .transaction fun log db more sane => ?_
  rw [wp_bind]
  refine wp_holdLease stable_true trivial (fun _ _ _ => trivial) fun held db _ sane _ => ?_
  rw [wp_bind]
  have decided : wp (contract config) (applyVerdict event verdict at_)
      (fun _ => Committable config) (fun _ _ => True) ⟨held, [], log, db⟩ := by
    unfold applyVerdict
    split
    · obtain ⟨about, judged⟩ := reached _ rfl
      exact wp_commitVerified about (judged.mono more)
    · rw [wp_bind]
      exact wp_locked stable_true trivial fun db sane _ => wp_judge (by decide)
    · exact wp_judge (by decide)
    · exact wp_judge (by decide)
  refine wp_mono decided (fun _ c ready => ?_) fun _ _ _ => trivial
  rw [wp_bind]
  exact ready.commit fun db sane => ⟨rfl, rfl, sane⟩

theorem wp_insertObservations {source : ChainSource} {principal : Text}
    {observations : List ResolvedObservation} {report : IntakeReport}
    {rows : List (Id × ObservationTerms)} {post : IntakeReport → Assertion} (sane : Sane config db)
    (cont : ∀ report held' (rows : List (Id × ObservationTerms)) db, Sane config db →
      post report ⟨held', rows.map fun e => .insertObservation e.1 e.2, log, db⟩) :
    wp (contract config) (insertObservations source principal observations report) post
      (fun _ _ => True) ⟨held, rows.map fun e => .insertObservation e.1 e.2, log, db⟩ := by
  induction observations generalizing held rows db report with
  | nil => exact cont report held rows db sane
  | cons observation rest ih =>
    unfold insertObservations
    rw [wp_bind]
    refine wp_uuid stable_true trivial fun id db sane _ => ?_
    rw [wp_bind]
    refine wp_execute stable_true trivial fun m db' grant _ sane _ _ _ reply eq => ?_
    have only : ∃ more : List (Id × ObservationTerms),
        reply.writes = more.map fun e => .insertObservation e.1 e.2 := by
      subst eq
      unfold insertObservation
      repeat' split
      case isFalse.isFalse.isFalse => exact ⟨[(_, _)], rfl⟩
      all_goals exact ⟨[], rfl⟩
    obtain ⟨more, written⟩ := only
    rw [written, ← List.map_append]
    split
    · trivial
    · exact ih sane
    · exact ih sane

theorem resumes_stable {key : CursorKey} {position : CursorRow}
    (locked : (.cursor key, .noKeyUpdate) ∈ held) :
    Steady config held fun db => db.Resumes key position := by
  intro db db' move resumes
  have same := (cursors_guarded key).stable (.inl locked) _ move rfl
  exact ⟨resumes.numeric, fun stored found => resumes.admitted stored (same.symm.trans found)⟩

theorem CursorPosition.numeric (position : CursorPosition)
    (numeric : position.kind.isNumeric = true) :
    ∃ n, position.value.asNumeric = some n := by
  refine ⟨_, if_pos ?_⟩
  simpa [position.short.1] using position.digits numeric

theorem wp_advanceCursor {key : CursorKey} {position : CursorPosition} {ws : List Write}
    {post : Bool → Assertion} (other : ∀ w ∈ ws, w.table ≠ .cursors)
    (refused : ∀ held' db, Sane config db → post false ⟨held', ws, log, db⟩)
    (moved : ∀ held' db, (.cursor key, .noKeyUpdate) ∈ held' → Sane config db →
      db.Resumes key position.toCursorRow →
      post true ⟨held', ws ++ [.putCursor key position.toCursorRow], log, db⟩) :
    wp (contract config) (advanceCursor key position) post (fun _ _ => True)
    ⟨held, ws, log, db⟩ := by
  unfold advanceCursor
  rw [wp_bind]
  refine wp_execute stable_true trivial fun m db' grant _ sane _ _ _ reply eq => ?_
  unfold cursorUpsert at eq
  rw [cursors_same other] at eq
  split at eq
  · subst eq; trivial
  split at eq
  · rename_i unset
    split at eq
    · subst eq
      refine moved _ _ (by simp [Reply.wrote, required, Store.needs, Write.needs]) sane
        ⟨position.numeric, fun stored found => ?_⟩
      cases unset.symm.trans found
    · subst eq; trivial
  · rename_i stored found
    split at eq
    · subst eq; trivial
    · subst eq
      simp only [Reply.locked, List.append_nil]
      rw [wp_bind]
      refine wp_select stable_true trivial fun db sane _ => ?_
      split
      · trivial
      · exact refused _ _ sane
    · rename_i admits
      subst eq
      refine moved _ _ (by simp [Reply.wrote, required, Store.needs, Write.needs]) sane
        ⟨position.numeric, fun row again => ?_⟩
      cases found.symm.trans again
      exact admits

theorem recordObservations_refines (source : ChainSource) (principal : Text)
    (lease : ComponentLease) (observations : List ResolvedObservation)
    (cursor : Option (Id × ObservationKind × CursorPosition)) :
    Refines config (recordObservations source principal lease observations cursor) := by
  refine .transaction fun log db sane => ?_
  rw [wp_bind]
  refine wp_holdLease stable_true trivial (fun _ _ _ => trivial) fun held db _ sane _ => ?_
  rw [wp_bind]
  refine @wp_insertObservations config _ log db _ _ _ _ [] _ sane fun report held rows db sane => ?_
  rw [wp_bind]
  have moved : wp (contract config) (moveCursor source cursor) (fun _ => Committable config)
      (fun _ _ => True) ⟨held, rows.map fun e => .insertObservation e.1 e.2, log, db⟩ := by
    have unmoved : ∀ held db, Committable config
        ⟨held, rows.map fun e => .insertObservation e.1 e.2, log, db⟩ := by
      intro held db
      refine ⟨_, stable_true, trivial, fun db _ _ => ?_⟩
      have stored : Effect config log db (recordWrites rows none) := .record (by simp)
      simpa [recordWrites] using stored
    cases cursor with
    | none => exact unmoved held db
    | some lane =>
      refine wp_advanceCursor (fun w mem => ?_) (fun held db _ => unmoved held db)
        fun held db locked _ resumes => ⟨_, resumes_stable locked, resumes, fun db _ resumes => ?_⟩
      · obtain ⟨_, _, rfl⟩ := List.mem_map.mp mem
        simp [Write.table]
      · have stored : Effect config log db (recordWrites rows (some (_, lane.2.2.toCursorRow))) :=
          .record (by simpa using resumes)
        simpa [recordWrites] using stored
  refine wp_mono moved (fun _ c ready => ?_) fun _ _ _ => trivial
  rw [wp_bind]
  exact ready.commit fun db sane => ⟨rfl, rfl, sane⟩

theorem purges_stable {observation : Id} (locked : (.observation observation, .update) ∈ held) :
    Steady config held fun db => Purges db observation := by
  have unattested : Steady config held fun db => db.attestations.row observation = none := by
    refine .of_write fun w db apart now => ?_
    cases w with
    | insertAttestation k row =>
      rcases Table.row_insert_or db.attestations k observation row with same | rfl
      · exact same.trans now
      · exact absurd (apart (.observation k, .keyShare)
          (by simp [Store.needs, Write.needs]) _ locked) (by simp [clash, Mode.conflicts])
    | _ => exact now
  rintro db db' move ⟨free, row, t, transfer, stored, known, ofEvent, state, isState, closed⟩
  refine ⟨unattested move free, row, t, transfer,
    (observations_guarded _).stable (.inr locked) _ move stored,
    (transfers_inserts.persists t).stable held _ move known, ofEvent, state, ?_, closed⟩
  have keeps : Steady config held fun db => db.transferStates.row t = some state :=
    .of_effect fun _ eff isState => eff.closed_stays isState closed
  exact keeps move isState

theorem purges_later {db' : Db} {id : Id} {olderThan : Int} {disputed : Id → Bool}
    (waited : Later (contract config) held db db')
    (chosen : ∃ row, db.observations.row id = some row ∧
      db.purgeable olderThan disputed (id, row) = true)
    (free : ∀ row, db'.attestations.row id ≠ some row) (live : (db'.observation id).isSome) :
    Purges db' id := by
  obtain ⟨row, stored, purgeable⟩ := chosen
  simp only [Db.purgeable, Bool.and_eq_true, List.any_eq_true, decide_eq_true_eq,
    Option.any_eq_true] at purgeable
  obtain ⟨_, ⟨t, transfer⟩, listed, ofEvent, state, isState, closed⟩ := purgeable
  obtain ⟨after, found⟩ := Option.isSome_iff_exists.mp live
  have found := (Option.filter_eq_some_iff.mp found).1
  have terms : db'.observationTerms id = some row.toObservationTerms :=
    ((observationTerms_persists id).stable held _).later waited
      (by simp [Db.observationTerms, stored])
  have same : after.toObservationTerms = row.toObservationTerms := by
    simpa [Db.observationTerms, found] using terms
  have keeps : Steady config held fun db => db.transferStates.row t = some state :=
    .of_effect fun _ eff isState => eff.closed_stays isState closed
  exact ⟨Option.eq_none_iff_forall_ne_some.mpr free, after, t, transfer, found,
    ((transfers_inserts.persists t).stable held _).later waited (Table.mem_entries.mp listed),
    by rw [ofEvent, same], state, keeps.later waited isState, closed⟩

theorem purgeObservations_refines (olderThan : Int) (limit : Nat) (disputed : Id → Bool) :
    Refines config (purgeObservations olderThan limit disputed) := by
  refine .transaction fun log db sane => ?_
  rw [wp_bind]
  refine wp_execute stable_true trivial fun m db' grant _ sane _ _ waited reply eq => ?_
  unfold deleteObservations deleteRows at eq
  split at eq
  · subst eq; trivial
  · rename_i free
    subst eq
    simp only [Reply.wrote]
    rw [wp_bind]
    refine wp_commits (K := fun db => ∀ id ∈ (m.db.purgeBatch olderThan limit disputed).filter
        fun id => (db'.observation id).isSome, Purges db id)
      (fun db db' move purges id mem => purges_stable ?_ move (purges id mem)) (fun id mem => ?_)
      (fun db _ purges => .purge purges) fun db sane => ⟨rfl, rfl, sane⟩
    · simp only [required, List.append_nil, List.nil_append]
      exact List.mem_flatMap.mpr ⟨_, List.mem_map.mpr ⟨id, mem, rfl⟩, by simp [Store.needs]⟩
    · obtain ⟨chosen, live⟩ := List.mem_filter.mp mem
      obtain ⟨e, listed, rfl⟩ := List.mem_map.mp chosen
      have listed := List.mem_of_mem_take listed
      rw [List.mem_insertionSort, List.mem_filter] at listed
      refine purges_later waited ⟨e.2, Table.mem_entries.mp listed.1, listed.2⟩
        (fun row found => free (List.any_eq_true.mpr ⟨e.1, mem, ?_⟩)) live
      simp [found]

theorem leaseUpsert_grants (component holder : Text) (leaseUntil at_ : Int) (seen db : Db)
    (grant : Lock Row → Bool) :
    (leaseUpsert component holder leaseUntil at_ seen db grant).writes = [] ∨
      ∃ row, (leaseUpsert component holder leaseUntil at_ seen db grant).writes =
        [.putComponentLease component row] ∧ db.Grants component row := by
  unfold leaseUpsert
  split
  · rename_i unset
    exact .inr ⟨_, rfl, .first unset rfl⟩
  · rename_i held found
    split
    · refine .inr ⟨_, rfl, ?_⟩
      by_cases same : held.holder = holder
      · exact .renewal found same.symm (if_pos same)
      · exact .takeover found (Ne.symm same) (if_neg same)
    · exact .inl rfl

theorem grants_stable {component : Text} {row : ComponentLeaseRow}
    (locked : (.componentLease component, .noKeyUpdate) ∈ held) :
    Steady config held fun db => db.Grants component row := by
  intro db db' move grants
  have same : ∀ v, db.componentLeases.row component = v → db'.componentLeases.row component = v :=
    fun v => (componentLeases_guarded component).stable (.inl locked) v move
  cases grants with
  | first unset token => exact .first (same _ unset) token
  | renewal found holder token => exact .renewal (same _ found) holder token
  | takeover found holder token => exact .takeover (same _ found) holder token

theorem acquireComponentLease_refines (component holder : Text) (ttlSeconds at_ : Int) :
    Refines config (acquireComponentLease component holder ttlSeconds at_) := by
  unfold acquireComponentLease
  split
  · exact .fail _
  split
  · exact .fail _
  rename_i leaseUntil _
  intro log db sane
  rw [wp_bind]
  refine wp_execute stable_true trivial fun m db' grant _ sane _ _ _ reply eq => ?_
  rw [wp_bind]
  have done : ∀ db, Sane config db → Between (contract config) ⟨[], [], log, db⟩ :=
    fun db sane => ⟨rfl, rfl, sane⟩
  have writes := leaseUpsert_grants component holder leaseUntil at_ (applyAll [] m.db) db' grant
  rw [← applyAll_nil db', ← eq] at writes
  rcases writes with idle | ⟨row, written, grants⟩
  · rw [idle]
    exact wp_commits stable_true trivial (fun _ _ _ => .aside (by simp)) done
  · rw [written]
    refine wp_commits (grants_stable ?_) grants (fun db _ grants => .lease grants) done
    simp [required, written, Store.needs, Write.needs]

end
end CryptoGateway
