import CryptoGateway.Refinement.Settlement

/-!
The operators' commands keep the contract: rail stops, manual resolutions and
the honor that a second operator approves.
-/
namespace CryptoGateway
open Engine

section Rails
variable {config : Config}

theorem openRailStop_refines (assetId : Id) (reasonCode openedBy : Text) :
    Refines config (openRailStop assetId reasonCode openedBy) := by
  intro log db sane
  unfold openRailStop
  rw [wp_bind]
  refine wp_uuid stable_true trivial fun id db sane _ => ?_
  rw [wp_bind]
  refine wp_execute stable_true trivial fun m db' grant _ sane' _ _ _ reply eq => ?_
  unfold insertRailStop at eq
  split at eq
  · subst eq
    rw [wp_bind]
    refine wp_commitsNothing fun db sane => ?_
    simp only [Reply.value, Bool.false_eq_true, ↓reduceIte]
    exact Refines.bind .select (fun _ => .orFail) _ _ sane
  · rename_i taken
    subst eq
    simp only [applyAll_nil, Bool.or_eq_true, not_or, Bool.not_eq_true, Option.isSome_eq_false_iff,
      Option.isNone_iff_eq_none] at taken
    rw [wp_bind]
    refine wp_commits ((railStops_guarded id).stable (.inr ?_) none) taken.1
      (fun db _ absent => .stopRail absent rfl) fun db sane => ?_
    · simp [required, Reply.wrote, Store.needs, Write.needs]
    · exact ⟨rfl, rfl, sane⟩

theorem clearRailStop_refines (assetId : Id) : Refines config (clearRailStop assetId) := by
  intro log db sane
  unfold clearRailStop
  rw [wp_bind]
  refine wp_execute stable_true trivial fun m db' grant _ sane' _ _ _ reply eq => ?_
  subst eq
  rw [wp_bind]
  exact wp_commits stable_true trivial (fun db _ _ => .clearRail) fun db sane => ⟨rfl, rfl, sane⟩

end Rails

section Honor
variable {config : Config} {held : List (Lock Row)} {log : Log Db Watch} {db : Db} {K : Db → Prop}

structure HonorPlan.Fits (plan : HonorPlan) (source : ManualHonorRow) (asked : Nat) : Prop where
  row : plan.row = source
  allocate : plan.allocate = asked
  allocateRaw : plan.outcome.allocateRaw = asked
  remainderRaw : plan.outcome.remainderRaw = plan.remainder
  decision : plan.outcome.decision = plan.outcomeName
  final : source.finality = .finalized
  parked : source.processingState ∈ [ProcessingState.held, .unmatched]
  inWindow : source.withinLateWindow = true
  takes : 0 < asked → Takes (source.expectedRaw - source.attemptAllocatedRaw)
    (source.transferRaw - source.transferAllocatedRaw) plan.outcome

theorem honorPlan_fits {row : ManualHonorRow} {asked : Nat} {plan : HonorPlan}
    (planned : honorPlan row asked = .ok plan) : plan.Fits row asked := by
  unfold honorPlan at planned
  split at planned
  · cases planned
  rename_i open_
  split at planned
  · cases planned
  rename_i bound
  split at planned
  · cases planned
  split at planned
  · cases planned
  simp only at planned
  split at planned
  · cases planned
  rename_i least
  simp only [not_or, not_not] at open_
  have inWindow : row.withinLateWindow = true := by
    simp only [honorIsBound, Bool.not_eq_true', Bool.not_eq_false, Bool.and_eq_true] at bound
    exact bound.2
  have amount : asked = min (row.expectedRaw - row.attemptAllocatedRaw)
      (row.transferRaw - row.transferAllocatedRaw) := not_not.mp least
  -- the outcome by how the transfer compares with what is outstanding
  split at planned
  · rename_i both
    cases planned
    refine ⟨rfl, rfl, rfl, rfl, rfl, open_.1, open_.2, inWindow, fun positive => ?_⟩
    have full : asked = row.expectedRaw - row.attemptAllocatedRaw := both.1
    have more : row.transferRaw - row.transferAllocatedRaw - asked ≠ 0 := both.2
    rw [full]
    exact .overpaid (by omega) (by omega)
  · rename_i exact_
    split at planned
    · rename_i full
      cases planned
      have rest : row.transferRaw - row.transferAllocatedRaw - asked = 0 :=
        not_not.mp fun more => exact_ ⟨full, more⟩
      have all : asked = row.transferRaw - row.transferAllocatedRaw := by omega
      refine ⟨rfl, rfl, rfl, rest.symm, rfl, open_.1, open_.2, inWindow, fun positive => ?_⟩
      simp only
      rw [all]
      exact .settle (by omega) (by omega)
    · rename_i less
      cases planned
      have all : asked = row.transferRaw - row.transferAllocatedRaw := by omega
      refine ⟨rfl, rfl, rfl, ?_, rfl, open_.1, open_.2, inWindow, fun positive => ?_⟩
      · simp only [SettlementOutcome.remainderRaw]
        omega
      · simp only
        rw [all]
        exact .partialPay (by omega)

theorem honorRow_eq_some {t a i : Id} {seen rows : Db} {row : ManualHonorRow}
    (found : honorRow t a i seen rows = some row) :
    ∃ attempt processing transfer state, rows.attempts.row a = some attempt ∧
      rows.processing.row t = some processing ∧ seen.transfers.row t = some transfer ∧
      seen.transferStates.row t = some state ∧ row.finality = state.state ∧
      row.processingState = processing.processingState ∧
      row.withinLateWindow = decide (transfer.blockTime < attempt.latePaymentUntil) ∧
      row.expectedRaw = attempt.expectedAmountRaw ∧ row.attemptAllocatedRaw = seen.allocatedTo a ∧
      row.transferRaw = transfer.amountRaw ∧ row.transferAllocatedRaw =
      processing.allocatedRaw := by
  simp only [honorRow, bind, Option.bind_eq_some_iff, Option.ite_none_right_eq_some] at found
  obtain ⟨attempt, hattempt, _, _, processing, hprocessing, _, _, _, _, transfer, htransfer, state,
    hstate, _, same⟩ := found
  cases same
  exact ⟨attempt, processing, transfer, state, hattempt, hprocessing, htransfer, hstate, rfl, rfl,
    rfl, rfl, rfl, rfl, rfl⟩

structure HonorPlan.Stands (plan : HonorPlan) (resolution : ManualResolution)
    (intentId attemptId : Id) (m : Moment Db) (terms : AttemptTerms) (transfer : TransferRow)
    (processing : ProcessingRow) : Prop where
  intent : resolution.paymentIntentId = some intentId
  attempt : resolution.attemptId = some attemptId
  allocate : resolution.allocateRaw = some plan.allocate
  allocateRaw : plan.outcome.allocateRaw = plan.allocate
  remainderRaw : plan.outcome.remainderRaw = plan.remainder
  decision : plan.outcome.decision = plan.outcomeName
  parked : processing.processingState ∈ [ProcessingState.held, .unmatched]
  inWindow : transfer.blockTime < terms.latePaymentUntil
  takes : 0 < plan.allocate → Takes (terms.expectedAmountRaw - m.db.allocatedTo attemptId)
    (transfer.amountRaw - processing.allocatedRaw) plan.outcome

variable {ws : List Write} {resolution : ManualResolution}

theorem wp_planHonor {post : HonorPlan → Assertion} (stable : Steady config held K) (now : K db)
    (cont : ∀ plan intentId attemptId terms transfer processing m held' db, held ⊆ held' →
      (.processing resolution.transferId, .update) ∈ held' → Sane config db → K db →
      HonorPlan.Stands plan resolution intentId attemptId m terms transfer processing →
      Ready (honorCommand resolution attemptId intentId plan) terms transfer processing db →
      post plan ⟨held', [], (.allocated attemptId, m) :: log, db⟩) :
    wp (contract config) (planHonor resolution) post (fun _ _ => True) ⟨held, [], log, db⟩ := by
  unfold planHonor
  rw [wp_bind]
  refine wp_orFail (fun _ => trivial) fun intentId hasIntent => ?_
  rw [wp_bind]
  refine wp_orFail (fun _ => trivial) fun attemptId hasAttempt => ?_
  rw [wp_bind]
  refine wp_orFail (fun _ => trivial) fun asked hasAmount => ?_
  rw [wp_bind]
  refine wp_watched stable now fun m db' grant _ sane _ known waited reply eq => ?_
  unfold honorRowForUpdate at eq
  split at eq
  · rename_i row _ found
    subst eq
    rw [wp_bind]
    refine wp_orFail (fun absent => by cases absent) fun source same => ?_
    cases same
    split
    · trivial
    · rename_i plan planned
      have fits := honorPlan_fits planned
      obtain ⟨attempt, processing, transfer, state, hattempt, hprocessing, htransfer, hstate, final,
        parked, inWindow, expected, allocated, arrived, booked⟩ := honorRow_eq_some found
      rw [applyAll_nil] at hattempt hprocessing htransfer hstate allocated
      have wasFinal : m.db.Final resolution.transferId :=
        ⟨state.stateVersion, by rw [hstate, fits.final.symm.trans final]⟩
      refine cont plan intentId attemptId attempt.toAttemptTerms transfer processing m _ db'
        (List.subset_append_right _ held) (by simp [Reply.locked, required]) sane known ?_ ?_
      · refine ⟨hasIntent, hasAttempt, by rw [hasAmount, fits.allocate],
          by rw [fits.allocateRaw, fits.allocate], fits.remainderRaw, fits.decision,
          by rw [← parked]; exact fits.parked, ?_, fun positive => ?_⟩
        · simpa [fits.inWindow] using inWindow.symm
        · rw [fits.allocate] at positive
          rw [← expected, ← allocated, ← arrived, ← booked]
          exact fits.takes positive
      · exact ⟨by simp [Db.attemptTerms, honorCommand, hattempt],
          ((transfers_inserts.persists _).stable held _).later waited htransfer,
          (final_stable _).later waited wasFinal, hprocessing⟩
  · subst eq
    trivial

theorem allocation_stored {a t : Id} {row : AllocationRow}
    (mem : .insertAllocation a t row ∈ ws) (db : Db) :
    (applyAll ws db).allocations.row (a, t) ≠ none := by
  have stays := (allocated_persists (a, t)).applyAll_mem (v := ()) mem (fun db => by
    simp [Write.allocations, Table.row_insert]) db
  intro none
  simp [none] at stays

theorem decision_stored {command : SettlementCommand} {result : DecisionResult}
    (mem : decisionWrite command result db ∈ ws) :
    (applyAll ws db).decisions.row (command.paymentIntentId, command.transferId) ≠ none := by
  have stays : ((applyAll ws db).decisions.row
      (command.paymentIntentId, command.transferId)).map (fun _ => ()) = some () := by
    cases before : db.decisions.row (command.paymentIntentId, command.transferId) with
    | none =>
      rw [decisionWrite, before] at mem
      exact (decided_persists _).applyAll_mem mem (fun db => by
        simp [Write.decisions, Table.row_insert]) db
    | some row => exact (decided_persists _).applyAll (by rw [before]; rfl) ws
  intro none
  simp [none] at stays

theorem sane_stable : Steady config held (Sane config) :=
  .of_effect fun sane eff _ => (contract config).keeps sane eff

theorem wp_manualAllocateAndFinish (authority : Authority) {command : SettlementCommand}
    {terms : AttemptTerms} {transfer : TransferRow} {processing : ProcessingRow} {at_ : Int}
    {actor reason : Text} {allocateRaw remainderRaw : Nat}
    {outcome : DecisionOutcome} {fault : RepositoryError → Assertion}
    {post : SettlementRecord → Assertion} (amount : command.outcome.allocateRaw = allocateRaw)
    (rest : command.outcome.remainderRaw = remainderRaw)
    (named : command.outcome.decision = outcome) (stable : Steady config held K) (now : K db)
    (ready : ∀ db, K db → Ready command terms transfer processing db)
    (zero : processing.allocatedRaw = 0)
    (other : ∀ w ∈ ws, w.table = .resolutions) (faults : ∀ e c, K c.db → fault e c)
    (cont : ∀ record (p : Payment) tail held' K' db, held ⊆ held' →
      Steady config held' K' → Sane config db → K' db →
      ¬(record = .foreignClaim ∨ record = .alreadyProcessed) →
      p.command = command → p.authority = authority → p.transfer = transfer →
      p.processing = processing → p.decidedAt = at_ → p.attempt.toAttemptTerms = terms →
      (∀ db, Sane config db → K' db → K db ∧ p.Booked db ∧ p.bookWrites ++ p.statusWrites db ++
        [decisionWrite p.command p.result db] ++ p.remainderWrites ++
        [.setAllocationActor command.attemptId command.transferId actor,
          .setDecisionActor command.paymentIntentId command.transferId actor reason] = tail) →
      post record ⟨held', ws ++ tail, log, db⟩) :
    wp (contract config) (manualAllocateAndFinish command allocateRaw remainderRaw outcome actor
      reason at_) post fault ⟨held, ws, log, db⟩ := by
  subst amount rest named
  unfold manualAllocateAndFinish
  rw [wp_bind]
  refine wp_allocateAndFinish authority stable now ready zero other faults ?_
  rintro record p tail held₁ K₁ db more₁ stable₁ sane known₁ moved rfl rfl rfl rfl rfl rfl booked
  rw [if_neg moved]
  have pinned : Steady config held₁ fun db => Sane config db ∧ K₁ db :=
    sane_stable.and stable₁
  rw [wp_bind]
  refine wp_updateOne pinned ⟨sane, known₁⟩ (fun seen db before sane known missing => ?_)
    fun _ db sane known₂ _ => ?_
  · -- the allocation is this session's own
    have stored : ∀ db, Sane config db ∧ K₁ db → (applyAll (ws ++ tail) db).allocations.row
        (p.command.attemptId, p.command.transferId) ≠ none := by
      intro db known
      obtain ⟨_, _, rfl⟩ := booked db known.1 known.2
      exact allocation_stored (show Write.insertAllocation p.command.attemptId
        p.command.transferId p.allocation ∈ _ by simp [Payment.bookWrites]) db
    exact absurd missing (not_or.mpr ⟨stored seen before, stored db known⟩)
  have wider : held₁ ⊆ (.allocation p.command.attemptId p.command.transferId, .noKeyUpdate) ::
      (([.setAllocationActor p.command.attemptId p.command.transferId actor] :
        List Write).flatMap Write.needs ++ held₁) := fun _ mem => by simp [mem]
  rw [wp_bind]
  refine wp_updateOne (pinned.mono wider) known₂ (fun seen db before sane known missing => ?_)
    fun _ db sane known₃ _ => ?_
  · -- and so is the decision, or it was there before
    have stored : ∀ db, Sane config db ∧ K₁ db → (applyAll (ws ++ tail ++
        [.setAllocationActor p.command.attemptId p.command.transferId actor]) db).decisions.row
        (p.command.paymentIntentId, p.command.transferId) ≠ none := by
      intro db known
      obtain ⟨_, _, rfl⟩ := booked db known.1 known.2
      exact decision_stored (show decisionWrite p.command p.result db ∈ _ by simp)
    exact absurd missing (not_or.mpr ⟨stored seen before, stored db known⟩)
  rw [List.append_assoc, List.append_assoc]
  refine cont record p _ _ (fun db => Sane config db ∧ K₁ db) db
    (fun _ mem => by simp [more₁ mem]) (pinned.mono fun _ mem => by simp [mem]) sane known₃ moved
    rfl rfl rfl rfl rfl rfl fun db _ known => ?_
  obtain ⟨known, books, rfl⟩ := booked db known.1 known.2
  exact ⟨known, books, by simp⟩

theorem wp_loadResolution {operator : Id} {key : Text} {hash : Digest} {replayed : Bool}
    {post : ManualResolutionResult → Assertion}
    (stable : Steady config held K) (now : K db) (cont : ∀ row result db, Sane config db → K db →
      (applyAll ws db).resolutions.row (operator, key) = some row → result.id = row.id →
      post result ⟨held, ws, log, db⟩) :
    wp (contract config) (loadResolution operator key hash replayed) post (fun _ _ => True)
      ⟨held, ws, log, db⟩ := by
  unfold loadResolution
  rw [wp_bind]
  refine wp_select stable now fun db sane known => ?_
  rw [wp_bind]
  refine wp_orFail (fun _ => trivial) fun row stored => ?_
  split
  · trivial
  · exact cont row _ db sane known stored rfl

theorem newId_stable {id : Id} (locked : (.resolutionId id, .update) ∈ held) :
    Steady config held fun db => db.NewId id := by
  refine .of_write fun w db apart now k row found same => ?_
  cases w with
  | insertResolution operator key put =>
    rcases Table.row_insert_cases found with old | ⟨_, _, rfl⟩
    · exact now k row old same
    · exact absurd (apart (.resolutionId row.id, .update) (by simp [Store.needs, Write.needs]) _
        (same ▸ locked)) (by simp [clash, Mode.conflicts])
  | _ => exact now k row found same

theorem wp_insertResolution {credential : OperatorCredential} {key : Text} {hash : Digest}
    {merchantId : Option Id} {allocated remainder : Option Nat}
    {at_ : Int} {post : Option ManualResolutionResult → Assertion}
    (stable : Steady config held K) (now : K db)
    (unspent : ∀ db, K db → db.resolutions.row (credential.keyId, key) = none)
    (cont : ∀ id held' db, held ⊆ held' →
      Steady config held' (fun db => K db ∧ db.NewId id) → Sane config db → K db ∧ db.NewId id →
      post none ⟨held', [.insertResolution credential.keyId key
        (resolutionRow id credential hash resolution merchantId allocated remainder at_)], log,
        db⟩) :
    wp (contract config) (insertResolution credential key hash resolution merchantId allocated
      remainder at_) post (fun _ _ => True) ⟨held, [], log, db⟩ := by
  unfold insertResolution
  rw [wp_bind]
  refine wp_uuid stable now fun id db _ known => ?_
  rw [wp_bind]
  refine wp_execute stable known fun m db' grant _ sane _ known _ reply eq => ?_
  rw [applyAll_nil, applyAll_nil] at eq
  simp only [insertResolutionRow, unspent db' known] at eq
  split at eq
  · subst eq
    trivial
  · rename_i used
    have new : db'.NewId id := by
      intro k row found same
      simp only [List.any_eq_true, decide_eq_true_eq, not_exists, not_and] at used
      exact used (k, row) (Table.mem_entries.mpr found) same
    subst eq
    refine cont id _ db' (List.subset_append_right _ held)
      ((stable.mono (List.subset_append_right _ held)).and (newId_stable ?_)) sane ⟨known, new⟩
    simp [required, Reply.wrote, Store.needs, Write.needs, resolutionRow]

theorem resolution_stored {operator : Id} {key : Text} {row : ResolutionRow} {tail : List Write}
    (unspent : db.resolutions.row (operator, key) = none) :
    (applyAll ([.insertResolution operator key row] ++ tail) db).resolutions.row (operator, key) =
      some row :=
  (resolutions_inserts.persists (operator, key)).applyAll
    (by simp [Write.resolutions, Table.row_insert_fresh unspent]) tail

structure ResolutionRow.Records (row : ResolutionRow) (hash : Digest)
    (resolution : ManualResolution) : Prop where
  requestHash : row.requestHash = hash
  transferId : row.transferId = resolution.transferId
  paymentIntentId : row.paymentIntentId = resolution.paymentIntentId
  attemptId : row.attemptId = resolution.attemptId

theorem wp_honorTransfer (authorize : ResolutionRow → Authority) {credential : OperatorCredential}
    {key : Text} {hash : Digest} {at_ : Int} {post : ManualResolutionResult → Assertion}
    (honors : resolution.action = .honor) (stable : Steady config held K) (now : K db)
    (unspent : ∀ db, K db → db.resolutions.row (credential.keyId, key) = none)
    (cont : ∀ result (p : Payment) row writes held' K' log' db, held ⊆ held' →
      Steady config held' K' → Sane config db → K' db → p.authority = authorize row →
      p.command.matchStrategy = .manual → p.Names row → p.decidedAt = at_ →
      p.processing.processingState ∈ [ProcessingState.held, .unmatched] →
      resolution.allocateRaw = some p.allocateRaw → row.Records hash resolution →
      result.id = row.id →
      (∀ db, Sane config db → K' db → K db ∧ db.NewResolution credential.keyId key row ∧
        p.Founded log' db ∧ [.insertResolution credential.keyId key row] ++ p.bookWrites ++
        p.statusWrites db ++
          [decisionWrite p.command p.result db] ++ p.remainderWrites ++
          p.actorWrites credential row.reason = writes) → post result ⟨held', writes, log', db⟩) :
    wp (contract config) (honorTransfer credential key hash resolution at_) post (fun _ _ => True)
      ⟨held, [], log, db⟩ := by
  unfold honorTransfer
  rw [wp_bind]
  refine wp_orFail (fun _ => trivial) fun intentId hasIntent => ?_
  rw [wp_bind]
  refine wp_orFail (fun _ => trivial) fun attemptId hasAttempt => ?_
  rw [wp_bind]
  refine wp_planHonor stable now
    fun plan intentId' attemptId' terms transfer processing m held₁ db more₁ locked sane known₁
      stands ready => ?_
  cases hasIntent.symm.trans stands.intent
  cases hasAttempt.symm.trans stands.attempt
  have stable₁ : Steady config held₁ fun db => K db ∧
      Ready (honorCommand resolution attemptId intentId plan) terms transfer processing db :=
    (stable.mono more₁).and (ready_stable locked)
  rw [wp_bind]
  refine wp_insertResolution stable₁ ⟨known₁, ready⟩ (fun db known => unspent db known.1)
    fun id held₂ db more₂ stable₂ sane known₂ => ?_
  have zero : processing.allocatedRaw = 0 := by
    refine pending_zero sane known₂.1.2.processing ?_
    rcases List.mem_cons.mp stands.parked with parked | parked
    · simp [parked]
    · simp [List.mem_singleton.mp parked]
  simp only
  rw [wp_bind, wp_mapError]
  refine wp_manualAllocateAndFinish (authorize (resolutionRow id credential hash resolution
      (some plan.row.merchantId) (some plan.allocate)
      (if plan.remainder = 0 then none else some plan.remainder) at_))
    stands.allocateRaw stands.remainderRaw stands.decision stable₂ known₂
    (fun db known => known.1.2) zero (by simp [Write.table]) (fun _ _ _ => trivial) ?_
  rintro record p tail held₃ K₃ db more₃ stable₃ sane known₃ moved ofCommand authority rfl rfl rfl
    ofTerms booked
  rw [if_neg moved]
  have pinned : Steady config held₃ fun db => Sane config db ∧ K₃ db :=
    sane_stable.and stable₃
  refine wp_loadResolution pinned ⟨sane, known₃⟩ fun row result db sane known₄ stored ofRow => ?_
  have unspent' := unspent db (booked db known₄.1 known₄.2).1.1.1
  cases (resolution_stored unspent').symm.trans stored
  have amount : p.allocateRaw = plan.allocate := by
    rw [Payment.allocateRaw, ofCommand]
    exact stands.allocateRaw
  refine cont result p _ _ held₃ _ _ db
    (List.Subset.trans more₁ (List.Subset.trans more₂ more₃)) pinned sane known₄ authority
    (by rw [ofCommand]; rfl) ?names rfl stands.parked (by rw [amount]; exact stands.allocate)
    ⟨rfl, rfl, rfl, rfl⟩ ofRow
    fun db _ known => ?writes
  case names =>
    exact ⟨honors, by rw [ofCommand]; rfl, by rw [ofCommand]; exact hasIntent,
      by rw [ofCommand]; exact hasAttempt, by rw [amount]; rfl⟩
  case writes =>
    obtain ⟨known', books, rfl⟩ := booked db known.1 known.2
    have positive : 0 < plan.allocate := by rw [← amount]; exact books.positive
    have takes := stands.takes positive
    rw [zero, Nat.sub_zero] at takes
    refine ⟨known'.1.1, ⟨unspent db known'.1.1, known'.2⟩,
      ⟨books, by rw [ofTerms]; exact stands.inWindow, m, ?_, ?_⟩, ?_⟩
    · rw [ofCommand]
      simp [honorCommand]
    · rw [ofTerms, ofCommand]
      exact takes
    · simp [Payment.actorWrites, ofCommand, resolutionRow]

end Honor

section Manual
variable {config : Config} {held : List (Lock Row)} {log : Log Db Watch} {db : Db}
  {credential : OperatorCredential} {key : Text} {hash : Digest} {resolution : ManualResolution}
  {at_ : Int}

theorem unspent_stable (scope : (.resolutionScope credential.keyId key, .update) ∈ held) :
    Steady config held fun db => db.resolutions.row (credential.keyId, key) = none :=
  (resolutions_guarded _ _).stable (.inr scope) none

theorem wp_honorDirectly (honors : resolution.action = .honor)
    (small : ∀ raw, resolution.allocateRaw = some raw →
      config.honorPolicy.requiresSecondOperator raw = false)
    (scope : (.resolutionScope credential.keyId key, .update) ∈ held)
    (unspent : db.resolutions.row (credential.keyId, key) = none) :
    wp (contract config) (honorTransfer credential key hash resolution at_)
      (fun _ => Committable config) (fun _ _ => True) ⟨held, [], log, db⟩ := by
  refine wp_honorTransfer (fun row => .direct credential key row) honors (unspent_stable scope)
    unspent (fun _ known => known) ?_
  intro result p row writes held' K' log' db more stable sane known direct manual names decidedAt
    parked amount _ _ founded
  refine ⟨K', stable, known, fun db sane known => ?_⟩
  obtain ⟨_, new, sound, rfl⟩ := founded db sane known
  have sound : p.Sound config log' db :=
    { toFounded := sound
      authorized := by
        rw [Payment.Authorized, direct]
        exact ⟨parked, new, names, small _ amount⟩
      strategy := by simp [manual, direct]
      screened := by simp [direct] }
  have eff : Effect config log' db (p.writes db) := .pay p sound
  simpa [Payment.writes, Payment.resolutionWrites, Payment.operatorWrites, direct] using eff

theorem wp_rejectTransfer (rejects : resolution.action = .reject)
    (scope : (.resolutionScope credential.keyId key, .update) ∈ held)
    (unspent : db.resolutions.row (credential.keyId, key) = none) :
    wp (contract config) (rejectTransfer credential key hash resolution at_)
      (fun _ => Committable config) (fun _ _ => True) ⟨held, [], log, db⟩ := by
  unfold rejectTransfer
  rw [wp_bind]
  refine wp_execute (unspent_stable scope) unspent
    fun m db' grant _ sane _ unspent _ reply eq => ?_
  unfold rejectableForUpdate at eq
  split at eq
  · rename_i state _ row _ _ stored
    subst eq
    simp only [Reply.locked]
    rw [wp_bind]
    refine wp_orFail (fun absent => by cases absent) fun source same => ?_
    cases same
    split
    · trivial
    rename_i parked
    simp only [not_or, not_not] at parked
    have pinned : Steady config ((.processing resolution.transferId, .update) :: held)
        fun db => db.resolutions.row (credential.keyId, key) = none ∧
          db.processing.row resolution.transferId = some row :=
      (unspent_stable (List.mem_cons_of_mem _ scope)).and
        ((processing_guarded _).stable (.inr List.mem_cons_self) _)
    rw [wp_bind]
    refine wp_select pinned ⟨unspent, stored⟩ fun db sane known => ?_
    split
    · trivial
    rw [wp_bind]
    refine wp_insertResolution pinned known (fun db known => known.1)
      fun id held₂ db more₂ stable₂ sane known₂ => ?_
    simp only
    rw [wp_bind]
    refine wp_updateOne stable₂ known₂ (fun seen db before _ known missing => ?_)
      fun found db sane known₃ isRow => ?_
    · simp [Write.processing, before.1.2, known.1.2] at missing
    simp only [applyAll_cons, applyAll_nil, apply_processing, Write.processing, known₃.1.2,
      Option.some.injEq] at isRow
    subst isRow
    have wider := stable₂.mono (fun _ mem => List.mem_cons_of_mem
      (.processing resolution.transferId, .noKeyUpdate) (List.mem_append_right
        (([.setProcessing resolution.transferId { row with
          processingState := .resolved, lastError := some resolution.reason }] :
            List Write).flatMap Write.needs) mem))
    refine wp_loadResolution wider known₃ fun _ result db sane known₄ _ _ => ?_
    exact ⟨_, wider, known₄, fun db _ known =>
      .reject known.1.2 parked.2 ⟨known.1.1, known.2⟩ rejects⟩
  · subst eq
    trivial

theorem wp_recordExternalDisposition (records : resolution.action = .recordRemainderDisposition)
    (scope : (.resolutionScope credential.keyId key, .update) ∈ held)
    (unspent : db.resolutions.row (credential.keyId, key) = none) :
    wp (contract config) (recordExternalDisposition credential key hash resolution at_)
      (fun _ => Committable config) (fun _ _ => True) ⟨held, [], log, db⟩ := by
  unfold recordExternalDisposition
  rw [wp_bind]
  refine wp_orFail (fun _ => trivial) fun intentId hasIntent => ?_
  rw [wp_bind]
  refine wp_orFail (fun _ => trivial) fun remainder hasRemainder => ?_
  rw [wp_bind]
  refine wp_orFail (fun _ => trivial) fun disposition hasDisposition => ?_
  rw [wp_bind]
  refine wp_forUpdate (unspent_stable scope) unspent (fun _ _ _ _ _ _ => trivial)
    fun decision db sane unspent _ => ?_
  rw [wp_bind]
  refine wp_orFail (fun _ => trivial) fun decision _ => ?_
  split
  · trivial
  split
  · trivial
  rw [wp_bind]
  refine wp_insertResolution (unspent_stable (List.mem_cons_of_mem _ scope)) unspent
    (fun _ known => known) fun id held₁ db more₁ stable₁ sane unspent => ?_
  have keyed : ∀ {held'}, held₁ ⊆ held' → Steady config held' fun db =>
      db.resolutions.row (credential.keyId, key) = none ∧ db.NewId id :=
    fun more => stable₁.mono more
  simp only
  rw [wp_bind]
  refine wp_select stable₁ unspent fun db sane unspent => ?_
  rw [wp_bind]
  refine wp_orFail (fun _ => trivial) fun stored _ => ?_
  rw [wp_bind]
  refine wp_execute stable₁ unspent fun m db' grant _ sane _ unspent _ reply eq => ?_
  unfold insertDisposition at eq
  split at eq
  · subst eq
    simp only [Reply.wrote, Bool.not_true, Bool.false_eq_true, ↓reduceIte]
    rw [wp_bind]
    refine wp_updateOne (keyed (List.subset_append_right _ held₁)) unspent
      (fun _ _ _ _ _ _ => trivial) fun row db sane unspent found => ?_
    obtain ⟨isRow, matched⟩ := Option.filter_eq_some_iff.mp found
    have isRow : db.processing.row resolution.transferId = some row := by
      simpa [Write.processing] using isRow
    simp only [ne_eq, not_true_eq_false, ↓reduceIte]
    have pinned : ∀ {held'}, held₁ ⊆ held' →
        (.processing resolution.transferId, .noKeyUpdate) ∈ held' →
        Steady config held' fun db =>
          (db.resolutions.row (credential.keyId, key) = none ∧ db.NewId id) ∧
            db.processing.row resolution.transferId = some row :=
      fun more locked => (keyed more).and ((processing_guarded _).stable (.inl locked) _)
    refine wp_loadResolution (pinned (fun _ mem => ?_) List.mem_cons_self) ⟨unspent, isRow⟩
      fun _ result db sane known _ _ => ?_
    · exact List.mem_cons_of_mem _ (by simp [mem])
    · refine ⟨_, pinned (fun _ mem => ?_) List.mem_cons_self, known, fun db _ known =>
        .dispose known.2 (by simpa using matched) ⟨known.1.1, known.1.2⟩ records⟩
      exact List.mem_cons_of_mem _ (by simp [mem])
  · subst eq
    trivial

theorem wp_decideManual
    (small : resolution.action = .honor → ∀ raw, resolution.allocateRaw = some raw →
      config.honorPolicy.requiresSecondOperator raw = false)
    (scope : (.resolutionScope credential.keyId key, .update) ∈ held)
    (unspent : db.resolutions.row (credential.keyId, key) = none) :
    wp (contract config) (decideManual credential key hash resolution at_)
      (fun _ => Committable config) (fun _ _ => True) ⟨held, [], log, db⟩ := by
  unfold decideManual
  split
  · rename_i honors
    exact wp_honorDirectly honors (small honors) scope unspent
  · rename_i rejects
    exact wp_rejectTransfer rejects scope unspent
  · rename_i records
    exact wp_recordExternalDisposition records scope unspent

theorem resolveManualInStore_refines
    (small : resolution.action = .honor → ∀ raw, resolution.allocateRaw = some raw →
      config.honorPolicy.requiresSecondOperator raw = false) :
    Refines config (resolveManualInStore credential key hash resolution at_) := by
  refine .transaction fun log db sane => ?_
  rw [wp_bind]
  refine wp_locked stable_true trivial fun db sane _ => ?_
  rw [wp_bind]
  refine wp_select stable_true trivial fun db sane _ => ?_
  split
  · rw [wp_bind]
    refine wp_loadResolution stable_true trivial fun _ result db sane _ _ _ => ?_
    rw [wp_bind]
    exact wp_commitsNothing fun db sane => ⟨rfl, rfl, sane⟩
  · rename_i unspent
    rw [wp_bind]
    refine wp_mono (wp_decideManual small (by simp) (by simpa using unspent))
      (fun _ c ready => ?_) fun _ _ _ => trivial
    rw [wp_bind]
    exact ready.commit fun db sane => ⟨rfl, rfl, sane⟩

end Manual
end CryptoGateway
