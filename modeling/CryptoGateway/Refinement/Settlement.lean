import CryptoGateway.Refinement.Rules

/-!
Moving money keeps the contract: the statements of one allocation, the decision
behind it and the ways a settlement ends without money.
-/
namespace CryptoGateway
open Engine

section Money
variable {config : Config} {held : List (Lock Row)} {ws : List Write} {log : Log Db Watch} {db : Db}
  {K : Db → Prop} {fault : RepositoryError → Assertion}
  {command : SettlementCommand}

theorem final_stable (t : Id) : Steady config held fun db => db.Final t :=
  .of_effect fun _ eff final => eff.final_stays final

structure Ready (command : SettlementCommand) (terms : AttemptTerms) (transfer : TransferRow)
    (processing : ProcessingRow) (db : Db) : Prop where
  attempt : db.attemptTerms command.attemptId = some terms
  transfer : db.transfers.row command.transferId = some transfer
  final : db.Final command.transferId
  processing : db.processing.row command.transferId = some processing

variable {terms : AttemptTerms} {at_ : Int} {transfer : TransferRow}
  {post : Unit → Assertion} {allocateRaw : Nat}

theorem ready_stable {processing : ProcessingRow}
    (locked : (.processing command.transferId, .update) ∈ held) :
    Steady config held (Ready command terms transfer processing) :=
  fun _ _ move ready =>
    ⟨(attemptTerms_persists _).stable held _ move ready.attempt,
      (transfers_inserts.persists _).stable held _ move ready.transfer,
      final_stable _ move ready.final,
      (processing_guarded _).stable (.inr locked) _ move ready.processing⟩

theorem attemptTerms_eq_some {a : Id} : db.attemptTerms a = some terms ↔
      ∃ attempt, db.attempts.row a = some attempt ∧ attempt.toAttemptTerms = terms := by
  simp [Db.attemptTerms, Option.map_eq_some_iff]

theorem claimOf_terms {attempt attempt' : AttemptRow}
    (same : attempt.toAttemptTerms = attempt'.toAttemptTerms) :
    claimOf command attempt = claimOf command attempt' := by
  have collector : attempt.collectorAddressId = attempt'.collectorAddressId :=
    congrArg AttemptTerms.collectorAddressId same
  simp [claimOf, collector]

theorem allocationOf_terms {attempt attempt' : AttemptRow}
    {reason : AllocationReason} (same : attempt.toAttemptTerms = attempt'.toAttemptTerms) :
    allocationOf command attempt allocateRaw reason =
      allocationOf command attempt' allocateRaw reason := by
  have collector : attempt.collectorAddressId = attempt'.collectorAddressId :=
    congrArg AttemptTerms.collectorAddressId same
  simp [allocationOf, collector]

theorem wp_claimTransfer {processing : ProcessingRow} {post : Bool → Assertion}
    (stable : Steady config held K) (now : K db)
    (ready : ∀ db, K db → Ready command terms transfer processing db)
    (zero : processing.allocatedRaw = 0)
    (other : ∀ w ∈ ws, w.table = .resolutions) (faults : ∀ e c, K c.db → fault e c)
    (cont : ∀ attempt held' db, held ⊆ held' → Sane config db → K db →
      attempt.toAttemptTerms = terms → transfer.collectorAddressId = terms.collectorAddressId →
      post true ⟨held', ws ++ [.insertClaim command.transferId (claimOf command attempt)], log,
        db⟩) : wp (contract config) (claimTransfer command at_) post fault ⟨held, ws, log, db⟩ := by
  have out : ∀ n, n ≠ TableName.resolutions → ∀ w ∈ ws, w.table ≠ n :=
    fun n ne w mem eq => ne (eq.symm.trans (other w mem))
  have unclaimed : ∀ db, Sane config db → K db → db.claims.row command.transferId = none :=
    fun db sane known => sane.ledger.unclaimed (ready db known).processing zero
  unfold claimTransfer
  rw [wp_bind]
  refine wp_execute stable now fun m db' grant _ sane before known _ reply eq => ?_
  obtain ⟨attempt, stored, ofTerms⟩ := attemptTerms_eq_some.mp (ready m.db before).attempt
  simp only [insertClaim, attempts_same (out _ (by decide)), claims_same (out _ (by decide)),
    transfers_same (out _ (by decide)), stored, unclaimed db' sane known,
    (ready db' known).transfer] at eq
  split at eq
  · rename_i atCollector
    subst eq
    simp only [Reply.wrote, Bool.not_true, Bool.false_eq_true, ↓reduceIte]
    have wider := stable.mono (List.subset_append_right (required Db (Reply.wrote
      [.insertClaim command.transferId (claimOf command attempt)] true)) held)
    rw [wp_bind]
    refine wp_select wider known fun db sane known => ?_
    have owner : ((applyAll (ws ++ [.insertClaim command.transferId (claimOf command attempt)])
        db).claims.row command.transferId).map (·.paymentIntentId) =
        some command.paymentIntentId := by
      simp [claims_same (out _ (by decide)), Write.claims, Table.row_insert,
        unclaimed db sane known, claimOf]
    rw [wp_bind]
    refine wp_orFail (fun absent => by rw [owner] at absent; cases absent) fun found same => ?_
    cases owner.symm.trans same
    simp only [↓reduceIte]
    exact cont attempt _ db (List.subset_append_right _ held) sane known ofTerms
      (by rw [← ofTerms]; simpa using atCollector)
  · subst eq
    exact faults _ _ known

theorem wp_updateRequired {β ρ : Type} {row : Row} {find : Db → Option ρ} {write : ρ → List Write}
    {what : Text} {next : Job RepositoryError β} {post : β → Assertion}
    (guarded : Guarded find row) (same : ∀ db, find (applyAll ws db) = find db)
    (stable : Steady config held K) (now : K db) (faults : ∀ e c, K c.db → fault e c)
    (cont : ∀ r held' db, held ⊆ held' →
      Steady config held' (fun db => K db ∧ find db = some r) → K db ∧ find db = some r →
      wp (contract config) next post fault ⟨held', ws ++ write r, log, db⟩) :
    wp (contract config)
      (do let n ← execute (updateOne row find write); requireOneRow n what; next) post fault
      ⟨held, ws, log, db⟩ := by
  rw [wp_bind]
  refine wp_updateOne stable now (fun _ db _ _ known _ => ?_) fun r db _ known found => ?_
  · exact faults _ _ known
  · rw [wp_bind]
    rw [same] at found
    refine cont r _ db (fun _ mem => by simp [mem]) ?_ ⟨known, found⟩
    exact (stable.mono fun _ mem => by simp [mem]).and (guarded.stable (.inl (by simp)) _)

theorem allocatableAttempt_guarded :
    Guarded (allocatableAttempt command) (.attempt command.attemptId) :=
  (attempts_guarded command.attemptId).map _

theorem payableIntent_guarded : Guarded (payableIntent command) (.intent command.paymentIntentId) :=
  (intents_guarded command.paymentIntentId).map _

theorem wp_insertFulfillment {post : Bool → Assertion}
    (other : ∀ w ∈ ws, w.table ≠ .fulfillments) (stable : Steady config held K)
    (now : K db)
    (cont : ∀ already held' db, held ⊆ held' →
      Steady config held' (fun db => K db ∧
        (db.fulfillments.row command.paymentIntentId).isSome = already) → Sane config db →
      K db ∧ (db.fulfillments.row command.paymentIntentId).isSome = already →
      post (!already) ⟨held', ws ++ (if already then [] else
        [.insertFulfillment command.paymentIntentId (fulfillmentOf command at_)]), log, db⟩) :
    wp (contract config) (execute (insertFulfillment command at_)) post fault
      ⟨held, ws, log, db⟩ := by
  refine wp_execute stable now fun m db' grant _ sane _ known _ reply eq => ?_
  rw [insertFulfillment, fulfillments_same other] at eq
  split at eq
  · rename_i fresh
    subst eq
    refine cont false _ db' (List.subset_append_right _ held)
      ((stable.mono (List.subset_append_right _ held)).and ?_) sane ⟨known, by simp [fresh]⟩
    intro db db' move none
    rw [Option.isSome_eq_false_iff, Option.isNone_iff_eq_none] at none ⊢
    refine (fulfillments_guarded _).stable (.inr ?_) _ move none
    simp [required, Reply.wrote, Store.needs, Write.needs]
  · rename_i row found
    subst eq
    have finish := cont true held db' (List.Subset.refl _) (stable.and ?_) sane
      ⟨known, by simp [found]⟩
    · simpa [Reply.value, required] using finish
    · intro db db' move some
      obtain ⟨v, stored⟩ := Option.isSome_iff_exists.mp some
      rw [(fulfillments_inserts.persists _).stable held _ move stored]
      rfl

structure Advanced (command : SettlementCommand) (at_ : Int) (attempt : AttemptRow)
    (intent : IntentRow) (eventId : Id) (status : List Write) (db : Db) : Prop where
  attempt : allocatableAttempt command db = some attempt
  intent : payableIntent command db = some intent
  newEvent : db.fulfillments.row command.paymentIntentId = none → db.events.row eventId = none
  writes : ∀ p : Payment, p.command = command → p.decidedAt = at_ → p.eventId = eventId →
    p.statusWrites db = status
  apart : ∀ w ∈ status, w.table ≠ .decisions

def bookTables : List TableName := [.resolutions, .claims, .processing, .allocations]

theorem wp_insertPaymentEvent (stable : Steady config held K) (now : K db)
    (cont : ∀ held' db, held ⊆ held' → Sane config db → K db → post () ⟨held', ws, log, db⟩) :
    wp (contract config) (insertPaymentEvent command) post fault ⟨held, ws, log, db⟩ :=
  wp_locked stable now fun db sane known =>
    cont _ db (List.subset_append_right _ held) sane known

theorem wp_advanceToPaid
    (completes : command.outcome.completes = true) (book : ∀ w ∈ ws, w.table ∈ bookTables)
    (stable : Steady config held K) (now : K db) (faults : ∀ e c, K c.db → fault e c)
    (cont : ∀ attempt intent eventId status held' K' db, held ⊆ held' →
      Steady config held' K' → Sane config db → K' db →
      (∀ db, K' db → K db ∧ Advanced command at_ attempt intent eventId status db) →
      post () ⟨held', ws ++ status, log, db⟩) :
    wp (contract config) (advanceToPaid command at_) post fault ⟨held, ws, log, db⟩ := by
  have out : ∀ n, n ∉ bookTables → ∀ w ∈ ws, w.table ≠ n := by
    rintro n absent w mem rfl
    exact absent (book w mem)
  unfold advanceToPaid
  refine wp_updateRequired allocatableAttempt_guarded
    (fun db => by rw [allocatableAttempt, attempts_same (out _ (by decide))]; rfl) stable now faults
    fun attempt held₁ db more₁ stable₁ known₁ => ?_
  refine wp_updateRequired payableIntent_guarded (fun db => ?_) stable₁ known₁
    (fun e c known => faults e c known.1) fun intent held₂ db more₂ stable₂ known₂ => ?_
  · simp [payableIntent, intents_same (out _ (by decide)), Write.intents]
  rw [wp_bind]
  refine wp_insertFulfillment ?_ stable₂ known₂ fun already held₃ db more₃ stable₃ sane known₃ => ?_
  · intro w mem
    simp only [List.mem_append, List.mem_singleton] at mem
    rcases mem with (mem | rfl) | rfl
    · exact out _ (by decide) w mem
    · simp [Write.table]
    · simp [Write.table]
  rw [wp_bind]
  refine wp_insertPaymentEvent stable₃ known₃ fun held₄ db more₄ sane known₄ => ?_
  have stable₄ := stable₃.mono more₄
  have more : held ⊆ held₄ :=
    List.Subset.trans more₁ (List.Subset.trans more₂ (List.Subset.trans more₃ more₄))
  cases already with
  | true =>
    simp only [Bool.not_true, Bool.false_eq_true, ↓reduceIte, List.append_assoc, List.append_nil]
    refine cont attempt intent 0 _ held₄ _ db more stable₄ sane known₄ fun db known => ?_
    obtain ⟨⟨⟨known, allocatable⟩, payable⟩, fulfilled⟩ := known
    refine ⟨known, allocatable, payable, fun none => by simp [none] at fulfilled, ?_,
      by simp [Write.table]⟩
    rintro p rfl _
    simp [Payment.statusWrites, Payment.completes, Payment.fulfillmentWrites, completes, fulfilled]
  | false =>
    simp only [Bool.not_false, ↓reduceIte, Bool.false_eq_true]
    refine wp_enqueueOutbox stable₄ known₄ (fun e c known => faults e c known.1.1.1)
      fun eventId db sane known₅ absent => ?_
    have free : db.events.row eventId = none := by
      simpa [events_same (out _ (by decide)), Write.events] using absent
    have stable₅ := (stable₄.mono (List.subset_cons_self (.event eventId, .update) held₄)).and
      ((events_guarded eventId).stable (.inr List.mem_cons_self) none)
    simp only [List.append_assoc]
    refine cont attempt intent eventId _ _ _ db (List.subset_cons_of_subset _ more) stable₅ sane
      ⟨known₅, free⟩ fun db known => ?_
    obtain ⟨⟨⟨⟨known, allocatable⟩, payable⟩, fresh⟩, free⟩ := known
    refine ⟨known, allocatable, payable, fun _ => free, ?_, by simp [Write.table]⟩
    rintro p rfl rfl
    simp [Payment.statusWrites, Payment.completes, Payment.fulfillmentWrites, Payment.event,
      completes, fresh]

theorem wp_advanceToPartiallyPaid (at_ : Int)
    (leaves : command.outcome.completes = false) (book : ∀ w ∈ ws, w.table ∈ bookTables)
    (stable : Steady config held K) (now : K db) (faults : ∀ e c, K c.db → fault e c)
    (cont : ∀ attempt intent eventId status held' K' db, held ⊆ held' →
      Steady config held' K' → Sane config db → K' db →
      (∀ db, K' db → K db ∧ Advanced command at_ attempt intent eventId status db) →
      post () ⟨held', ws ++ status, log, db⟩) :
    wp (contract config) (advanceToPartiallyPaid command) post fault ⟨held, ws, log, db⟩ := by
  have out : ∀ n, n ∉ bookTables → ∀ w ∈ ws, w.table ≠ n := by
    rintro n absent w mem rfl
    exact absent (book w mem)
  unfold advanceToPartiallyPaid
  refine wp_updateRequired allocatableAttempt_guarded
    (fun db => by rw [allocatableAttempt, attempts_same (out _ (by decide))]; rfl) stable now faults
    fun attempt held₁ db more₁ stable₁ known₁ => ?_
  refine wp_updateRequired payableIntent_guarded (fun db => ?_) stable₁ known₁
    (fun e c known => faults e c known.1) fun intent held₂ db more₂ stable₂ known₂ => ?_
  · simp [payableIntent, intents_same (out _ (by decide))]
  rw [wp_bind]
  refine wp_insertPaymentEvent stable₂ known₂ fun held₃ db more₃ sane known₃ => ?_
  have stable₃ := stable₂.mono more₃
  refine wp_enqueueOutbox stable₃ known₃ (fun e c known => faults e c known.1.1)
    fun eventId db sane known₄ absent => ?_
  have free : db.events.row eventId = none := by
    simpa [events_same (out _ (by decide)), Write.events] using absent
  have stable₄ := (stable₃.mono (List.subset_cons_self (.event eventId, .update) held₃)).and
    ((events_guarded eventId).stable (.inr List.mem_cons_self) none)
  simp only [List.append_assoc, List.append_nil]
  refine cont attempt intent eventId _ _ _ db (List.subset_cons_of_subset _
    (List.Subset.trans more₁ (List.Subset.trans more₂ more₃))) stable₄ sane ⟨known₄, free⟩
    fun db known => ?_
  obtain ⟨⟨⟨known, allocatable⟩, payable⟩, free⟩ := known
  refine ⟨known, allocatable, payable, fun _ => free, ?_, by simp [Write.table]⟩
  rintro p rfl rfl
  simp [Payment.statusWrites, Payment.completes, Payment.event, leaves]

theorem decision_completes (outcome : SettlementOutcome) :
    (outcome.decision = .settled ∨ outcome.decision = .overpaid) ↔ outcome.completes = true := by
  cases outcome <;> simp [SettlementOutcome.decision, SettlementOutcome.completes]

theorem decisionWrite_congr {result : DecisionResult} {db db' : Db}
    (same : db.decisions.row (command.paymentIntentId, command.transferId) =
      db'.decisions.row (command.paymentIntentId, command.transferId)) :
    decisionWrite command result db = decisionWrite command result db' := by
  unfold decisionWrite
  rw [same]

theorem decisionWrite_locks (command : SettlementCommand) (result : DecisionResult) (db : Db) :
    (.decision command.paymentIntentId command.transferId, .noKeyUpdate) ∈
        (decisionWrite command result db).needs ∨
      (.decision command.paymentIntentId command.transferId, .update) ∈
        (decisionWrite command result db).needs := by
  unfold decisionWrite
  split
  · exact .inr (by simp [Write.needs])
  · exact .inl (by simp [Write.needs])

theorem wp_recordDecision {ε : Type} {fault : ε → Assertion} {result : DecisionResult}
    (other : ∀ w ∈ ws, w.table ≠ .decisions) (stable : Steady config held K) (now : K db)
    (cont : ∀ decision held' K' db, held ⊆ held' → Steady config held' K' →
      Sane config db → K' db → (∀ db, K' db → K db ∧ decisionWrite command result db = decision) →
      post () ⟨held', ws ++ [decision], log, db⟩) :
    wp (contract config) (recordDecision command result) post fault ⟨held, ws, log, db⟩ := by
  refine wp_execute stable now fun m db' grant _ sane _ known _ reply eq => ?_
  have same : decisionWrite command result (applyAll ws db') = decisionWrite command result db' :=
    decisionWrite_congr (by rw [decisions_same other])
  rw [same] at eq
  subst eq
  have locked := decisionWrite_locks command result db'
  refine cont (decisionWrite command result db') _ (fun db => K db ∧
    db.decisions.row (command.paymentIntentId, command.transferId) =
      db'.decisions.row (command.paymentIntentId, command.transferId)) db'
    (List.subset_append_right _ held) ?_ sane ⟨known, rfl⟩
    fun db known => ⟨known.1, decisionWrite_congr known.2⟩
  refine (stable.mono (List.subset_append_right _ held)).and
    ((decisions_guarded _ _).stable (locked.imp ?_ ?_) _)
  · exact fun need => by simp [required, Reply.wrote, Store.needs, -Write.needs, need]
  · exact fun need => by simp [required, Reply.wrote, Store.needs, -Write.needs, need]

theorem wp_advanceBy {post : SettlementRecord → Assertion} (book : ∀ w ∈ ws, w.table ∈ bookTables)
    (stable : Steady config held K) (now : K db) (faults : ∀ e c, K c.db → fault e c)
    (cont : ∀ record attempt intent eventId status held' K' db, held ⊆ held' →
      Steady config held' K' → Sane config db → K' db →
      ¬(record = .foreignClaim ∨ record = .alreadyProcessed) →
      (∀ db, K' db → K db ∧ Advanced command at_ attempt intent eventId status db) →
      post record ⟨held', ws ++ status, log, db⟩) :
    wp (contract config) (advanceBy command command.outcome.decision at_) post fault
      ⟨held, ws, log, db⟩ := by
  unfold advanceBy
  split
  · rename_i paid
    rw [wp_bind]
    refine wp_advanceToPaid ((decision_completes _).mp paid) book stable now faults
      fun attempt intent eventId status held' K' db more stable' sane known advanced => ?_
    exact cont _ attempt intent eventId status held' K' db more stable' sane known
      (by split <;> simp) advanced
  · rename_i open_
    rw [decision_completes, Bool.not_eq_true] at open_
    rw [wp_bind]
    refine wp_advanceToPartiallyPaid at_ open_ book stable now faults
      fun attempt intent eventId status held' K' db more stable' sane known advanced => ?_
    exact cont _ attempt intent eventId status held' K' db more stable' sane known
      (by simp) advanced

structure Finished (command : SettlementCommand) (at_ : Int) (attempt : AttemptRow)
    (intent : IntentRow) (eventId remainderEventId : Id) (tail : List Write) (db : Db) : Prop where
  attempt : allocatableAttempt command db = some attempt
  intent : payableIntent command db = some intent
  newEvent : db.fulfillments.row command.paymentIntentId = none → db.events.row eventId = none
  writes : ∀ p : Payment, p.command = command → p.decidedAt = at_ → p.eventId = eventId →
    p.remainderEventId = remainderEventId →
    p.statusWrites db ++ [decisionWrite p.command p.result db] ++ p.remainderWrites = tail

theorem wp_finishAllocation {post : SettlementRecord → Assertion}
    (book : ∀ w ∈ ws, w.table ∈ bookTables) (stable : Steady config held K) (now : K db)
    (faults : ∀ e c, K c.db → fault e c)
    (cont : ∀ record attempt intent eventId remainderEventId tail held' K' db, held ⊆ held' →
      Steady config held' K' → Sane config db → K' db →
      ¬(record = .foreignClaim ∨ record = .alreadyProcessed) → (∀ db, K' db → K db ∧
        Finished command at_ attempt intent eventId remainderEventId tail db) →
      post record ⟨held', ws ++ tail, log, db⟩) :
    wp (contract config) (finishAllocation command command.outcome.allocateRaw
      command.outcome.remainderRaw command.outcome.decision at_) post fault
      ⟨held, ws, log, db⟩ := by
  unfold finishAllocation
  rw [wp_bind]
  refine wp_advanceBy book stable now faults
    fun record attempt intent eventId status held₁ K₁ db more₁ stable₁ sane known₁ moved advanced =>
      ?_
  have undecided : ∀ w ∈ ws ++ status, w.table ≠ .decisions := by
    intro w mem
    rcases List.mem_append.mp mem with mem | mem
    · exact fun decides => absurd (decides ▸ book w mem) (by decide)
    · exact (advanced db known₁).2.apart w mem
  rw [wp_bind]
  refine wp_recordDecision undecided stable₁ known₁
    fun decision held₂ K₂ db more₂ stable₂ sane known₂ decided => ?_
  split
  · rename_i remains
    rw [wp_bind]
    refine wp_insertPaymentEvent stable₂ known₂ fun held₃ db more₃ sane known₃ => ?_
    rw [wp_bind]
    refine wp_enqueueOutbox (stable₂.mono more₃) known₃
      (fun e c known => faults e c (advanced _ (decided _ known).1).1)
      fun remainderEventId db sane known₄ _ => ?_
    simp only [List.append_assoc]
    refine cont record attempt intent eventId remainderEventId _ _ K₂ db
      (List.subset_cons_of_subset _ (List.Subset.trans more₁ (List.Subset.trans more₂ more₃)))
      ((stable₂.mono more₃).mono (List.subset_cons_self _ _)) sane known₄ moved fun db known => ?_
    obtain ⟨known, written⟩ := decided db known
    obtain ⟨known, advanced⟩ := advanced db known
    refine ⟨known, advanced.attempt, advanced.intent, advanced.newEvent, ?_⟩
    rintro p rfl rfl rfl rfl
    rw [advanced.writes p rfl rfl rfl, ← written]
    simp [Payment.remainderWrites, Payment.remainderRaw, Payment.event, Payment.result, remains,
      Payment.allocateRaw]
  · rename_i exact_
    simp only [List.append_assoc]
    refine cont record attempt intent eventId 0 _ _ K₂ db (List.Subset.trans more₁ more₂) stable₂
      sane known₂ moved fun db known => ?_
    obtain ⟨known, written⟩ := decided db known
    obtain ⟨known, advanced⟩ := advanced db known
    refine ⟨known, advanced.attempt, advanced.intent, advanced.newEvent, ?_⟩
    rintro p rfl rfl rfl _
    rw [advanced.writes p rfl rfl rfl, ← written]
    simp [Payment.remainderWrites, Payment.remainderRaw, Payment.result, not_not.mp exact_,
      Payment.allocateRaw]

theorem fittingProcessing_eq_some {processing row : ProcessingRow}
    (ready : Ready command terms transfer processing db)
    (fitting : fittingProcessing command allocateRaw db = some row) :
    row = processing ∧ processing.allocatedRaw + allocateRaw ≤ transfer.amountRaw := by
  rw [fittingProcessing, ready.processing, ready.transfer] at fitting
  simp only [Option.ite_none_right_eq_some] at fitting
  obtain ⟨fits, same⟩ := fitting
  cases same
  exact ⟨rfl, fits⟩

theorem wp_insertAllocation {processing : ProcessingRow} {reason : AllocationReason}
    {post : Inserted → Assertion} (stable : Steady config held K) (now : K db)
    (ready : ∀ db, K db → Ready command terms transfer processing db)
    (zero : processing.allocatedRaw = 0)
    (other : ∀ w ∈ ws, w.table ∈ [TableName.resolutions, .claims, .processing])
    (refused : ∀ insertion held' db, insertion = .invalid ∨ insertion = .notAtCollector → K db →
      post insertion ⟨held', ws, log, db⟩)
    (cont : ∀ attempt held' db, held ⊆ held' → Sane config db → K db →
      attempt.toAttemptTerms = terms → 0 < allocateRaw →
      post .inserted ⟨held', ws ++ [.insertAllocation command.attemptId command.transferId
        (allocationOf command attempt allocateRaw reason)], log, db⟩) :
    wp (contract config) (execute (insertAllocation command allocateRaw reason)) post fault
      ⟨held, ws, log, db⟩ := by
  have out : ∀ n, n ∉ [TableName.resolutions, .claims, .processing] → ∀ w ∈ ws, w.table ≠ n := by
    rintro n absent w mem rfl
    exact absent (other w mem)
  refine wp_execute stable now fun m db' grant _ sane before known _ reply eq => ?_
  obtain ⟨attempt, stored, ofTerms⟩ := attemptTerms_eq_some.mp (ready m.db before).attempt
  have unallocated : db'.allocations.row (command.attemptId, command.transferId) = none :=
    sane.ledger.unallocated (ready db' known).processing zero
  simp only [insertAllocation, attempts_same (out _ (by decide)),
    allocations_same (out _ (by decide)), transfers_same (out _ (by decide)), stored,
    unallocated] at eq
  split at eq
  · subst eq
    simpa [Reply.value] using refused .invalid _ db' (.inl rfl) known
  rename_i positive
  split at eq
  · subst eq
    exact cont attempt _ db' (List.subset_append_right _ held) sane known ofTerms
      (Nat.pos_of_ne_zero positive)
  · subst eq
    simpa [Reply.value] using refused .notAtCollector _ db' (.inr rfl) known

def bookedRow (row : ProcessingRow) (outcome : SettlementOutcome) : ProcessingRow :=
  { row with
    allocatedRaw := row.allocatedRaw + outcome.allocateRaw
    processingState := if outcome.decision = .settled then .settled else .matched }

theorem wp_allocateAndFinish (authority : Authority) {processing : ProcessingRow}
    {post : SettlementRecord → Assertion} (stable : Steady config held K) (now : K db)
    (ready : ∀ db, K db → Ready command terms transfer processing db)
    (zero : processing.allocatedRaw = 0)
    (other : ∀ w ∈ ws, w.table = .resolutions) (faults : ∀ e c, K c.db → fault e c)
    (cont : ∀ record (p : Payment) tail held' K' db, held ⊆ held' →
      Steady config held' K' → Sane config db → K' db →
      ¬(record = .foreignClaim ∨ record = .alreadyProcessed) →
      p.command = command → p.authority = authority → p.transfer = transfer →
      p.processing = processing → p.decidedAt = at_ → p.attempt.toAttemptTerms = terms →
      (∀ db, Sane config db → K' db → K db ∧ p.Booked db ∧ p.bookWrites ++ p.statusWrites db ++
        [decisionWrite p.command p.result db] ++ p.remainderWrites = tail) →
      post record ⟨held', ws ++ tail, log, db⟩) :
    wp (contract config) (allocateAndFinish command command.outcome.allocateRaw
      command.outcome.remainderRaw command.outcome.decision at_) post fault
      ⟨held, ws, log, db⟩ := by
  unfold allocateAndFinish
  rw [wp_bind]
  refine wp_claimTransfer stable now ready zero other faults
    fun claimer held₁ db more₁ sane known₁ ofTerms collector => ?_
  simp only [Bool.not_true, Bool.false_eq_true, ↓reduceIte]
  have stable₁ := stable.mono more₁
  have claimed : ∀ w ∈ ws ++ [.insertClaim command.transferId (claimOf command claimer)],
      w.table ∈ [TableName.resolutions, .claims] :=
    List.forall_mem_append.mpr ⟨fun w mem => by simp [other w mem], by simp [Write.table]⟩
  rw [wp_bind]
  refine wp_updateOne stable₁ known₁ (fun _ db _ _ known _ => faults _ _ known)
    fun row db sane known₂ found => ?_
  obtain ⟨same, fits⟩ : row = processing ∧
      processing.allocatedRaw + command.outcome.allocateRaw ≤ transfer.amountRaw := by
    refine fittingProcessing_eq_some (ready db known₂) ?_
    rwa [fittingProcessing, processing_same fun w mem eq => absurd (eq ▸ claimed w mem) (by decide),
      transfers_same fun w mem eq => absurd (eq ▸ claimed w mem) (by decide)] at found
  subst same
  simp only [one_ne_zero, ↓reduceIte]
  have booked : ∀ w ∈ ws ++ [.insertClaim command.transferId (claimOf command claimer)] ++
      [.setProcessing command.transferId (bookedRow row command.outcome)],
      w.table ∈ [TableName.resolutions, .claims, .processing] :=
    List.forall_mem_append.mpr ⟨fun w mem => (by decide : ∀ n ∈ [TableName.resolutions, .claims],
      n ∈ [TableName.resolutions, .claims, .processing]) _ (claimed w mem), by simp [Write.table]⟩
  rw [wp_bind]
  refine wp_insertAllocation (stable₁.mono fun _ mem => by simp [mem]) known₂ ready zero booked
    (fun insertion held' db refusal known => ?_)
    fun attempt held₃ db more₃ sane known₃ ofTerms' positive => ?_
  · rcases refusal with rfl | rfl
    · exact faults _ _ known
    · exact faults _ _ known
  simp only
  have book : ∀ w ∈ ws ++ [.insertClaim command.transferId (claimOf command claimer)] ++
      [.setProcessing command.transferId (bookedRow row command.outcome)] ++
      [.insertAllocation command.attemptId command.transferId (allocationOf command attempt
        command.outcome.allocateRaw (allocationReason command.outcome.decision))],
      w.table ∈ bookTables :=
    List.forall_mem_append.mpr ⟨fun w mem => (by decide : ∀ n ∈ [TableName.resolutions, .claims,
      .processing], n ∈ bookTables) _ (booked w mem), by simp [Write.table, bookTables]⟩
  refine wp_finishAllocation book ((stable₁.mono fun _ mem => by simp [mem]).mono
    more₃) known₃ faults
    fun record final intent eventId remainderEventId tail held₄ K₄ db more₄ stable₄ sane known₄
      moved
      finished => ?_
  have finalTerms : final.toAttemptTerms = terms := by
    obtain ⟨known, finished⟩ := finished db known₄
    obtain ⟨stored, _⟩ := Option.filter_eq_some_iff.mp finished.attempt
    obtain ⟨attempt, found, ofTerms⟩ := attemptTerms_eq_some.mp (ready db known).attempt
    cases stored.symm.trans found
    exact ofTerms
  have more : held ⊆ held₄ := fun _ mem => more₄ (more₃ (by simp [more₁ mem]))
  simp only [List.append_assoc]
  refine cont record ⟨command, authority, final, intent, transfer, row, at_, eventId,
    remainderEventId⟩ _ held₄ K₄ db more stable₄ sane known₄ moved rfl rfl rfl rfl rfl finalTerms
    fun db sane known => ?_
  obtain ⟨known, finished⟩ := finished db known
  obtain ⟨attempt, allocatable⟩ := Option.filter_eq_some_iff.mp finished.attempt
  obtain ⟨intent, payable⟩ := Option.filter_eq_some_iff.mp finished.intent
  simp only [Bool.and_eq_true, decide_eq_true_eq] at allocatable payable
  have processing := (ready db known).processing
  refine ⟨known, ⟨attempt, allocatable.1, allocatable.2, intent, payable.1, payable.2,
    (ready db known).transfer, by rw [collector, ← finalTerms], (ready db known).final, processing,
    fits, positive, sane.ledger.unclaimed processing zero, sane.ledger.unallocated processing zero,
    finished.newEvent⟩, ?_⟩
  rw [List.append_assoc, List.append_assoc, ← List.append_assoc (Payment.statusWrites _ _),
    finished.writes _ rfl rfl rfl rfl]
  rw [claimOf_terms (ofTerms.trans finalTerms.symm), allocationOf_terms
    (ofTerms'.trans finalTerms.symm)]
  rfl

end Money

section Settle
variable {config : Config} {held : List (Lock Row)} {log : Log Db Watch} {db : Db}
  {command : SettlementCommand} {terms : AttemptTerms} {amount : Nat}

structure Matched (command : SettlementCommand) (terms : AttemptTerms) (amount : Nat) (db : Db) :
    Prop where
  attempt : db.attemptTerms command.attemptId = some terms
  ofIntent : terms.paymentIntentId = command.paymentIntentId
  automatic : command.matchStrategy ≠ .manual
  money : command.outcome.moves = true → db.Final command.transferId ∧
    ∃ transfer, db.transfers.row command.transferId = some transfer ∧ transfer.amountRaw = amount ∧
      terms.createdAt ≤ transfer.blockTime ∧ transfer.blockTime < terms.latePaymentUntil

theorem matched_stable : Steady config held (Matched command terms amount) := by
  intro db db' move matched
  refine ⟨(attemptTerms_persists _).stable held _ move matched.attempt, matched.ofIntent,
    matched.automatic, fun moves => ?_⟩
  obtain ⟨final, transfer, stored, window⟩ := matched.money moves
  exact ⟨final_stable _ move final, transfer,
    (transfers_inserts.persists _).stable held _ move stored, window⟩

theorem wp_finishWithoutMoney {fault : RepositoryError → Assertion}
    {processing : ProcessingRow} {outcome : DecisionOutcome} {reason : Text} {at_ : Int}
    (noMoney : outcome = .held ∨ outcome = .manualRequired)
    (locked : (.processing command.transferId, .update) ∈ held)
    (stored : db.processing.row command.transferId = some processing)
    (pending : processing.processingState = .pending) (matched : Matched command terms amount db) :
    wp (contract config) (finishWithoutMoney command .held outcome reason at_)
      (fun _ => Committable config) fault ⟨held, [], log, db⟩ := by
  have stable : Steady config held fun db =>
      db.processing.row command.transferId = some processing ∧ Matched command terms amount db :=
    ((processing_guarded _).stable (.inr locked) _).and matched_stable
  unfold finishWithoutMoney setProcessing
  rw [wp_bind]
  refine wp_updateOne stable ⟨stored, matched⟩ (fun seen db before _ known missing => ?_)
    fun row db _ known found => ?_
  · simp [before.1, known.1] at missing
  · cases known.1.symm.trans found
    rw [wp_bind]
    refine wp_recordDecision (by simp [Write.table]) (stable.mono fun _ mem => by simp [mem]) known
      fun decision held₂ K₂ db more₂ stable₂ sane known₂ decided => ?_
    refine wp_insertPaymentEvent stable₂ known₂ fun held₃ db more₃ sane known₃ => ?_
    refine ⟨K₂, stable₂.mono more₃, known₃, fun db _ known => ?_⟩
    obtain ⟨⟨stored, matched⟩, written⟩ := decided db known
    obtain ⟨attempt, found, ofTerms⟩ := attemptTerms_eq_some.mp matched.attempt
    subst written
    exact .park stored pending found (by rw [← matched.ofIntent, ← ofTerms]) noMoney

theorem applyOutcome_moves (moves : command.outcome.moves = true) (at_ : Int) :
    applyOutcome command at_ = allocateAndFinish command command.outcome.allocateRaw
      command.outcome.remainderRaw command.outcome.decision at_ := by
  unfold applyOutcome
  split <;> rename_i outcome <;> rw [outcome] at moves ⊢ <;> first | rfl | cases moves

def Decided (command : SettlementCommand) (terms : AttemptTerms) (amount : Nat)
    (log : Log Db Watch) : Prop :=
  command.outcome.moves = true → Screened log command.transferId ∧
    ∃ m, log.lookup (.allocated command.attemptId) = some m ∧
      Takes (terms.expectedAmountRaw - m.db.allocatedTo command.attemptId) amount command.outcome

theorem pending_zero {processing : ProcessingRow} (sane : Sane config db) {t : Id}
    (stored : db.processing.row t = some processing)
    (idle : processing.processingState ∈ [ProcessingState.pending, .unmatched, .held]) :
    processing.allocatedRaw = 0 := (sane.ledger.idle stored).mpr (.inl idle)

theorem wp_applyOutcome {processing : ProcessingRow} {at_ : Int} (sane : Sane config db)
    (locked : (.processing command.transferId, .update) ∈ held)
    (stored : db.processing.row command.transferId = some processing)
    (pending : processing.processingState = .pending) (matched : Matched command terms amount db)
    (decided : Decided command terms amount log) :
    wp (contract config) (applyOutcome command at_) (fun _ => Committable config)
      (fun _ c => Matched command terms amount c.db) ⟨held, [], log, db⟩ := by
  cases moves : command.outcome.moves with
  | false =>
    unfold applyOutcome
    split <;> rename_i outcome <;> rw [outcome] at moves
    · rw [wp_bind]
      exact wp_finishWithoutMoney (.inl rfl) locked stored pending matched
    · rw [wp_bind]
      exact wp_finishWithoutMoney (.inr rfl) locked stored pending matched
    all_goals cases moves
  | true =>
    rw [applyOutcome_moves moves]
    obtain ⟨final, transfer, found, rfl, started, inWindow⟩ := matched.money moves
    obtain ⟨screened, m, read, takes⟩ := decided moves
    have ready : Ready command terms transfer processing db :=
      ⟨matched.attempt, found, final, stored⟩
    refine wp_allocateAndFinish .automatic ((ready_stable locked).and matched_stable)
      ⟨ready, matched⟩ (fun _ known => known.1)
      (pending_zero sane stored (by simp [pending])) (by simp) (fun _ _ known => known.2) ?_
    rintro record p tail held' K' db more stable sane known moved rfl automatic rfl rfl
      rfl rfl booked
    refine ⟨K', stable, known, fun db sane known => ?_⟩
    obtain ⟨_, books, rfl⟩ := booked db sane known
    have sound : p.Sound config log db :=
      { toFounded := ⟨books, inWindow, m, read, takes⟩
        authorized := by
          rw [Payment.Authorized, automatic]
          exact ⟨pending, started⟩
        strategy := by simp [matched.automatic, automatic]
        screened := fun _ => screened }
    have eff : Effect config log db (p.writes db) := .pay p sound
    simpa [Payment.writes, Payment.resolutionWrites, Payment.operatorWrites, automatic] using eff

theorem wp_lockProcessing {t : Id} {K : Db → Prop} {ws : List Write}
    {fault : RepositoryError → Assertion} {post : ProcessingRow → Assertion}
    (stable : Steady config held K) (now : K db) (faults : ∀ e c, K c.db → fault e c)
    (cont : ∀ row db, Sane config db → K db → (applyAll ws db).processing.row t = some row →
      post row ⟨(.processing t, .update) :: held, ws, log, db⟩) :
    wp (contract config) (lockProcessing t) post fault ⟨held, ws, log, db⟩ := by
  unfold lockProcessing
  rw [wp_bind]
  refine wp_forUpdate stable now (fun _ db _ _ known _ => ?_) fun row db sane known found => ?_
  · exact faults _ _ known
  · exact cont row db sane known found

theorem wp_parkRefused {lease : ComponentLease} {refusal : Text}
    (matched : Matched command terms amount db) :
    wp (contract config) (parkRefused lease command refusal) (fun _ => Between (contract config))
      (fun _ _ => True) ⟨[], [], log, db⟩ := by
  unfold parkRefused
  rw [wp_bind]
  refine wp_holdLease matched_stable matched (fun _ _ _ => trivial)
    fun held db more sane matched => ?_
  rw [wp_bind]
  refine wp_lockProcessing matched_stable matched (fun _ _ _ => trivial)
    fun row db sane matched stored => ?_
  split
  · rw [wp_bind]
    exact wp_commitsNothing fun db sane => ⟨rfl, rfl, sane⟩
  · rename_i pending
    have pinned : Steady config ((.processing command.transferId, .update) :: held)
        fun db => db.processing.row command.transferId = some row ∧
          Matched command terms amount db :=
      ((processing_guarded _).stable (.inr List.mem_cons_self) _).and matched_stable
    rw [wp_bind]
    refine wp_now pinned ⟨stored, matched⟩ fun at_ db sane known => ?_
    rw [wp_bind]
    refine wp_mono (wp_finishWithoutMoney (.inr rfl) List.mem_cons_self known.1
      (not_not.mp pending) known.2) (fun _ c ready => ?_) fun _ _ same => same
    rw [wp_bind]
    exact ready.commit fun db sane => ⟨rfl, rfl, sane⟩

theorem settle_spec {lease : ComponentLease} (matched : Matched command terms amount db)
    (decided : Decided command terms amount log) :
    wp (contract config) (settle lease command) (fun _ => Between (contract config))
      (fun _ => Between (contract config)) ⟨[], [], log, db⟩ := by
  refine wp_transaction ?_ fun _ _ _ sane => ⟨rfl, rfl, sane⟩
  rw [wp_bind]
  refine wp_holdLease matched_stable matched (fun _ _ _ => trivial)
    fun held db more sane matched => ?_
  rw [wp_bind]
  refine wp_lockProcessing matched_stable matched (fun _ _ _ => trivial)
    fun row db sane matched stored => ?_
  split
  · rw [wp_bind]
    exact wp_commitsNothing fun db sane => ⟨rfl, rfl, sane⟩
  · rename_i pending
    have pinned : Steady config ((.processing command.transferId, .update) :: held)
        fun db => db.processing.row command.transferId = some row ∧
          Matched command terms amount db :=
      ((processing_guarded _).stable (.inr List.mem_cons_self) _).and matched_stable
    rw [wp_bind]
    refine wp_now pinned ⟨stored, matched⟩ fun at_ db sane known => ?_
    rw [wp_bind, wp_caught]
    refine wp_mono (wp_applyOutcome sane List.mem_cons_self known.1 (not_not.mp pending) known.2
      decided) (fun record c ready => ?_) fun error c matched => ?_
    · simp only
      rw [wp_bind]
      exact ready.commit fun db sane => ⟨rfl, rfl, sane⟩
    · split
      · rename_i same; cases same
      · rw [wp_bind]
        exact wp_rollsBack matched_stable matched fun db sane matched => wp_parkRefused matched
      · trivial

theorem recordUnresolved_refines (lease : ComponentLease) (transfer : PendingTransfer)
    (unresolved : UnresolvedTransfer) :
    Refines config (recordUnresolved lease transfer unresolved) := by
  refine .transaction fun log db sane => ?_
  rw [wp_bind]
  refine wp_holdLease stable_true trivial (fun _ _ _ => trivial) fun held db _ sane _ => ?_
  rw [wp_bind]
  refine wp_updateOne stable_true trivial (fun _ db _ sane _ _ => ?_) fun row db sane _ found => ?_
  · rw [wp_bind]
    refine wp_enqueueOutbox stable_true trivial (fun _ _ _ => trivial) fun id db sane _ _ => ?_
    refine wp_commits stable_true trivial (fun db _ _ => ?_) fun db sane => ⟨rfl, rfl, sane⟩
    exact .notice (by cases unresolved <;> simp)
  · obtain ⟨stored, pending⟩ := Option.filter_eq_some_iff.mp found
    have pinned : ∀ {held}, (.processing transfer.facts.transferId, .noKeyUpdate) ∈ held →
        Steady config held fun db =>
          db.processing.row transfer.facts.transferId = some row :=
      fun locked => (processing_guarded _).stable (.inl locked) _
    rw [wp_bind]
    refine wp_enqueueOutbox (pinned List.mem_cons_self) stored (fun _ _ _ => trivial)
      fun id db sane stored _ => ?_
    refine wp_commits (pinned (List.mem_cons_of_mem _ List.mem_cons_self)) stored
      (fun db _ stored => ?_) fun db sane => ⟨rfl, rfl, sane⟩
    exact .unresolved stored (by simpa using pending) (by cases unresolved <;> simp)

end Settle
end CryptoGateway
