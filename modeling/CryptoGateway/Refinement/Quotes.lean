import CryptoGateway.Refinement.Intents

/-!
The quote repository keeps the contract: issuing a quote with its attempt and
its lease, and the sweep that expires them.
-/
namespace CryptoGateway
open Engine

variable {config : Config} {held : List (Lock Row)} {ws : List Write} {log : Log Db Watch} {db : Db}
  {K : Db → Prop}

section Issue
variable {fault : RepositoryError → Assertion}

theorem freeSlot_stable {collector : Id} {amountRaw : Nat}
    (locked : (.leaseSlot collector amountRaw, .update) ∈ held) :
    Steady config held fun db => ∀ id row, db.leases.row id = some row →
      ¬(row.collectorAddressId = collector ∧ row.amountRaw = amountRaw) := by
  refine .of_write fun w db apart now id row found => ?_
  rcases leases_origin (show (applyAll [w] db).leases.row id = some row from found) with old | put
  · exact now id row old
  · cases List.mem_singleton.mp put
    rintro ⟨rfl, rfl⟩
    exact absurd (apart (.leaseSlot row.collectorAddressId row.amountRaw, .update)
      (by simp [Store.needs, Write.needs]) _ locked) (by simp [clash, Mode.conflicts])

theorem reserved_stable {collectorId : Id} {m : Db}
    (locked : (.collector collectorId, .update) ∈ held) :
    Steady config held fun db => ∀ k lease, db.leases.row k = some lease →
      lease.collectorAddressId = collectorId → m.leases.row k = some lease := by
  refine .of_write fun w db apart now k lease found of => ?_
  rcases leases_origin (show (applyAll [w] db).leases.row k = some lease from found) with old | put
  · exact now k lease old of
  · cases List.mem_singleton.mp put
    subst of
    exact absurd (apart (.collector lease.collectorAddressId, .keyShare)
      (by simp [Store.needs, Write.needs]) _ locked) (by simp [clash, Mode.conflicts])

structure Quoting (plan : QuotePlan) (intent : IntentRow) (key : Text) (db : Db) : Prop where
  stored : db.intents.row plan.paymentIntentId = some intent
  quotable : intent.status = .requiresQuote ∨
    (intent.status = .expired ∧ db.decidedOrClaimed plan.paymentIntentId = false)
  unspent : db.idempotency.row (plan.merchantId, .quote, key) = none

variable {plan : QuotePlan} {post : Unit → Assertion}

theorem quoting_stable {intent : IntentRow} {key : Text}
    (locked : (.intent plan.paymentIntentId, .update) ∈ held)
    (mine : (.idempotency plan.merchantId .quote key, .update) ∈ held) :
    Steady config held (Quoting plan intent key) := by
  intro db db' move now
  refine ⟨(intents_guarded _).stable (.inr locked) _ move now.stored, now.quotable.imp_right ?_,
    (idempotency_guarded _ _ _).stable (.inr mine) _ move now.unspent⟩
  exact fun ⟨expired, untouched⟩ => ⟨expired, decidedOrClaimed_stable locked move untouched⟩

theorem wp_requotable {intent : IntentRow} {post : Bool → Assertion} (stable : Steady config held K)
    (locked : (.intent plan.paymentIntentId, .update) ∈ held)
    (stored : db.intents.row plan.paymentIntentId = some intent) (now : K db)
    (sane : Sane config db) (other : ∀ w ∈ ws, w.table ≠ .decisions ∧ w.table ≠ .claims)
    (cont : ∀ again db, Sane config db → db.intents.row plan.paymentIntentId = some intent → K db →
      (again = true → intent.status = .expired ∧ db.decidedOrClaimed plan.paymentIntentId = false) →
      post again ⟨held, ws, log, db⟩) :
    wp (contract config) (requotable plan.paymentIntentId intent) post fault
      ⟨held, ws, log, db⟩ := by
  unfold requotable
  split
  · rename_i expired
    rw [wp_bind]
    refine wp_select (((intents_guarded _).stable (.inr locked) _).and stable) ⟨stored, now⟩
      fun db sane known => ?_
    refine cont _ db sane known.1 known.2 fun again => ⟨expired, ?_⟩
    rw [Bool.not_eq_true'] at again
    rwa [Db.decidedOrClaimed, decisions_same fun w mem => (other w mem).1,
      claims_same fun w mem => (other w mem).2] at again
  · exact cont false db sane stored now fun again => by cases again

theorem wp_collectorForUpdate {post : Option CollectorRow → Assertion}
    (stable : Steady config held K) (now : K db)
    (absent : ∀ db, Sane config db → K db → post none ⟨held, ws, log, db⟩)
    (present : ∀ row db, Sane config db → K db →
      (applyAll ws db).collectors.row plan.collectorAddressId = some row →
      row.assetId = plan.assetId → row.state = .active →
      post (some row) ⟨(.collector plan.collectorAddressId, .update) :: held, ws, log, db⟩) :
    wp (contract config) (execute (collectorForUpdate plan)) post fault ⟨held, ws, log, db⟩ := by
  refine wp_execute stable now fun m db' grant _ sane _ known _ reply eq => ?_
  unfold collectorForUpdate at eq
  split at eq
  · rename_i row _ found
    subst eq
    simp only [Reply.locked, required, List.flatMap_nil, List.append_nil]
    obtain ⟨stored, offered⟩ := Option.filter_eq_some_iff.mp found
    simp only [Bool.and_eq_true, decide_eq_true_eq] at offered
    exact present row db' sane known stored offered.1.1.1.1.1 offered.1.1.1.1.2
  · subst eq
    simpa [Reply.value, required] using absent db' sane known

structure Inserted.Fresh (plan : QuotePlan) (amountRaw : Nat) (leaseId : Id) (db : Db) : Prop where
  quote : db.quotes.row plan.quoteId = none
  attempt : db.attempts.row plan.attemptId = none
  noneLive : ∀ a, db.Live plan.paymentIntentId a → False
  lease : db.leases.row leaseId = none
  freeSlot : ∀ id row, db.leases.row id = some row →
    ¬(row.collectorAddressId = plan.collectorAddressId ∧ row.amountRaw = amountRaw)

def quoteWrites (plan : QuotePlan) (amountRaw : Nat) (leaseId : Id) : List Write :=
  [.insertQuote plan.quoteId { plan, amountRaw },
    .insertAttempt plan.attemptId (attemptOf plan amountRaw),
    .insertLease leaseId (leaseOf plan amountRaw)]

theorem liveAttempt_eq_false {i : Id} : db.liveAttempt i = false ↔ ∀ a, db.Live i a → False := by
  simp only [Db.liveAttempt, List.any_eq_false, Bool.and_eq_true, decide_eq_true_eq, not_and]
  constructor
  · rintro none a ⟨row, found, ofIntent, live⟩
    exact none (a, row) (Table.mem_entries.mpr found) ofIntent live
  · rintro none ⟨a, row⟩ mem ofIntent live
    exact none a ⟨row, Table.mem_entries.mp mem, ofIntent, live⟩

def RepositoryError.Other (error : RepositoryError) : Prop :=
  error ≠ .amountSlotsExhausted ∧ error ≠ .collectorUnavailable

theorem wp_insertQuote {amountRaw : Nat} (stable : Steady config held K)
    (now : K db) (refused : ∀ e c, c.log = log → e.Other → fault e c)
    (cont : ∀ db, Sane config db → K db → (applyAll ws db).quotes.row plan.quoteId = none →
      post () ⟨Write.needs (.insertQuote plan.quoteId { plan, amountRaw }) ++ held,
        ws ++ [.insertQuote plan.quoteId { plan, amountRaw }], log, db⟩) :
    wp (contract config) (orViolation (insertQuote plan amountRaw)) post fault
      ⟨held, ws, log, db⟩ := by
  refine wp_insertOr (C := fun db => db.quotes.row plan.quoteId = none)
    (fun _ newest _ accepted => ?_) stable now (fun _ newest _ e _ _ _ _ value => ?_) cont
  · unfold insertQuote at accepted ⊢
    split at accepted
    · cases accepted
    · rename_i absent
      exact ⟨if_neg absent, by simpa using absent⟩
  · refine refused e _ rfl ?_
    unfold insertQuote at value
    split at value
    · cases value; exact ⟨nofun, nofun⟩
    · cases value

theorem wp_insertAttempt {amountRaw : Nat} (stable : Steady config held K)
    (now : K db) (refused : ∀ e c, c.log = log → e.Other → fault e c)
    (cont : ∀ db, Sane config db → K db → (applyAll ws db).attempts.row plan.attemptId = none ∧
        (∀ a, (applyAll ws db).Live plan.paymentIntentId a → False) →
      post () ⟨Write.needs (.insertAttempt plan.attemptId (attemptOf plan amountRaw)) ++ held,
        ws ++ [.insertAttempt plan.attemptId (attemptOf plan amountRaw)], log, db⟩) :
    wp (contract config) (orViolation (insertAttempt plan amountRaw)) post fault
      ⟨held, ws, log, db⟩ := by
  refine wp_insertOr (C := fun db => db.attempts.row plan.attemptId = none ∧
    ∀ a, db.Live plan.paymentIntentId a → False) (fun _ newest _ accepted => ?_) stable now
    (fun _ newest _ e _ _ _ _ value => ?_) cont
  · unfold insertAttempt at accepted ⊢
    split at accepted
    · cases accepted
    · rename_i absent
      split at accepted
      · cases accepted
      · rename_i idle
        refine ⟨by rw [if_neg absent, if_neg idle], by simpa using absent, ?_⟩
        exact liveAttempt_eq_false.mp (by simpa using idle)
  · refine refused e _ rfl ?_
    unfold insertAttempt at value
    split at value
    · cases value; exact ⟨nofun, nofun⟩
    · split at value
      · cases value; exact ⟨nofun, nofun⟩
      · cases value

theorem wp_insertLease {amountRaw : Nat} {leaseId : Id} (stable : Steady config held K)
    (now : K db) (refused : ∀ e c, c.log = log → e.Other → fault e c)
    (free : ∀ db, Sane config db → K db → ∀ id row, (applyAll ws db).leases.row id = some row →
      ¬(row.collectorAddressId = plan.collectorAddressId ∧ row.amountRaw = amountRaw) ∧
        row.attemptId ≠ plan.attemptId) (cont : ∀ db, Sane config db → K db →
      (applyAll ws db).leases.row leaseId = none ∧
        (∀ id row, (applyAll ws db).leases.row id = some row →
          ¬(row.collectorAddressId = plan.collectorAddressId ∧ row.amountRaw = amountRaw)) →
      post () ⟨Write.needs (.insertLease leaseId (leaseOf plan amountRaw)) ++ held,
        ws ++ [.insertLease leaseId (leaseOf plan amountRaw)], log, db⟩) :
    wp (contract config) (orViolation (insertLease plan amountRaw leaseId)) post fault
      ⟨held, ws, log, db⟩ := by
  refine wp_insertOr (C := fun db => db.leases.row leaseId = none ∧ ∀ id row,
    db.leases.row id = some row → ¬(row.collectorAddressId = plan.collectorAddressId ∧
      row.amountRaw = amountRaw)) (fun _ newest _ accepted => ?_) stable now
    (fun _ newest _ e _ _ sane known value => ?_) cont
  · unfold insertLease at accepted ⊢
    split at accepted
    · cases accepted
    · rename_i absent
      split at accepted
      · cases accepted
      · rename_i slot
        refine ⟨by rw [if_neg absent, if_neg slot], by simpa using absent, ?_⟩
        rintro id row found ⟨sameCollector, sameAmount⟩
        refine slot (List.any_eq_true.mpr ⟨(id, row), Table.mem_entries.mpr found, ?_⟩)
        simp [sameCollector, sameAmount]
  · refine refused e _ rfl ?_
    unfold insertLease at value
    split at value
    · cases value; exact ⟨nofun, nofun⟩
    · split at value
      · rename_i taken
        obtain ⟨⟨id, row⟩, mem, taken⟩ := List.any_eq_true.mp taken
        obtain ⟨slot, attempt⟩ := free newest sane known id row (Table.mem_entries.mp mem)
        simp only [Bool.or_eq_true, Bool.and_eq_true, decide_eq_true_eq] at taken
        exact (taken.elim slot attempt).elim
      · cases value

theorem wp_insertQuoteAttemptAndLease {amountRaw : Nat} (stable : Steady config held K)
    (now : K db) (locked : (.intent plan.paymentIntentId, .update) ∈ held)
    (other : ∀ w ∈ ws, w.table = .idempotency) (refused : ∀ e c, c.log = log → e.Other → fault e c)
    (free : ∀ db, K db → ∀ id row, db.leases.row id = some row →
      ¬(row.collectorAddressId = plan.collectorAddressId ∧ row.amountRaw = amountRaw))
    (cont : ∀ leaseId held' db, held ⊆ held' → Sane config db → K db →
      Inserted.Fresh plan amountRaw leaseId db →
      Steady config held' (Inserted.Fresh plan amountRaw leaseId) →
      post () ⟨held', ws ++ quoteWrites plan amountRaw leaseId, log, db⟩) :
    wp (contract config) (insertQuoteAttemptAndLease plan amountRaw) post fault
      ⟨held, ws, log, db⟩ := by
  have out : ∀ n, n ≠ TableName.idempotency → ∀ w ∈ ws, w.table ≠ n :=
    fun n ne w mem eq => ne (eq.symm.trans (other w mem))
  unfold insertQuoteAttemptAndLease
  rw [wp_bind]
  refine wp_insertQuote stable now refused fun db sane known absent => ?_
  -- what each insert has settled stays settled under the locks it took
  have freshQuote : db.quotes.row plan.quoteId = none := by
    rwa [quotes_same (out _ (by decide))] at absent
  have quotePinned := (stable.mono (List.subset_append_right
    (Write.needs (.insertQuote plan.quoteId { plan, amountRaw })) held)).and
      ((quotes_guarded plan.quoteId).stable (.inr (by simp [Write.needs])) none)
  rw [wp_bind]
  refine wp_insertAttempt quotePinned ⟨known, freshQuote⟩ refused fun db sane known absent => ?_
  have freshAttempt : db.attempts.row plan.attemptId = none ∧
      ∀ a, db.Live plan.paymentIntentId a → False := by
    simpa [Db.Live, attempts_same (out _ (by decide)), Write.attempts] using absent
  have attemptPinned := (quotePinned.mono (List.subset_append_right
    (Write.needs (.insertAttempt plan.attemptId (attemptOf plan amountRaw))) _)).and
      (((attempts_guarded plan.attemptId).stable (.inr (by simp [Write.needs])) none).and
        (live_stable (i := plan.paymentIntentId) (by simp [locked]) fun _ => False))
  rw [wp_bind]
  refine wp_uuid attemptPinned ⟨known, freshAttempt⟩ fun leaseId db sane known => ?_
  refine wp_insertLease attemptPinned known refused (fun db sane known id row found => ?_)
    fun db sane known absent => ?_
  · -- a lease of the attempt would need the attempt to be stored
    have found : db.leases.row id = some row := by
      simpa [leases_same (out _ (by decide)), Write.leases] using found
    refine ⟨free db known.1.1 id row found, fun same => ?_⟩
    obtain ⟨terms, stored, _⟩ := sane.links.lease found
    rw [Db.attemptTerms, show row.window.attemptId = plan.attemptId from same, known.2.1] at stored
    cases stored
  have freshLease : db.leases.row leaseId = none ∧ ∀ id row, db.leases.row id = some row →
      ¬(row.collectorAddressId = plan.collectorAddressId ∧ row.amountRaw = amountRaw) := by
    simpa [leases_same (out _ (by decide)), Write.leases] using absent
  obtain ⟨⟨known, quote⟩, attempt, noneLive⟩ := known
  rw [List.append_assoc, List.append_assoc]
  refine cont leaseId _ db (fun _ mem => by simp [mem]) sane known
    ⟨quote, attempt, noneLive, freshLease.1, freshLease.2⟩ fun db db' move fresh => ?_
  exact ⟨(quotes_guarded _).stable (.inr (by simp [Write.needs])) _ move fresh.quote,
    (attempts_guarded _).stable (.inr (by simp [Write.needs])) _ move fresh.attempt,
    live_stable (by simp [locked]) (fun _ => False) move fresh.noneLive,
    (leases_guarded _).stable (.inr (by simp [Write.needs])) _ move fresh.lease,
    freeSlot_stable (by simp [Write.needs, leaseOf]) move fresh.freeSlot⟩

structure Planned (plan : QuotePlan) (log : Log Db Watch) : Prop where
  railOpen : ∃ m, (Watch.railStop plan.assetId, m) ∈ log ∧ m.db.openRailStop plan.assetId = none
  clock : ∃ m, log.lookup .planned = some m ∧ plan.createdAt = m.now

theorem checkedAddU32_ok {amount other sum : Nat}
    (added : RawAmount.checkedAddU32 amount other = .ok sum) : sum = amount + other := by
  unfold RawAmount.checkedAddU32 at added
  split at added <;> cases added
  rfl

theorem findQuote_id {merchantId quoteId : Id} {quote : IssuedQuote}
    (found : db.findQuote merchantId quoteId = some quote) : quote.id = quoteId := by
  obtain ⟨row, _, rfl⟩ := Option.map_eq_some_iff.mp found
  rfl

def Db.Leased (db : Db) (collector : Id) (amountRaw : Nat) : Prop :=
  ∃ id row, db.leases.row id = some row ∧ row.collectorAddressId = collector ∧
    row.amountRaw = amountRaw

theorem slot_taken {slot : Nat} : (db.leases.entries.all fun e =>
      !(e.2.collectorAddressId = plan.collectorAddressId &&
        e.2.amountRaw = plan.baseAmountRaw + slot)) = false ↔
    db.Leased plan.collectorAddressId (plan.baseAmountRaw + slot) := by
  simp only [List.all_eq_false, Bool.not_eq_true, Bool.not_eq_false', Bool.and_eq_true,
    decide_eq_true_eq]
  constructor
  · rintro ⟨⟨id, row⟩, mem, of⟩
    exact ⟨id, row, Table.mem_entries.mp mem, of⟩
  · rintro ⟨id, row, found, of⟩
    exact ⟨(id, row), Table.mem_entries.mpr found, of⟩

theorem freeSlot_eq_some {slot : Nat} : freeSlot plan db = some slot ↔
    slot < plan.amountSlotCount ∧ ¬db.Leased plan.collectorAddressId (plan.baseAmountRaw + slot) ∧
      ∀ t < slot, db.Leased plan.collectorAddressId (plan.baseAmountRaw + t) := by
  rw [freeSlot, List.find?_range_eq_some, List.mem_range, ← Bool.not_eq_false, slot_taken]
  simp only [Bool.not_eq_true', slot_taken]
  tauto

theorem freeSlot_eq_none : freeSlot plan db = none ↔
    ∀ t < plan.amountSlotCount, db.Leased plan.collectorAddressId (plan.baseAmountRaw + t) := by
  simp only [freeSlot, List.find?_eq_none, List.mem_range, Bool.not_eq_true, slot_taken]

def slotTag (plan : QuotePlan) : Watch :=
  .slot plan.collectorAddressId plan.baseAmountRaw plan.amountSlotCount

structure SlotRead where
  collector : Id
  base : Nat
  count : Nat
  db : Db

def slotReads (log : Log Db Watch) : List SlotRead :=
  log.filterMap fun
    | (.slot collector base count, m) => some ⟨collector, base, count, m.db⟩
    | _ => none

def SlotRead.Exhausted (r : SlotRead) : Prop :=
  ∀ t < r.count, r.db.Leased r.collector (r.base + t)

@[simp] theorem slotReads_slot {m : Moment Db} : slotReads ((slotTag plan, m) :: log) =
      ⟨plan.collectorAddressId, plan.baseAmountRaw, plan.amountSlotCount, m.db⟩ :: slotReads log :=
  rfl

def Spilled (log : Log Db Watch) : Prop := ∀ r ∈ (slotReads log).tail, r.Exhausted

structure AllExhausted (log : Log Db Watch) : Prop where
  looked : slotReads log ≠ []
  all : ∀ r ∈ slotReads log, r.Exhausted

/-- What a refused request has done about the plan's slots, after what it did `before`: it
    did not get to look for one; or it looked, and was refused because none was free or
    for another reason. -/
def Searched (plan : QuotePlan) (before : Log Db Watch) (error : RepositoryError)
    (log : Log Db Watch) : Prop :=
  (log = before ∧ error ≠ .amountSlotsExhausted) ∨
    ∃ m, log = (slotTag plan, m) :: before ∧
      (error.Other ∨ error = .amountSlotsExhausted ∧ freeSlot plan m.db = none)

theorem wp_issueLocked {intent : IntentRow} {key : Text} {requestHash : Digest}
    (planned : Planned plan log) (locked : (.intent plan.paymentIntentId, .update) ∈ held)
    (mine : (.idempotency plan.merchantId .quote key, .update) ∈ held)
    (quoting : Quoting plan intent key db) (ofMerchant : intent.merchantId = plan.merchantId) :
    wp (contract config) (issueLocked plan)
      (fun q c => Between (contract config) c ∧
        c.db.Spent plan.merchantId .quote key requestHash q.quote.id ∧
        ∃ m, c.log = (slotTag plan, m) :: log)
      (fun e c => Searched plan log e c.log)
      ⟨held, [.insertIdempotency plan.merchantId .quote key
        { requestHash, resourceId := plan.quoteId }], log, db⟩ := by
  unfold issueLocked
  rw [wp_bind]
  refine wp_collectorForUpdate (quoting_stable locked mine) quoting
    (fun _ _ _ => .inl ⟨rfl, by simp⟩)
    fun collector db sane quoting found ofAsset active => ?_
  have found : db.collectors.row plan.collectorAddressId = some collector := found
  have pinned : Steady config ((.collector plan.collectorAddressId, .update) :: held)
      fun db => Quoting plan intent key db ∧
        db.collectors.row plan.collectorAddressId = some collector :=
    ((quoting_stable locked mine).mono (List.subset_cons_self _ held)).and
      ((collectors_guarded _).stable (.inr List.mem_cons_self) _)
  rw [wp_bind]
  refine wp_orFail (fun absent => by cases absent) fun _ _ => ?_
  rw [wp_bind]
  refine wp_watch pinned ⟨quoting, found⟩ fun m sane known => ?_
  rw [wp_bind]
  refine wp_orFail (fun none_ => .inr ⟨m, rfl, .inr ⟨rfl, none_⟩⟩) fun slot chosen => ?_
  have chosen : freeSlot plan m.db = some slot := chosen
  have refused : ∀ (e : RepositoryError) (c : Ctx Db Write Row Watch),
      c.log = (slotTag plan, m) :: log → e.Other → Searched plan log e c.log :=
    fun e c same other => .inr ⟨m, same, .inl other⟩
  split
  · exact refused _ _ rfl ⟨by simp, by simp⟩
  rename_i amountRaw sum
  have amount : amountRaw = plan.baseAmountRaw + slot := checkedAddU32_ok sum
  -- nobody takes the slot while the address is locked
  have reserved := pinned.and (reserved_stable (m := m.db) (List.mem_cons_self
    (a := (Row.collector plan.collectorAddressId, Mode.update)) (l := held)))
  rw [wp_bind]
  refine wp_insertQuoteAttemptAndLease reserved ⟨known, fun _ _ found _ => found⟩
    (List.mem_cons_of_mem _ locked) (by simp [Write.table]) refused
    (fun db known id row found taken => ?_)
    fun leaseId held' db more sane known fresh freshStable => ?_
  · refine (freeSlot_eq_some.mp chosen).2.1 ⟨id, row, known.2 id row found taken.1, taken.1, ?_⟩
    exact taken.2.trans amount
  have all := (pinned.mono more).and freshStable
  rw [wp_bind]
  refine wp_updateOne all ⟨known.1, fresh⟩ (fun _ _ _ _ _ _ => refused _ _ rfl ⟨by simp, by simp⟩)
    fun _ db sane known _ => ?_
  have wider : held' ⊆ (.intent plan.paymentIntentId, .noKeyUpdate) ::
      (([.setIntentStatus plan.paymentIntentId .awaitingPayment] : List Write).flatMap
        Write.needs ++
        held') := fun _ mem => by simp [mem]
  have final := all.mono wider
  simp only [ne_eq, not_true_eq_false, ↓reduceIte]
  rw [wp_bind]
  refine wp_select final known fun db sane known => ?_
  rw [wp_bind]
  refine wp_orFail (fun _ => refused _ _ rfl ⟨by simp, by simp⟩) fun quote issued => ?_
  rw [wp_bind]
  refine wp_commitsTo final known (fun db _ known => ?_) fun db sane known =>
    ⟨⟨rfl, rfl, sane⟩, ?_, m, rfl⟩
  · obtain ⟨⟨quoting, found⟩, fresh⟩ := known
    exact .issue ⟨plan, amountRaw, leaseId, key, requestHash, intent⟩
      { intent := quoting.stored
        ofMerchant := ofMerchant
        quotable := quoting.quotable
        collector := ⟨collector, found, ofAsset⟩
        newQuote := fresh.quote
        newAttempt := fresh.attempt
        newLease := fresh.lease
        noneLive := fun a row found ofIntent live => fresh.noneLive a ⟨row, found, ofIntent, live⟩
        freeSlot := fresh.freeSlot
        active := ⟨collector, found, active⟩
        chosen := ⟨m, slot, by simp, chosen, amount⟩
        unspent := quoting.unspent
        railOpen := by
          obtain ⟨seen, mem, clear⟩ := planned.railOpen
          exact ⟨seen, List.mem_cons_of_mem _ mem, clear⟩
        planned := by
          obtain ⟨seen, looked, created⟩ := planned.clock
          exact ⟨seen, (lookup_cons_of_ne (by simp)).trans looked, created⟩ }
  · rw [show (IdempotentQuote.issued quote).quote.id = plan.quoteId from findQuote_id issued]
    exact spent_of_insert known.1.1.unspent

theorem issueQuoteIdempotently_spec {log : Log Db Watch} {db : Db}
    (planned : Planned plan log) (key : Text) (requestHash : Digest) :
    wp (contract config) (issueQuoteIdempotently plan key requestHash)
      (fun q c => Between (contract config) c ∧
        c.db.Spent plan.merchantId .quote key requestHash q.quote.id ∧
        (c.log = log ∨ ∃ m, c.log = (slotTag plan, m) :: log))
      (fun e c => Between (contract config) c ∧ Searched plan log e c.log) ⟨[], [], log, db⟩ := by
  refine wp_transaction_error ?_ fun _ _ _ searched sane => ⟨⟨rfl, rfl, sane⟩, searched⟩
  have unsearched : ∀ {e : RepositoryError} {c : Ctx Db Write Row Watch}, c.log = log →
      e ≠ .amountSlotsExhausted → Searched plan log e c.log := fun same other => .inl ⟨same, other⟩
  rw [wp_bind]
  refine wp_insertIdempotency stable_true trivial (fun record db sane _ stored => ?_)
    fun db sane _ unspent => ?_
  · simp only [Bool.not_false, ↓reduceIte]
    rw [wp_bind]
    obtain ⟨spentOn, resource⟩ := record
    refine wp_replayedResource stored
      (fun _ _ => unsearched rfl (by simp)) fun db sane stored _ => ?_
    rw [wp_bind]
    refine wp_select spentKey_stable stored fun db sane stored => ?_
    rw [wp_bind]
    refine wp_orFail (fun _ => unsearched rfl (by simp [missingQuote])) fun quote found => ?_
    rw [wp_bind]
    refine wp_commitsReplay stored fun db sane stored => ⟨⟨rfl, rfl, sane⟩, ?_, .inl rfl⟩
    rw [show (IdempotentQuote.replayed quote).quote.id = resource from findQuote_id found]
    exact stored
  · simp only [Bool.not_true, Bool.false_eq_true, ↓reduceIte]
    rw [wp_bind]
    have scope : Steady config [(.idempotency plan.merchantId .quote key, .update)]
        fun db => db.idempotency.row (plan.merchantId, .quote, key) = none :=
      (idempotency_guarded _ _ _).stable (.inr List.mem_cons_self) none
    refine wp_forUpdate scope unspent (fun _ _ _ _ _ _ => unsearched rfl (by simp))
      fun intent db sane unspent found => ?_
    obtain ⟨stored, ofMerchant⟩ := findIntent_eq_some.mp found
    rw [wp_bind]
    refine wp_orFail (fun absent => by cases absent) fun _ same => ?_
    cases same
    rw [wp_bind]
    refine wp_requotable (scope.mono (List.subset_cons_self _ _)) (by simp) stored unspent sane
      (by simp [Write.table]) fun again db sane stored unspent requotable => ?_
    split
    · exact unsearched rfl (by simp)
    · rename_i accepted
      refine wp_mono (wp_issueLocked planned (by simp) (by simp) ⟨stored, ?_, unspent⟩ ofMerchant)
        (fun _ _ issued => ⟨issued.1, issued.2.1, .inr issued.2.2⟩) fun _ _ searched => searched
      simp only [Bool.or_eq_true, Bool.and_eq_true, decide_eq_true_eq, Bool.not_eq_true', ne_eq,
        not_or, not_and, Bool.not_eq_false] at accepted
      exact or_iff_not_imp_left.mpr fun unquoted => requotable (accepted.1.1 unquoted)

theorem findQuoteReplay_spec (merchantId : Id) (key : Text) (requestHash : Digest) :
    wp (contract config) (findQuoteReplay merchantId key requestHash)
      (fun r c => Between (contract config) c ∧ c.log = log ∧
        ∀ quote, r = some quote → c.db.Spent merchantId .quote key requestHash quote.id)
      (fun e c => Between (contract config) c ∧ c.log = log ∧ e ≠ .amountSlotsExhausted)
      ⟨[], [], log, db⟩ := by
  refine wp_transaction_error (P := fun e log' => log' = log ∧ e ≠ .amountSlotsExhausted) ?_
    fun _ _ _ known sane => ⟨⟨rfl, rfl, sane⟩, known⟩
  rw [wp_bind]
  refine wp_select stable_true trivial fun db sane _ => ?_
  split
  · rw [wp_bind]
    exact wp_commitsNothing fun db sane => ⟨⟨rfl, rfl, sane⟩, rfl, by simp⟩
  · rename_i existing stored
    split
    · exact ⟨rfl, by simp⟩
    · rename_i same
      have stored : db.Spent merchantId .quote key requestHash existing.resourceId := by
        rw [← not_not.mp same]
        exact stored
      rw [wp_bind]
      refine wp_select spentKey_stable stored fun db sane stored => ?_
      rw [wp_bind]
      refine wp_orFail (fun _ => ⟨rfl, by simp [missingQuote]⟩) fun quote found => ?_
      rw [wp_bind]
      refine wp_commitsReplay stored fun db sane stored => ⟨⟨rfl, rfl, sane⟩, rfl, ?_⟩
      rintro _ ⟨⟩
      rw [findQuote_id found]
      exact stored

end Issue

section Sweep

def Expiry.Seen (log : Log Db Watch) (x : Expiry) : Prop :=
  x.closesIntent = true → ∃ m row, (Watch.expiring x.attempt.paymentIntentId, m) ∈ log ∧
    m.db.intents.row x.attempt.paymentIntentId = some row ∧ row.status = .awaitingPayment

variable {at_ : Int} {post : Unit → Assertion} {done : List Expiry}
  {fault : RepositoryError → Assertion}

theorem awaitingIntent_origin {i : Id} {row : IntentRow}
    (found : (applyAll (done.flatMap Expiry.writes) db).intents.row i = some row)
    (awaiting : row.status = .awaitingPayment) : db.intents.row i = some row := by
  refine (applyAll_origin (fun db : Db => db.intents.row i) (P := fun _ => False) ?_
    found).resolve_right (by simp)
  intro w mem db found
  obtain ⟨x, _, mem⟩ := List.mem_flatMap.mp mem
  left
  simp only [Expiry.writes, List.mem_cons] at mem
  rcases mem with rfl | mem
  · exact found
  · split at mem
    · simp only [List.mem_cons, List.not_mem_nil, or_false] at mem
      subst mem
      simp only [apply_intents, Write.intents, Table.row_modify] at found
      split at found
      · obtain ⟨before, _, rfl⟩ := Option.map_eq_some_iff.mp found
        cases awaiting
      · exact found
    · cases mem

theorem wp_expireIntent {i : Id}
    {post : Option PaymentIntentStatus → Assertion}
    (stable : Steady config held K) (now : K db) {first : Write}
    (other : first.table ≠ .intents)
    (absent : ∀ c, post none c)
    (cont : ∀ status closes (m : Moment Db) held' db, held ⊆ held' → Sane config db → K db →
      (closes = true → ∃ row, m.db.intents.row i = some row ∧ row.status = .awaitingPayment) →
      post (some status) ⟨held', (done.flatMap Expiry.writes ++ [first]) ++
          (if closes then [.setIntentStatus i .expired] else []),
        (.expiring i, m) :: log, db⟩) :
    wp (contract config) (Proc.stmt (some (.expiring i)) (expireIntent i) .done) post fault
      ⟨held, done.flatMap Expiry.writes ++ [first], log, db⟩ := by
  refine wp_watched stable now fun m db' grant _ sane _ known _ reply eq => ?_
  unfold expireIntent at eq
  split at eq
  · rename_i previous _ seen _
    subst eq
    have before : (applyAll (done.flatMap Expiry.writes) m.db).intents.row i = some previous := by
      rwa [applyAll_append, intents_same (by simpa using other)] at seen
    by_cases awaiting : previous.status = .awaitingPayment
    · simp only [awaiting, ↓reduceIte]
      exact cont .awaitingPayment true m _ db' (List.subset_append_right _ held) sane known
        fun _ => ⟨previous, awaitingIntent_origin before awaiting, awaiting⟩
    · simp only [awaiting, ↓reduceIte]
      exact cont previous.status false m _ db' (List.subset_append_right _ held) sane known
        fun closes => by cases closes
  · subst eq
    exact absent _

theorem Expiry.Seen.mono {log log' : Log Db Watch} {x : Expiry} (seen : x.Seen log)
    (more : log ⊆ log') : x.Seen log' := by
  intro closes
  obtain ⟨m, row, mem, rest⟩ := seen closes
  exact ⟨m, row, more mem, rest⟩

theorem wp_expireAttempt {id : Id} {attempt : AttemptRow} (stable : Steady config held K)
    (now : K db) (cont : ∀ x held' log' db, held ⊆ held' → log ⊆ log' → Sane config db → K db →
      x.attemptId = id → x.attempt = attempt → x.Seen log' →
      post () ⟨held', (done ++ [x]).flatMap Expiry.writes, log', db⟩) :
    wp (contract config) (expireAttempt id attempt) post (fun _ _ => True)
      ⟨held, done.flatMap Expiry.writes, log, db⟩ := by
  unfold expireAttempt
  rw [wp_bind]
  refine wp_updateOne stable now (fun _ _ _ _ _ _ => trivial) fun _ db sane known _ => ?_
  simp only [ne_eq, not_true_eq_false, ↓reduceIte]
  have wider : held ⊆ (.attempt id, .noKeyUpdate) ::
      (([.setAttemptStatus id .expired] : List Write).flatMap Write.needs ++ held) :=
    fun _ mem => by simp [mem]
  rw [wp_bind]
  refine wp_expireIntent (stable.mono wider) known (by simp [Write.table]) (fun _ => trivial)
    fun status closes m held' db more sane known seen => ?_
  rw [wp_bind]
  refine wp_orFail (fun absent => by cases absent) fun _ _ => ?_
  have finish := cont ⟨id, attempt, closes⟩ held' ((.expiring attempt.paymentIntentId, m) :: log) db
    (List.Subset.trans wider more) (List.subset_cons_self _ log) sane known rfl rfl
    fun closing => by
      obtain ⟨row, found⟩ := seen closing
      exact ⟨m, row, List.mem_cons_self, found⟩
  simpa [Expiry.writes] using finish

theorem wp_expireAttempts {rows : List (Id × AttemptRow)} (done : List Expiry)
    (stable : Steady config held K)
    (sane : Sane config db) (now : K db)
    (cont : ∀ expired held' log' db, held ⊆ held' → log ⊆ log' → Sane config db → K db →
      (∀ x ∈ expired, (x.attemptId, x.attempt) ∈ rows ∧ x.Seen log') →
      post () ⟨held', (done ++ expired).flatMap Expiry.writes, log', db⟩) :
    wp (contract config) (expireAttempts rows) post (fun _ _ => True)
      ⟨held, done.flatMap Expiry.writes, log, db⟩ := by
  induction rows generalizing done held log db with
  | nil =>
    have finish := cont [] held log db (List.Subset.refl _) (List.Subset.refl _) sane now (by simp)
    simpa [expireAttempts] using finish
  | cons e rest ih =>
    obtain ⟨id, attempt⟩ := e
    unfold expireAttempts
    rw [wp_bind]
    refine wp_expireAttempt stable now
      fun x held' log' db more logged sane known hid hrow seen => ?_
    refine ih _ (stable.mono more) sane known
      fun expired held'' log'' db more' logged' sane known each => ?_
    have finish := cont (x :: expired) held'' log'' db (List.Subset.trans more more')
      (List.Subset.trans logged logged') sane known fun y mem => by
        rcases List.mem_cons.mp mem with rfl | later
        · exact ⟨by rw [hid, hrow]; exact List.mem_cons_self, seen.mono logged'⟩
        · exact ⟨List.mem_cons_of_mem _ (each y later).1, (each y later).2⟩
    simpa using finish

theorem wp_archiveLease {id : Id} {lease : LeaseRow} (stable : Steady config held K) (now : K db)
    (cont : ∀ held' db, held ⊆ held' → (.leaseHistory id, .update) ∈ held' → Sane config db →
      K db → db.leaseHistory.row id = none →
      post () ⟨held', ws ++ Sweep.archiveWrites at_ (id, lease), log, db⟩) :
    wp (contract config) (archiveLease at_ id lease) post (fun _ _ => True)
      ⟨held, ws, log, db⟩ := by
  unfold archiveLease
  rw [wp_bind]
  refine wp_insert (w := .insertLeaseHistory id (historyOf lease at_))
    (C := fun db => db.leaseHistory.row id = none) (fun _ newest _ accepted => ?_) stable now
    (fun _ _ _ => trivial) fun db sane known absent => ?_
  · unfold insertLeaseHistory at accepted ⊢
    split at accepted
    · cases accepted
    · rename_i unused
      simp only [Bool.or_eq_true, not_or] at unused
      exact ⟨by simp [unused.1, unused.2], by simpa using unused.1⟩
  -- an own write would have filled the row: it is free in the committed table too
  have free : db.leaseHistory.row id = none := by
    refine Option.eq_none_iff_forall_not_mem.mpr fun old stored => ?_
    rw [(leaseHistory_inserts.persists id).applyAll stored ws] at absent
    cases absent
  have wider := stable.mono
    (List.subset_append_right (Write.needs (.insertLeaseHistory id (historyOf lease at_))) held)
  refine wp_wrote (wider.and ((leaseHistory_guarded id).stable (.inr (by simp [Write.needs])) none))
    ⟨known, free⟩ fun db sane known => ?_
  rw [List.append_assoc]
  exact cont _ db (fun _ mem => by simp [mem]) (by simp [Write.needs]) sane known.1 known.2

theorem wp_archiveLeases {rows : List (Id × LeaseRow)} (stable : Steady config held K)
    (sane : Sane config db) (now : K db) (cont : ∀ held' db, held ⊆ held' → Sane config db → K db →
      (∀ e ∈ rows, (.leaseHistory e.1, .update) ∈ held' ∧ db.leaseHistory.row e.1 = none) →
      post () ⟨held', ws ++ rows.flatMap (Sweep.archiveWrites at_), log, db⟩) :
    wp (contract config) (archiveLeases at_ rows) post (fun _ _ => True) ⟨held, ws, log, db⟩ := by
  induction rows generalizing held ws db K with
  | nil =>
    have finish := cont held db (List.Subset.refl _) sane now (by simp)
    simpa [archiveLeases] using finish
  | cons e rest ih =>
    obtain ⟨id, lease⟩ := e
    unfold archiveLeases
    rw [wp_bind]
    refine wp_archiveLease stable now fun held' db more locked sane known free => ?_
    have pinned : Steady config held' fun db => K db ∧ db.leaseHistory.row id = none :=
      (stable.mono more).and ((leaseHistory_guarded id).stable (.inr locked) none)
    refine ih pinned sane ⟨known, free⟩ fun held'' db more' sane known each => ?_
    have finish := cont held'' db (List.Subset.trans more more') sane known.1 fun y mem => by
      rcases List.mem_cons.mp mem with rfl | later
      · exact ⟨more' locked, known.2⟩
      · exact each y later
    simpa using finish

theorem wp_dueAttempts {limit : Nat} {post : List (Id × AttemptRow) → Assertion}
    (cont : ∀ rows held' db, Sane config db →
      (∀ e ∈ rows, (.attempt e.1, .update) ∈ held' ∧ dueAttempt at_ db e.1 = some e.2) →
      post rows ⟨held', [], log, db⟩) :
    wp (contract config) (execute (dueAttempts at_ limit)) post fault ⟨[], [], log, db⟩ := by
  refine wp_execute stable_true trivial fun m db' grant _ sane _ _ _ reply eq => ?_
  subst eq
  simp only [dueAttempts, Reply.locked, required, List.flatMap_nil, List.append_nil]
  refine cont _ _ db' sane fun e mem => ⟨List.mem_map.mpr ⟨e, mem, rfl⟩, ?_⟩
  obtain ⟨id, _, found⟩ := List.mem_filterMap.mp (List.mem_of_mem_take mem)
  obtain ⟨row, due, rfl⟩ := Option.map_eq_some_iff.mp found
  exact due

theorem wp_dueLeases {limit : Nat} {post : List (Id × LeaseRow) → Assertion}
    (stable : Steady config held K) (now : K db)
    (cont : ∀ rows held' db, held ⊆ held' → Sane config db → K db →
      (∀ e ∈ rows, (.lease e.1, .update) ∈ held' ∧ dueLease at_ (applyAll ws db) e.1 = some e.2) →
      post rows ⟨held', ws, log, db⟩) :
    wp (contract config) (execute (dueLeases at_ limit)) post fault ⟨held, ws, log, db⟩ := by
  refine wp_execute stable now fun m db' grant _ sane _ known _ reply eq => ?_
  subst eq
  simp only [dueLeases, Reply.locked, required, List.flatMap_nil, List.append_nil]
  refine cont _ _ db' (List.subset_append_right _ held) sane known fun e mem =>
    ⟨List.mem_append_left _ (List.mem_map.mpr ⟨e, mem, rfl⟩), ?_⟩
  obtain ⟨id, _, found⟩ := List.mem_filterMap.mp (List.mem_of_mem_take mem)
  obtain ⟨row, due, rfl⟩ := Option.map_eq_some_iff.mp found
  exact due

theorem rows_stable {κ ρ : Type} {view : κ → Db → Option ρ} {row : κ → Row}
    (guarded : ∀ k, Guarded (view k) (row k)) {rows : List (κ × ρ)}
    (locked : ∀ e ∈ rows, (row e.1, .update) ∈ held) :
    Steady config held fun db => ∀ e ∈ rows, view e.1 db = some e.2 :=
  fun _ _ move known e mem => (guarded e.1).stable (.inr (locked e mem)) _ move (known e mem)

theorem expireQuotesAndArchiveLeases_spec {limit : Nat}
    (clock : ∃ m, (Watch.swept, m) ∈ log ∧ m.now = at_) :
    wp (contract config) (expireQuotesAndArchiveLeases at_ limit)
      (fun _ => Between (contract config)) (fun _ => Between (contract config))
      ⟨[], [], log, db⟩ := by
  refine wp_transaction ?_ fun _ _ _ sane => ⟨rfl, rfl, sane⟩
  rw [wp_bind]
  refine wp_dueAttempts fun attempts held db sane due => ?_
  simp only [dueAttempt, Option.filter_eq_some_iff, Bool.and_eq_true, decide_eq_true_eq] at due
  have attemptsPinned : Steady config held fun db =>
      ∀ e ∈ attempts, db.attempts.row e.1 = some e.2 :=
    rows_stable attempts_guarded fun e mem => (due e mem).1
  rw [wp_bind]
  refine wp_expireAttempts [] attemptsPinned sane (fun e mem => (due e mem).2.1)
    fun expired held' log' db more logged sane attemptRows each => ?_
  simp only [List.nil_append]
  rw [wp_bind]
  refine wp_dueLeases (attemptsPinned.mono more) attemptRows
    fun leases held'' db more' sane attemptRows old => ?_
  have sweeps : ∀ w ∈ expired.flatMap Expiry.writes, w.table ≠ .leases := by
    intro w mem
    obtain ⟨x, _, mem⟩ := List.mem_flatMap.mp mem
    unfold Expiry.writes at mem
    split at mem <;> simp at mem
    · rcases mem with rfl | rfl <;> simp [Write.table]
    · subst mem; simp [Write.table]
  simp only [dueLease, leases_same sweeps, Option.filter_eq_some_iff, Bool.and_eq_true,
    decide_eq_true_eq] at old
  have leasesPinned : Steady config held'' fun db =>
      ∀ e ∈ leases, db.leases.row e.1 = some e.2 :=
    rows_stable leases_guarded fun e mem => (old e mem).1
  have pinned := (attemptsPinned.mono (List.Subset.trans more more')).and leasesPinned
  rw [wp_bind]
  refine wp_archiveLeases pinned sane ⟨attemptRows, fun e mem => (old e mem).2.1⟩
    fun held₃ db more₃ sane known unused => ?_
  have final : Steady config held₃ fun db =>
      ((∀ e ∈ attempts, db.attempts.row e.1 = some e.2) ∧
        ∀ e ∈ leases, db.leases.row e.1 = some e.2) ∧
      ∀ e ∈ leases, db.leaseHistory.row e.1 = none :=
    (pinned.mono more₃).and fun _ _ move free e mem =>
      (leaseHistory_guarded e.1).stable (.inr (unused e mem).1) _ move (free e mem)
  rw [wp_bind]
  refine wp_commits final ⟨known, fun e mem => (unused e mem).2⟩ (fun db _ known => ?_)
    fun db sane => ⟨rfl, rfl, sane⟩
  obtain ⟨⟨attemptRows, leaseRows⟩, free⟩ := known
  obtain ⟨m, mem, now⟩ := clock
  exact .sweep ⟨at_, expired, leases⟩
    { clock := ⟨m, logged mem, now⟩
      expired := fun x mem =>
        have listed := (each x mem).1
        ⟨attemptRows _ listed, (due _ listed).2.2.1, (due _ listed).2.2.2, (each x mem).2⟩
      archived := fun e mem => ⟨leaseRows e mem, (old e mem).2.2.1, free e mem⟩ }

end Sweep
end CryptoGateway
