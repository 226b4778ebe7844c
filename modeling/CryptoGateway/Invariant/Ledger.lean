import CryptoGateway.Invariant.Payments

/-!
The books of a transfer: what its processing row says, its claim and its
allocations tell one story in every committed database.
-/
namespace CryptoGateway
open Engine

def Db.Rejected (db : Db) (transferId : Id) : Prop :=
  ∃ key row, db.resolutions.row key = some row ∧ row.action = .reject ∧ row.transferId = transferId

def Db.Idle (db : Db) (transferId : Id) (row : ProcessingRow) : Prop :=
  row.processingState ∈ [ProcessingState.pending, .unmatched, .held] ∨
    (row.processingState = .resolved ∧ db.Rejected transferId)

structure AllocationRow.Backed (row : AllocationRow) (attemptId transferId : Id) (db : Db) :
    Prop where
  positive : 0 < row.allocatedRaw
  claim : ∃ claim, db.claims.row transferId = some claim ∧
    claim.paymentIntentId = row.paymentIntentId
  attempt : ∃ terms, db.attemptTerms attemptId = some terms ∧
    terms.paymentIntentId = row.paymentIntentId
  processing : ∃ processing, db.processing.row transferId = some processing

structure Ledger (db : Db) : Prop where
  booked : ∀ {t row}, db.processing.row t = some row → row.allocatedRaw = db.allocatedFrom t
  covered : ∀ {t row}, db.processing.row t = some row →
    ∃ transfer, db.transfers.row t = some transfer ∧ row.allocatedRaw ≤ transfer.amountRaw
  idle : ∀ {t row}, db.processing.row t = some row → (row.allocatedRaw = 0 ↔ db.Idle t row)
  rejected : ∀ {t}, db.Rejected t →
    ∃ row, db.processing.row t = some row ∧ row.processingState = .resolved
  allocation : ∀ {a t row}, db.allocations.row (a, t) = some row → row.Backed a t db
  single : ∀ {a b t row other}, db.allocations.row (a, t) = some row →
    db.allocations.row (b, t) = some other → a = b
  claim : ∀ {t claim}, db.claims.row t = some claim →
    ∃ a row, db.allocations.row (a, t) = some row ∧ row.paymentIntentId = claim.paymentIntentId

theorem Ledger.empty : Ledger {} where
  booked found := by cases found
  covered found := by cases found
  idle found := by cases found
  rejected := by rintro _ ⟨_, _, found, _⟩; cases found
  allocation found := by cases found
  single found := by cases found
  claim found := by cases found

section Keep
variable {config : Config} {log : Log Db Watch} {db : Db} {ws : List Write} {t : Id}

theorem AllocationRow.Backed.applyAll {row : AllocationRow} {a : Id}
    (backed : row.Backed a t db) (ws : List Write)
    (processing : ∃ row, (applyAll ws db).processing.row t = some row) :
    row.Backed a t (applyAll ws db) := by
  obtain ⟨positive, ⟨claim, claimed, owner⟩, ⟨terms, found, ofIntent⟩, _⟩ := backed
  exact ⟨positive, ⟨claim, (claims_inserts.persists t).applyAll claimed ws, owner⟩,
    ⟨terms, (attemptTerms_persists a).applyAll found ws, ofIntent⟩, processing⟩

def ledgerTables : List TableName := [.processing, .claims, .allocations, .resolutions]

theorem Ledger.frame (ledger : Ledger db) (out : ∀ w ∈ ws, w.table ∉ ledgerTables) :
    Ledger (applyAll ws db) := by
  have outside : ∀ n ∈ ledgerTables, ∀ w ∈ ws, w.table ≠ n := by
    rintro n member w mem rfl
    exact out w mem member
  have processing : (applyAll ws db).processing = db.processing :=
    processing_same (outside _ (by decide))
  have claims : (applyAll ws db).claims = db.claims := claims_same (outside _ (by decide))
  have allocations : (applyAll ws db).allocations = db.allocations :=
    allocations_same (outside _ (by decide))
  have resolutions : (applyAll ws db).resolutions = db.resolutions :=
    resolutions_same (outside _ (by decide))
  constructor
  · intro t row found
    rw [processing] at found
    rw [Db.allocatedFrom, allocations]
    exact ledger.booked found
  · intro t row found
    rw [processing] at found
    obtain ⟨transfer, stored, le⟩ := ledger.covered found
    exact ⟨transfer, (transfers_inserts.persists t).applyAll stored ws, le⟩
  · intro t row found
    rw [processing] at found
    rw [Db.Idle, Db.Rejected, resolutions]
    exact ledger.idle found
  · intro t
    rw [Db.Rejected, resolutions, processing]
    exact ledger.rejected
  · intro a t row found
    rw [allocations] at found
    refine (ledger.allocation found).applyAll ws ?_
    rw [processing]
    exact (ledger.allocation found).processing
  · rw [allocations]
    exact ledger.single
  · rw [allocations, claims]
    exact ledger.claim

theorem Ledger.reclassify (ledger : Ledger db) {row : ProcessingRow} (row' : ProcessingRow)
    (found : db.processing.row t = some row) (same : row'.allocatedRaw = row.allocatedRaw)
    (processing : (applyAll ws db).processing = db.processing.modify t fun _ => row')
    (claims : (applyAll ws db).claims = db.claims)
    (allocations : (applyAll ws db).allocations = db.allocations)
    (others : ∀ {j}, j ≠ t → ((applyAll ws db).Rejected j ↔ db.Rejected j))
    (idle : row'.allocatedRaw = 0 ↔ (applyAll ws db).Idle t row')
    (resolved : (applyAll ws db).Rejected t → row'.processingState = .resolved) :
    Ledger (applyAll ws db) := by
  have rows : ∀ {j new}, (applyAll ws db).processing.row j = some new →
      (j = t ∧ new = row') ∨ (j ≠ t ∧ db.processing.row j = some new) := by
    intro j new after
    rw [processing, Table.row_modify] at after
    split at after
    · rename_i eq
      rw [found] at after
      exact .inl ⟨eq, (Option.some.inj after).symm⟩
    · rename_i ne
      exact .inr ⟨ne, after⟩
  have stays : ∀ {j}, (∃ old, db.processing.row j = some old) →
      ∃ new, (applyAll ws db).processing.row j = some new := by
    rintro j ⟨old, stored⟩
    rw [processing, Table.row_modify]
    split
    · exact ⟨row', by rw [found]; rfl⟩
    · exact ⟨old, stored⟩
  constructor
  · intro j new after
    rw [Db.allocatedFrom, allocations]
    rcases rows after with ⟨rfl, rfl⟩ | ⟨_, old⟩
    · rw [same]; exact ledger.booked found
    · exact ledger.booked old
  · intro j new after
    obtain ⟨transfer, stored, le⟩ : ∃ transfer, db.transfers.row j = some transfer ∧
        new.allocatedRaw ≤ transfer.amountRaw := by
      rcases rows after with ⟨rfl, rfl⟩ | ⟨_, old⟩
      · rw [same]; exact ledger.covered found
      · exact ledger.covered old
    exact ⟨transfer, (transfers_inserts.persists j).applyAll stored ws, le⟩
  · intro j new after
    rcases rows after with ⟨rfl, rfl⟩ | ⟨ne, old⟩
    · exact idle
    · rw [Db.Idle, others ne]
      exact ledger.idle old
  · intro j rejection
    by_cases eq : j = t
    · subst eq
      exact ⟨row', by rw [processing, Table.row_modify_self, found]; rfl, resolved rejection⟩
    · obtain ⟨old, stored, state⟩ := ledger.rejected ((others eq).mp rejection)
      exact ⟨old, by rw [processing, Table.row_modify_ne eq]; exact stored, state⟩
  · intro a j new after
    rw [allocations] at after
    exact (ledger.allocation after).applyAll ws (stays (ledger.allocation after).processing)
  · rw [allocations]
    exact ledger.single
  · rw [allocations, claims]
    exact ledger.claim

theorem Ledger.unallocated (ledger : Ledger db) {a : Id} {row : ProcessingRow}
    (found : db.processing.row t = some row) (zero : row.allocatedRaw = 0) :
    db.allocations.row (a, t) = none := by
  cases stored : db.allocations.row (a, t) with
  | none => rfl
  | some allocation =>
    have positive := (ledger.allocation stored).positive
    have le := Table.le_total (fun key (row : AllocationRow) =>
      if key.2 = t then row.allocatedRaw else 0) stored
    have sum : db.allocatedFrom t = 0 := by rw [← ledger.booked found, zero]
    rw [Db.allocatedFrom] at sum
    simp [sum] at le
    omega

theorem Ledger.unclaimed (ledger : Ledger db) {row : ProcessingRow}
    (found : db.processing.row t = some row) (zero : row.allocatedRaw = 0) :
    db.claims.row t = none := by
  cases stored : db.claims.row t with
  | none => rfl
  | some claim =>
    obtain ⟨a, allocation, allocated, _⟩ := ledger.claim stored
    rw [ledger.unallocated found zero] at allocated
    cases allocated

theorem rejected_insert {operator : Id} {key : Text} {new : ResolutionRow} {db' : Db}
    (resolutions : db'.resolutions = db.resolutions.insert (operator, key) new)
    (other : new.action ≠ .reject ∨ new.transferId ≠ t) : db'.Rejected t ↔ db.Rejected t := by
  constructor
  · rintro ⟨k, row, found, action, of⟩
    rw [resolutions] at found
    rcases Table.row_insert_cases found with old | ⟨_, _, rfl⟩
    · exact ⟨k, row, old, action, of⟩
    · rcases other with no | no
      · exact absurd action no
      · exact absurd of no
  · rintro ⟨k, row, found, rest⟩
    refine ⟨k, row, ?_, rest⟩
    rw [resolutions]
    exact Table.row_insert_stored found _ _

namespace Payment
variable {p : Payment}

theorem Sound.rejected_after (sound : p.Sound config log db) (t : Id) :
    (applyAll (p.writes db) db).Rejected t ↔ db.Rejected t := by
  have authorized := sound.authorized
  have after : (applyAll (p.writes db) db).resolutions = _ := p.resolutions_after
  unfold Authorized at authorized
  unfold resolutionWrites at after
  cases who : p.authority with
  | automatic =>
    simp only [who] at after
    rw [Db.Rejected, after]; rfl
  | direct operator key row =>
    simp only [who] at after authorized
    exact rejected_insert after (.inl (by simp [authorized.2.2.1.action]))
  | approval operator key row proposalId reason =>
    simp only [who] at after authorized
    exact rejected_insert after (.inl (by simp [authorized.2.2.1.action]))

theorem Sound.zero (sound : p.Sound config log db) (ledger : Ledger db) :
    p.processing.allocatedRaw = 0 := by
  refine (ledger.idle sound.processing).mpr (.inl ?_)
  have authorized := sound.authorized
  unfold Authorized at authorized
  split at authorized
  · simp [authorized.1]
  · have state := authorized.1
    simp only [List.mem_cons, List.not_mem_nil, or_false] at state ⊢
    rcases state with held | unmatched
    · exact .inr (.inr held)
    · exact .inr (.inl unmatched)
  · have state := authorized.1
    simp only [List.mem_cons, List.not_mem_nil, or_false] at state ⊢
    rcases state with held | unmatched
    · exact .inr (.inr held)
    · exact .inr (.inl unmatched)

theorem Sound.allocatedFrom_after (sound : p.Sound config log db) (t : Id) :
    (applyAll (p.writes db) db).allocatedFrom t =
      (if p.command.transferId = t then p.allocateRaw else 0) + db.allocatedFrom t := by
  rw [Db.allocatedFrom, allocations_after sound.unallocated,
    Table.total_insert_fresh _ sound.unallocated, allocated_allocatedRaw]
  rfl

theorem Sound.allocatedTo_after (sound : p.Sound config log db) (a : Id) :
    (applyAll (p.writes db) db).allocatedTo a =
      (if p.command.attemptId = a then p.allocateRaw else 0) + db.allocatedTo a := by
  rw [Db.allocatedTo, allocations_after sound.unallocated,
    Table.total_insert_fresh _ sound.unallocated, allocated_allocatedRaw]
  rfl

theorem booked_allocatedRaw : p.booked.allocatedRaw = p.processing.allocatedRaw + p.allocateRaw :=
  rfl

theorem booked_state : p.booked.processingState = .settled ∨
    p.booked.processingState = .matched := by
  simp only [booked]
  split
  · exact .inl rfl
  · exact .inr rfl

theorem Sound.processing_rows (sound : p.Sound config log db) {t : Id} {row : ProcessingRow}
    (after : (applyAll (p.writes db) db).processing.row t = some row) :
    (t = p.command.transferId ∧ row = p.booked) ∨
      (t ≠ p.command.transferId ∧ db.processing.row t = some row) := by
  rw [processing_after, Table.row_modify] at after
  split at after
  · rename_i eq
    rw [sound.processing] at after
    exact .inl ⟨eq, (Option.some.inj after).symm⟩
  · rename_i ne
    exact .inr ⟨ne, after⟩

theorem Sound.processing_stays (sound : p.Sound config log db) {t : Id}
    (before : ∃ row, db.processing.row t = some row) :
    ∃ row, (applyAll (p.writes db) db).processing.row t = some row := by
  rw [processing_after, Table.row_modify]
  split
  · exact ⟨p.booked, by rw [sound.processing]; rfl⟩
  · exact before

theorem Sound.allocation_rows (sound : p.Sound config log db) {key : Id × Id}
    {row : AllocationRow} (after : (applyAll (p.writes db) db).allocations.row key = some row) :
    (key = (p.command.attemptId, p.command.transferId) ∧ row = p.allocated) ∨
      db.allocations.row key = some row := by
  rw [allocations_after sound.unallocated, Table.row_insert_fresh sound.unallocated] at after
  split at after
  · rename_i eq
    exact .inl ⟨eq, (Option.some.inj after).symm⟩
  · exact .inr after

theorem Sound.backed (sound : p.Sound config log db) :
    p.allocated.Backed p.command.attemptId p.command.transferId (applyAll (p.writes db) db) where
  positive := by simpa using sound.positive
  claim := ⟨claimOf p.command p.attempt,
    by rw [claims_after, Table.row_insert_fresh sound.unclaimed]; simp, by simp [claimOf]⟩
  attempt := ⟨p.attempt.toAttemptTerms, (attemptTerms_persists _).applyAll
    (by simp [Db.attemptTerms, sound.attempt]) _, by simpa using sound.ofIntent⟩
  processing := sound.processing_stays ⟨_, sound.processing⟩

end Payment

theorem Ledger.pay {p : Payment} (ledger : Ledger db) (sound : p.Sound config log db) :
    Ledger (applyAll (p.writes db) db) := by
  have zero := sound.zero ledger
  have positive := sound.positive
  constructor
  · intro t row after
    rw [sound.allocatedFrom_after]
    rcases sound.processing_rows after with ⟨rfl, rfl⟩ | ⟨ne, old⟩
    · rw [if_pos rfl, ← ledger.booked sound.processing, p.booked_allocatedRaw, Nat.add_comm]
    · rw [if_neg (Ne.symm ne), ledger.booked old, Nat.zero_add]
  · intro t row after
    rw [p.transfers_after]
    rcases sound.processing_rows after with ⟨rfl, rfl⟩ | ⟨_, old⟩
    · exact ⟨p.transfer, sound.transfer, sound.fits⟩
    · exact ledger.covered old
  · intro t row after
    rw [Db.Idle, sound.rejected_after]
    rcases sound.processing_rows after with ⟨rfl, rfl⟩ | ⟨_, old⟩
    · -- the booked row shows the payment, and its state is one of a paid transfer
      have state := p.booked_state
      constructor
      · intro none
        rw [p.booked_allocatedRaw] at none
        omega
      · rcases state with state | state <;> simp [state]
    · exact ledger.idle old
  · intro t rejection
    rw [sound.rejected_after] at rejection
    obtain ⟨row, found, resolved⟩ := ledger.rejected rejection
    rw [p.processing_after, Table.row_modify]
    split
    · rename_i eq
      subst eq
      cases found.symm.trans sound.processing
      have authorized := sound.authorized
      unfold Payment.Authorized at authorized
      split at authorized <;> simp [resolved] at authorized
    · exact ⟨row, found, resolved⟩
  · intro a t row after
    rcases sound.allocation_rows after with ⟨key, rfl⟩ | old
    · cases key; exact sound.backed
    · exact (ledger.allocation old).applyAll _
        (sound.processing_stays (ledger.allocation old).processing)
  · intro a b t row other first second
    have fresh : ∀ {c r}, db.allocations.row (c, p.command.transferId) ≠ some r := by
      intro c r stored
      rw [ledger.unallocated sound.processing zero] at stored
      cases stored
    rcases sound.allocation_rows first with ⟨key, _⟩ | old <;>
      rcases sound.allocation_rows second with ⟨key', _⟩ | old'
    · cases key; cases key'; rfl
    · cases key; exact absurd old' fresh
    · cases key'; exact absurd old fresh
    · exact ledger.single old old'
  · intro t claim after
    rw [p.claims_after] at after
    rw [Payment.allocations_after sound.unallocated]
    rcases Table.row_insert_cases after with old | ⟨_, rfl, rfl⟩
    · obtain ⟨a, row, stored, owner⟩ := ledger.claim old
      exact ⟨a, row, Table.row_insert_stored stored _ _, owner⟩
    · refine ⟨p.command.attemptId, p.allocated, ?_, by simp [claimOf]⟩
      rw [Table.row_insert_fresh sound.unallocated, if_pos rfl]

theorem Ledger.open_ (ledger : Ledger db) (transfer : TransferRow)
    (absent : db.processing.row t = none)
    (stored : (applyAll ws db).transfers.row t = some transfer)
    (processing : (applyAll ws db).processing = db.processing.insert t pendingProcessing)
    (out : ∀ w ∈ ws, w.table ∉ [TableName.claims, .allocations, .resolutions]) :
    Ledger (applyAll ws db) := by
  have outside : ∀ n ∈ [TableName.claims, .allocations, .resolutions], ∀ w ∈ ws, w.table ≠ n := by
    rintro n member w mem rfl
    exact out w mem member
  have claims : (applyAll ws db).claims = db.claims := claims_same (outside _ (by decide))
  have allocations : (applyAll ws db).allocations = db.allocations :=
    allocations_same (outside _ (by decide))
  have resolutions : (applyAll ws db).resolutions = db.resolutions :=
    resolutions_same (outside _ (by decide))
  have unallocated : db.allocatedFrom t = 0 := by
    refine Table.total_eq_zero _ fun key row found => ?_
    simp only [ite_eq_right_iff]
    rintro rfl
    obtain ⟨_, opened⟩ := (ledger.allocation found).processing
    rw [absent] at opened; cases opened
  have stays : ∀ {j}, (∃ old, db.processing.row j = some old) →
      ∃ new, (applyAll ws db).processing.row j = some new := by
    rintro j ⟨old, found⟩
    exact ⟨old, by rw [processing]; exact Table.row_insert_stored found _ _⟩
  constructor
  · intro j row after
    rw [processing] at after
    rw [Db.allocatedFrom, allocations]
    rcases Table.row_insert_cases after with old | ⟨_, rfl, rfl⟩
    · exact ledger.booked old
    · exact unallocated.symm
  · intro j row after
    rw [processing] at after
    rcases Table.row_insert_cases after with old | ⟨_, rfl, rfl⟩
    · obtain ⟨known, found, le⟩ := ledger.covered old
      exact ⟨known, (transfers_inserts.persists j).applyAll found ws, le⟩
    · exact ⟨transfer, stored, Nat.zero_le _⟩
  · intro j row after
    rw [processing] at after
    rw [Db.Idle, Db.Rejected, resolutions]
    rcases Table.row_insert_cases after with old | ⟨_, rfl, rfl⟩
    · exact ledger.idle old
    · simp [pendingProcessing]
  · intro j rejection
    rw [Db.Rejected, resolutions] at rejection
    obtain ⟨row, found, state⟩ := ledger.rejected rejection
    exact ⟨row, by rw [processing]; exact Table.row_insert_stored found _ _, state⟩
  · intro a j row after
    rw [allocations] at after
    exact (ledger.allocation after).applyAll ws (stays (ledger.allocation after).processing)
  · rw [allocations]
    exact ledger.single
  · rw [allocations, claims]
    exact ledger.claim

theorem Ledger.park (ledger : Ledger db) {row : ProcessingRow} {state : ProcessingState}
    {reason : Option Text} (found : db.processing.row t = some row)
    (pending : row.processingState = .pending)
    (idle : state ∈ [ProcessingState.pending, .unmatched, .held])
    (out : ∀ w ∈ ws, w.table ∉ ledgerTables) :
    Ledger (applyAll (.setProcessing t { row with processingState := state, lastError := reason }
      :: ws) db) := by
  have outside : ∀ n ∈ ledgerTables, ∀ w ∈ ws, w.table ≠ n := by
    rintro n member w mem rfl
    exact out w mem member
  have zero : row.allocatedRaw = 0 := (ledger.idle found).mpr (.inl (by simp [pending]))
  have unresolved : ¬ db.Rejected t := by
    intro rejection
    obtain ⟨_, stored, resolved⟩ := ledger.rejected rejection
    cases found.symm.trans stored
    rw [pending] at resolved; cases resolved
  have resolutions : (applyAll (.setProcessing t
      { row with processingState := state, lastError := reason } :: ws) db).resolutions =
      db.resolutions := by
    rw [applyAll_cons, resolutions_same (outside _ (by decide))]; rfl
  refine ledger.reclassify { row with processingState := state, lastError := reason } found rfl
    ?_ ?_ ?_ ?_ ?_ ?_
  · rw [applyAll_cons, processing_same (outside _ (by decide))]; rfl
  · rw [applyAll_cons, claims_same (outside _ (by decide))]; rfl
  · rw [applyAll_cons, allocations_same (outside _ (by decide))]; rfl
  · intro j _
    rw [Db.Rejected, resolutions]; rfl
  · exact ⟨fun _ => .inl idle, fun _ => zero⟩
  · rw [Db.Rejected, resolutions]
    exact fun rejection => absurd rejection unresolved

theorem Ledger.reject (ledger : Ledger db) {operator : Id} {key : Text} {new : ResolutionRow}
    {row : ProcessingRow} {reason : Option Text}
    (found : db.processing.row new.transferId = some row)
    (held : row.processingState ∈ [ProcessingState.held, .unmatched])
    (newKey : db.resolutions.row (operator, key) = none) (action : new.action = .reject) :
    Ledger (applyAll [.insertResolution operator key new, .setProcessing new.transferId
      { row with processingState := .resolved, lastError := reason }] db) := by
  have zero : row.allocatedRaw = 0 := by
    refine (ledger.idle found).mpr (.inl ?_)
    simp only [List.mem_cons, List.not_mem_nil, or_false] at held ⊢
    rcases held with state | state
    · exact .inr (.inr state)
    · exact .inr (.inl state)
  refine ledger.reclassify { row with processingState := .resolved, lastError := reason } found
    rfl rfl rfl rfl ?_ ?_ ?_
  · exact fun ne => rejected_insert rfl (.inr fun eq => ne eq.symm)
  · refine ⟨fun _ => .inr ⟨rfl, (operator, key), new, ?_, action, rfl⟩, fun _ => zero⟩
    exact (Table.row_insert_fresh newKey _ _).trans (if_pos rfl)
  · exact fun _ => rfl

theorem Ledger.dispose (ledger : Ledger db) {operator intentId : Id} {key : Text}
    {new : ResolutionRow} {disposition : DispositionRow} {row : ProcessingRow}
    (found : db.processing.row new.transferId = some row)
    (matched : row.processingState = .matched)
    (action : new.action = .recordRemainderDisposition) :
    Ledger (applyAll [.insertResolution operator key new,
      .insertDisposition new.transferId intentId disposition, .setProcessing new.transferId
        { row with processingState := .resolved, lastError := none }] db) := by
  have paid : row.allocatedRaw ≠ 0 := by
    intro zero
    have idle := (ledger.idle found).mp zero
    simp [Db.Idle, matched] at idle
  have unresolved : ¬ db.Rejected new.transferId := by
    intro rejection
    obtain ⟨_, stored, resolved⟩ := ledger.rejected rejection
    cases found.symm.trans stored
    rw [matched] at resolved; cases resolved
  refine ledger.reclassify { row with processingState := .resolved, lastError := none } found
    rfl rfl rfl rfl ?_ ?_ ?_
  · exact fun _ => rejected_insert rfl (.inl (by simp [action]))
  · refine ⟨fun zero => absurd zero paid, fun idle => ?_⟩
    rcases idle with state | ⟨_, rejection⟩
    · simp at state
    · exact absurd ((rejected_insert rfl (.inl (by simp [action]))).mp rejection) unresolved
  · exact fun _ => rfl

theorem Ledger.keep (ledger : Ledger db) (eff : Effect config log db ws) :
    Ledger (applyAll ws db) := by
  cases eff with
  | pay p sound => exact ledger.pay sound
  | park found pending attempt ofIntent noMoney =>
    refine ledger.park found pending (by simp) fun w mem => ?_
    rw [List.mem_singleton.mp mem, decisionWrite_table]
    decide
  | unresolved found pending notPaid =>
    exact ledger.park found pending (by simp) (by simp [Write.table, ledgerTables])
  | reject found held new action => exact ledger.reject found held new.unspent action
  | dispose found matched new action => exact ledger.dispose found matched action
  | @observe id fact _ _ _ judged newTransfer newState newProcessing =>
    refine ledger.open_ fact.transfer.row newProcessing ?_ ?_ fun w mem =>
      (by decide : ∀ n ∈ observeTables, n ∉ _) _ (observe_table mem)
    · rw [List.append_assoc, List.append_assoc, applyAll_append, ← List.append_assoc,
        transfers_same fun w mem =>
          (by decide : ∀ n ∈ advanceTables, n ≠ .transfers) _ (advance_table mem)]
      simp [Write.transfers, Table.row_insert_fresh newTransfer]
    · rw [List.append_assoc, List.append_assoc, applyAll_append, ← List.append_assoc,
        processing_same fun w mem =>
          (by decide : ∀ n ∈ advanceTables, n ≠ .processing) _ (advance_table mem)]
      rfl
  | aside only =>
    exact ledger.frame fun w mem =>
      (by decide : ∀ n ∈ asideTables, n ∉ ledgerTables) _ (only w mem)
  | issue q sound =>
    exact ledger.frame fun w mem =>
      (by decide : ∀ n ∈ issueTables, n ∉ ledgerTables) _ (Issue.writes_table mem)
  | sweep x sound =>
    exact ledger.frame fun w mem =>
      (by decide : ∀ n ∈ sweepTables, n ∉ ledgerTables) _ (Sweep.writes_table mem)
  | advance =>
    exact ledger.frame fun w mem =>
      (by decide : ∀ n ∈ advanceTables, n ∉ ledgerTables) _ (advance_table mem)
  | record =>
    exact ledger.frame fun w mem =>
      (by decide : ∀ n ∈ recordTables, n ∉ ledgerTables) _ (record_table mem)
  | purge =>
    refine ledger.frame fun w mem => ?_
    obtain ⟨_, _, rfl⟩ := List.mem_map.mp mem
    simp [Write.table, ledgerTables]
  | cancel =>
    refine ledger.frame fun w mem => ?_
    simp only [List.mem_append, List.mem_cons, List.not_mem_nil, or_false, List.mem_map] at mem
    rcases mem with ((rfl | rfl) | ⟨_, _, rfl⟩) | rfl <;> simp [Write.table, ledgerTables]
  | propose absent pending unresolved passed others =>
    refine ledger.frame fun w mem => ?_
    simp only [List.mem_append, List.mem_cons, List.not_mem_nil, or_false, List.mem_map] at mem
    rcases mem with ⟨_, _, rfl⟩ | rfl <;> simp [Write.table, ledgerTables]
  | clearRail =>
    refine ledger.frame fun w mem => ?_
    obtain ⟨_, _, rfl⟩ := List.mem_map.mp mem
    simp [Write.table, ledgerTables]
  | _ => exact ledger.frame (by simp [Write.table, ledgerTables])

end Keep
end CryptoGateway
