import CryptoGateway.Runs

/-!
What becomes of a transfer: its money is booked once, and an allocation binds it to an attempt
whose address, asset and window it fits.
-/
namespace CryptoGateway
open Engine

section
variable {config : Config} {log : Log Db Watch} {db : Db} {ws : List Write}

theorem processed_persists (t : Id) :
    Persists fun db : Db => (db.processing.row t).map fun _ => () := by
  intro w db v held
  cases w with
  | insertProcessing k row => exact map_row_insert held k row
  | setProcessing k row =>
    exact (Table.map_row_modify (fun _ : ProcessingRow => row) (fun _ => rfl) _ k t).trans held
  | _ => exact held

theorem Effect.insertTransfer_processing (eff : Effect config log db ws) {t : Id}
    {row : TransferRow} (mem : .insertTransfer t row ∈ ws) :
    .insertProcessing t pendingProcessing ∈ ws := by
  cases eff with
  | observe =>
    simp [attestationWrites, StateStep.writes] at mem
    simp [mem.1]
  | aside only => exact absurd (only _ mem) (by simp [Write.table, asideTables])
  | pay p => cases p.isDecision_of_mem mem
  | park => cases isDecision_of_mem_park mem
  | _ => simp [Issue.writes, Sweep.writes, Expiry.writes, Sweep.archiveWrites,
      attestationWrites, StateStep.writes] at mem

def Processed (db : Db) : Prop :=
  ∀ t transfer, db.transfers.row t = some transfer → ∃ row, db.processing.row t = some row

theorem Processed.keep (processed : Processed db) (eff : Effect config log db ws) :
    Processed (applyAll ws db) := by
  intro t transfer after
  have held : ((applyAll ws db).processing.row t).map (fun _ => ()) = some () := by
    rcases transfers_inserts.origin after with old | new
    · obtain ⟨row, found⟩ := processed t transfer old
      exact (processed_persists t).applyAll (by rw [found]; rfl) ws
    · refine (processed_persists t).applyAll_mem (eff.insertTransfer_processing new) ?_ db
      intro db
      simp [Write.processing, Table.row_insert]
  obtain ⟨row, found, _⟩ := Option.map_eq_some_iff.mp held
  exact ⟨row, found⟩

end

/-- In every run, a transfer's processing row says how much of it is allocated, at most its amount;
    the money is in one allocation for the intent that owns the claim; none is allocated exactly
    while the transfer waits or was rejected. -/
theorem transfer_conserved {config : Config} {allow : Gateway → Event Request → Prop} {s : Gateway}
    (reached : Reached config allow s) {t : Id} {transfer : TransferRow}
    (found : s.db.transfers.row t = some transfer) :
    ∃ row, s.db.processing.row t = some row ∧
      row.allocatedRaw = s.db.allocatedFrom t ∧ row.allocatedRaw ≤ transfer.amountRaw ∧
      (∀ a b allocation other, s.db.allocations.row (a, t) = some allocation →
        s.db.allocations.row (b, t) = some other → a = b) ∧
      (∀ a allocation, s.db.allocations.row (a, t) = some allocation →
        ∃ claim, s.db.claims.row t = some claim ∧
          claim.paymentIntentId = allocation.paymentIntentId) ∧
      (row.allocatedRaw = 0 ↔ s.db.Idle t row) := by
  have ledger := reached.sane.ledger
  have processed : Processed s.db := reached.keeps (fun _ _ none => by cases none)
    fun _ _ _ _ _ _ _ _ eff processed => processed.keep eff
  obtain ⟨row, stored⟩ := processed t transfer found
  obtain ⟨transfer', same, fits⟩ := ledger.covered stored
  cases found.symm.trans same
  exact ⟨row, stored, ledger.booked stored, fits,
    fun a b allocation other first second => ledger.single first second,
    fun a allocation allocated => (ledger.allocation allocated).claim, ledger.idle stored⟩

namespace Sample

theorem transfer_conserved_settled :
    ∃ s transfer row, Reached config anyStep s ∧ s.db.transfers.row 6 = some transfer ∧
      s.db.processing.row 6 = some row ∧ row.allocatedRaw = s.db.allocatedFrom 6 ∧
      s.db.allocatedFrom 6 = 100 := by
  have reached := Gateway.after_reached config anyStep settled
  obtain ⟨transfer, found, _⟩ := Option.map_eq_some_iff.mp (by decide +kernel :
    ((Gateway.after config anyStep settled).db.transfers.row 6).map (·.amountRaw) = some 100)
  obtain ⟨row, stored, booked, _⟩ := transfer_conserved reached found
  exact ⟨_, transfer, row, reached, found, stored, booked, by decide +kernel⟩

end Sample

def honoredTransfers (ws : List Write) : List (Id × Id) :=
  ws.filterMap fun
    | .setAllocationActor attempt transfer _ => some (attempt, transfer)
    | _ => none

def HonorsWithinLease (_ : Log Db Watch) (db : Db) (ws : List Write) : Prop :=
  ∀ e ∈ honoredTransfers ws, ∀ attempt ∈ db.attempts.row e.1, ∀ transfer ∈ db.transfers.row e.2,
    attempt.createdAt ≤ transfer.blockTime

instance (log : Log Db Watch) (db : Db) (ws : List Write) :
    Decidable (HonorsWithinLease log db ws) :=
  inferInstanceAs (Decidable (∀ e ∈ honoredTransfers ws, _))

structure Bound (db : Db) (a t : Id) (terms : AttemptTerms) (transfer : TransferRow) : Prop where
  ofAttempt : db.attemptTerms a = some terms
  ofTransfer : db.transfers.row t = some transfer
  collector : transfer.collectorAddressId = terms.collectorAddressId
  asset : ∃ quote, db.quotes.row terms.quoteId = some quote ∧
    quote.plan.assetId = transfer.assetId
  final : db.Final t
  from_ : terms.createdAt ≤ transfer.blockTime
  until_ : transfer.blockTime < terms.latePaymentUntil

def AllBound (db : Db) : Prop :=
  ∀ a t allocation, db.allocations.row (a, t) = some allocation →
    ∃ terms transfer, Bound db a t terms transfer

section
variable {config : Config} {log : Log Db Watch} {db : Db} {ws : List Write}

theorem Bound.keep {a t : Id} {terms : AttemptTerms} {transfer : TransferRow}
    (bound : Bound db a t terms transfer) (eff : Effect config log db ws) :
    Bound (applyAll ws db) a t terms transfer := by
  obtain ⟨quote, stored, asset⟩ := bound.asset
  exact
    { bound with
      ofAttempt := (attemptTerms_persists a).applyAll bound.ofAttempt ws
      ofTransfer := (transfers_inserts.persists t).applyAll bound.ofTransfer ws
      asset := ⟨quote, (quotes_inserts.persists _).applyAll stored ws, asset⟩
      final := eff.final_stays bound.final }

theorem Payment.mem_honored {p : Payment} (operator : OperatorCredential) (reason : Text)
    (actor : ∀ w ∈ p.actorWrites operator reason, w ∈ p.writes db) :
    (p.command.attemptId, p.command.transferId) ∈ honoredTransfers (p.writes db) :=
  List.mem_filterMap.mpr
    ⟨.setAllocationActor p.command.attemptId p.command.transferId operator.label,
      actor _ (by simp [Payment.actorWrites]), rfl⟩

theorem Payment.Sound.sinceLease {p : Payment} (sound : p.Sound config log db)
    (within : HonorsWithinLease log db (p.writes db)) :
    p.attempt.createdAt ≤ p.transfer.blockTime := by
  have authorized := sound.authorized
  unfold Payment.Authorized at authorized
  cases who : p.authority with
  | automatic =>
    simp only [who] at authorized
    exact authorized.2
  | direct operator key row =>
    refine within _ (Payment.mem_honored operator row.reason ?_) _
      sound.attempt _ sound.transfer
    intro w mem
    simp [Payment.writes, Payment.operatorWrites, who, mem]
  | approval operator key row proposalId reason =>
    refine within _ (Payment.mem_honored operator row.reason ?_) _
      sound.attempt _ sound.transfer
    intro w mem
    simp [Payment.writes, Payment.operatorWrites, who, mem]

theorem Payment.Sound.bound {p : Payment} (sound : p.Sound config log db) (links : Links db)
    (within : HonorsWithinLease log db (p.writes db)) :
    Bound db p.command.attemptId p.command.transferId p.attempt.toAttemptTerms p.transfer := by
  have attempt : db.attemptTerms p.command.attemptId = some p.attempt.toAttemptTerms := by
    simp [Db.attemptTerms, sound.attempt]
  obtain ⟨quote, stored, _, _, asset⟩ := (links.attempt attempt).quote
  have same := links.transfer sound.transfer
  rw [sound.collector] at same
  exact
    { ofAttempt := attempt
      ofTransfer := sound.transfer
      collector := sound.collector
      asset := ⟨quote, stored, Option.some.inj (asset.symm.trans same)⟩
      final := sound.final
      from_ := sound.sinceLease within
      until_ := sound.inWindow }

theorem AllBound.keep (all : AllBound db) (sane : Sane config db) (eff : Effect config log db ws)
    (within : HonorsWithinLease log db ws) : AllBound (applyAll ws db) := by
  intro a t allocation after
  have known : (∃ terms transfer, Bound db a t terms transfer) →
      ∃ terms transfer, Bound (applyAll ws db) a t terms transfer := by
    rintro ⟨terms, transfer, bound⟩
    exact ⟨terms, transfer, bound.keep eff⟩
  rcases eff.pay_or with ⟨p, sound, rfl⟩ | other
  · rcases sound.allocation_rows after with ⟨key, _⟩ | old
    · cases key
      exact known ⟨_, _, sound.bound sane.links within⟩
    · exact known (all a t allocation old)
  · rw [allocations_same fun w mem eq => other w mem (by simp [eq])] at after
    exact known (all a t allocation after)

/-- In every run in which operators honor no transfer from before the attempt's
    lease, every allocation's transfer is bound to its attempt, and it lies in the
    window of every lease the attempt has or had. -/
theorem allocation_bound_to_attempt {s : Gateway}
    (reached : Reached config (OnCommit HonorsWithinLease) s) {a t : Id} {row : AllocationRow}
    (found : s.db.allocations.row (a, t) = some row) :
    ∃ terms transfer, Bound s.db a t terms transfer ∧
      (∀ id lease, s.db.leases.row id = some lease → lease.attemptId = a →
        lease.leasedFrom ≤ transfer.blockTime) ∧
      ∀ id lease, s.db.leaseHistory.row id = some lease → lease.attemptId = a →
        lease.leasedFrom ≤ transfer.blockTime := by
  have all : AllBound s.db := reached.keeps_onCommit (fun _ _ _ none => by cases none)
    fun _ _ _ sane eff within all => all.keep sane eff within
  obtain ⟨terms, transfer, bound⟩ := all a t row found
  have window : ∀ w : Window, w.Linked s.db → w.attemptId = a →
      w.leasedFrom ≤ transfer.blockTime := by
    rintro w ⟨terms', stored, _, _, from_, _⟩ rfl
    cases bound.ofAttempt.symm.trans stored
    rw [← from_]
    exact bound.from_
  have links := reached.sane.links
  exact ⟨terms, transfer, bound,
    fun id lease stored of => window _ (links.lease stored) of,
    fun id lease stored of => window _ (links.history stored) of⟩

end

namespace Sample

theorem allocation_bound_to_attempt_settled :
    ∃ s row terms transfer, Reached config (OnCommit HonorsWithinLease) s ∧
      s.db.allocations.row (3, 6) = some row ∧ Bound s.db 3 6 terms transfer := by
  have reached := Gateway.after_reached config (OnCommit HonorsWithinLease) settled
  obtain ⟨row, found, _⟩ := Option.map_eq_some_iff.mp (by decide +kernel :
    ((Gateway.after config (OnCommit HonorsWithinLease) settled).db.allocations.row (3, 6)).map
      (·.allocatedRaw) = some 100)
  obtain ⟨terms, transfer, bound, _⟩ := allocation_bound_to_attempt reached found
  exact ⟨_, row, terms, transfer, reached, found, bound⟩

def honoredTooEarly : List (Slice Request) :=
  opening ++ whole 5 0 (transfer 0 40 (-1)) ++ whole 6 0 (.settlePending lease 10) ++
    whole 7 0 (.resolveManual (operator 9) (key 'd') (honor 5 40))

theorem honoredTooEarly_outside_window :
    Reached config anyStep (Gateway.after config anyStep honoredTooEarly) ∧
      ((Gateway.after config anyStep honoredTooEarly).db.allocations.row (3, 5)).map
        (·.allocatedRaw) = some 40 ∧
      ((Gateway.after config anyStep honoredTooEarly).db.leases.row 4).map
        (fun lease => (lease.attemptId, lease.leasedFrom)) = some (3, 0) ∧
      ((Gateway.after config anyStep honoredTooEarly).db.transfers.row 5).map (·.blockTime) =
        some (-1) :=
  ⟨Gateway.after_reached _ _ _, by decide +kernel, by decide +kernel, by decide +kernel⟩

end Sample
end CryptoGateway
