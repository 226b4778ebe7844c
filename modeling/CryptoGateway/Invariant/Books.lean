import CryptoGateway.Accounting
import CryptoGateway.Invariant.Ledger

/-!
The books of the settlement: a decision that moved money and the allocation that moved it come in
pairs, whatever replaces a result.
-/
namespace CryptoGateway
open Engine

structure AllocationRow.Recorded (row : AllocationRow) (attemptId transferId : Id) (db : Db) :
    Prop where
  decision : ∃ decision, db.decisions.row (row.paymentIntentId, transferId) = some decision ∧
    decision.outcome ∈ moneyOutcomes ∧ decision.allocatedRaw = row.allocatedRaw
  claim : ∃ claim, db.claims.row transferId = some claim ∧ claim.attemptId = attemptId ∧
    (claim.matchStrategy = .manual ↔ row.reason = .manual)

structure Books (db : Db) : Prop where
  allocation : ∀ {a t row}, db.allocations.row (a, t) = some row → row.Recorded a t db
  decision : ∀ {i t row}, db.decisions.row (i, t) = some row → row.outcome ∈ moneyOutcomes →
    ∃ a allocation, db.allocations.row (a, t) = some allocation ∧ allocation.paymentIntentId = i

theorem Books.empty : Books {} where
  allocation found := by cases found
  decision found := by cases found

section Keep
variable {config : Config} {log : Log Db Watch} {db : Db} {ws : List Write}

namespace Payment
variable {p : Payment}

@[simp] theorem signed_outcome (row : DecisionRow) : (p.signed row).outcome = row.outcome := by
  unfold signed
  split <;> rfl

@[simp] theorem signed_allocatedRaw (row : DecisionRow) :
    (p.signed row).allocatedRaw = row.allocatedRaw := by
  unfold signed
  split <;> rfl

@[simp] theorem signed_attemptId (row : DecisionRow) :
    (p.signed row).attemptId = row.attemptId := by
  unfold signed
  split <;> rfl

@[simp] theorem signed_matchStrategy (row : DecisionRow) :
    (p.signed row).matchStrategy = row.matchStrategy := by
  unfold signed
  split <;> rfl

@[simp] theorem decidedRow_result {command : SettlementCommand} {result : DecisionResult}
    (old : Option DecisionRow) : (decidedRow command result old).toDecisionResult = result := by
  cases old <;> rfl

theorem Sound.moves (sound : p.Sound config log db) : p.result.outcome ∈ moneyOutcomes := by
  have positive := sound.positive
  unfold allocateRaw SettlementOutcome.allocateRaw at positive
  unfold result SettlementOutcome.decision
  split at positive <;> simp_all [moneyOutcomes]

theorem allocated_reason (sound : p.Sound config log db) :
    p.command.matchStrategy = .manual ↔ p.allocated.reason = .manual := by
  rw [sound.strategy]
  unfold allocated
  split
  · rename_i who
    simp only [who, ne_eq, not_true_eq_false, false_iff]
    unfold allocation allocationOf allocationReason
    split <;> simp
  · rename_i who
    simp [who]
  · rename_i who
    simp [who]

theorem Sound.decision_after (sound : p.Sound config log db) :
    ∃ decision, (applyAll (p.writes db) db).decisions.row
        (p.command.paymentIntentId, p.command.transferId) = some decision ∧
      decision.outcome ∈ moneyOutcomes ∧ decision.allocatedRaw = p.allocateRaw := by
  refine ⟨_, (p.decisions_after _).trans (if_pos rfl), ?_, ?_⟩
  · rw [signed_outcome, decidedRow_result]
    exact sound.moves
  · rw [signed_allocatedRaw, decidedRow_result]
    rfl

theorem Sound.recorded (sound : p.Sound config log db) :
    p.allocated.Recorded p.command.attemptId p.command.transferId (applyAll (p.writes db) db) where
  decision := by simpa using sound.decision_after
  claim := ⟨claimOf p.command p.attempt,
    by rw [claims_after, Table.row_insert_fresh sound.unclaimed]; simp, rfl,
    allocated_reason sound⟩

end Payment

variable {row : AllocationRow}

theorem AllocationRow.Recorded.elsewhere {a t : Id}
    (recorded : row.Recorded a t db)
    (decisions : ∀ i, (applyAll ws db).decisions.row (i, t) = db.decisions.row (i, t)) :
    row.Recorded a t (applyAll ws db) := by
  obtain ⟨decision, claim, claimed, rest⟩ := recorded
  exact ⟨by rw [decisions]; exact decision, claim, (claims_inserts.persists t).applyAll
    claimed ws, rest⟩

theorem Parks.tables (parks : Parks db ws) (ledger : Ledger db) :
    (applyAll ws db).allocations = db.allocations ∧
      (∀ key row, (applyAll ws db).decisions.row key = some row →
        db.decisions.row key = some row ∨ row.outcome ∉ moneyOutcomes) ∧
      ∀ a t row, db.allocations.row (a, t) = some row →
        ∀ i, (applyAll ws db).decisions.row (i, t) = db.decisions.row (i, t) := by
  obtain @⟨command, processing, result, reason, found, pending, noMoney⟩ := parks
  have zero : processing.allocatedRaw = 0 :=
    (ledger.idle found).mpr (.inl (by simp [pending]))
  have decisions : ∀ key, (applyAll [.setProcessing command.transferId
      { processing with processingState := .held, lastError := some reason },
      decisionWrite command result db] db).decisions.row key = _ :=
    fun key => decisions_decisionWrite key
  refine ⟨?_, ?_, ?_⟩
  · rw [applyAll_cons, allocations_same (Payment.decisionWrite_other (by decide))]; rfl
  · intro key row after
    rw [decisions] at after
    split at after
    · cases after
      rw [Payment.decidedRow_result]
      rcases noMoney with held | manual
      · exact .inr (by simp [held, moneyOutcomes])
      · exact .inr (by simp [manual, moneyOutcomes])
    · exact .inl after
  · intro a t row stored i
    have other : t ≠ command.transferId := by
      rintro rfl
      rw [ledger.unallocated found zero] at stored; cases stored
    rw [decisions, if_neg (by simp [other])]

theorem Effect.allocation_origin (eff : Effect config log db ws) (ledger : Ledger db) {a t : Id}
    (after : (applyAll ws db).allocations.row (a, t) = some row) :
    (db.allocations.row (a, t) = some row ∧
        ∀ i, (applyAll ws db).decisions.row (i, t) = db.decisions.row (i, t)) ∨
      ∃ p : Payment, p.Sound config log db ∧ ws = p.writes db ∧ a = p.command.attemptId ∧
        t = p.command.transferId ∧ row = p.allocated := by
  rcases eff.pay_or_park with ⟨p, sound, rfl⟩ | parks | other
  · rcases sound.allocation_rows after with ⟨key, rfl⟩ | old
    · cases key
      exact .inr ⟨p, sound, rfl, rfl, rfl, rfl⟩
    · have elsewhere : t ≠ p.command.transferId := by
        rintro rfl
        rw [ledger.unallocated sound.processing (sound.zero ledger)] at old; cases old
      exact .inl ⟨old, fun i => by rw [p.decisions_after, if_neg (by simp [elsewhere])]⟩
  · obtain ⟨allocations, _, decisions⟩ := parks.tables ledger
    rw [allocations] at after
    exact .inl ⟨after, decisions a t row after⟩
  · rw [allocations_same fun w mem eq => other w mem (by simp [eq, moneyTables])] at after
    refine .inl ⟨after, fun i => ?_⟩
    rw [decisions_same fun w mem eq => other w mem (by simp [eq, moneyTables])]

theorem Effect.decision_origin (eff : Effect config log db ws) (ledger : Ledger db) {i t : Id}
    {row : DecisionRow} (after : (applyAll ws db).decisions.row (i, t) = some row)
    (money : row.outcome ∈ moneyOutcomes) : db.decisions.row (i, t) = some row ∨
      ∃ p : Payment, p.Sound config log db ∧ ws = p.writes db ∧ i = p.command.paymentIntentId ∧
        t = p.command.transferId ∧
        row = p.signed (decidedRow p.command p.result (db.decisions.row (i, t))) := by
  rcases eff.pay_or_park with ⟨p, sound, rfl⟩ | parks | other
  · rw [p.decisions_after] at after
    split at after
    · rename_i key
      cases key
      exact .inr ⟨p, sound, rfl, rfl, rfl, (Option.some.inj after).symm⟩
    · exact .inl after
  · exact .inl (((parks.tables ledger).2.1 _ _ after).resolve_right (not_not_intro money))
  · rw [decisions_same fun w mem eq => other w mem (by simp [eq, moneyTables])] at after
    exact .inl after

theorem Effect.allocation_stays (eff : Effect config log db ws) {key : Id × Id}
    (stored : db.allocations.row key = some row) :
    (applyAll ws db).allocations.row key = some row := by
  rcases eff.pay_or with ⟨p, sound, rfl⟩ | other
  · rw [Payment.allocations_after sound.unallocated]
    exact Table.row_insert_stored stored _ _
  · rw [allocations_same fun w mem eq => other w mem (by simp [eq])]
    exact stored

theorem Books.keep (books : Books db) (ledger : Ledger db) (eff : Effect config log db ws) :
    Books (applyAll ws db) := by
  constructor
  · intro a t row after
    rcases eff.allocation_origin ledger after with ⟨old, same⟩ | ⟨p, sound, rfl, rfl, rfl, rfl⟩
    · exact (books.allocation old).elsewhere same
    · exact sound.recorded
  · intro i t row after money
    rcases eff.decision_origin ledger after money with old | ⟨p, sound, rfl, rfl, rfl, _⟩
    · obtain ⟨a, allocation, stored, owner⟩ := books.decision old money
      exact ⟨a, allocation, eff.allocation_stays stored, owner⟩
    · refine ⟨p.command.attemptId, p.allocated, ?_, by simp⟩
      rw [Payment.allocations_after sound.unallocated]
      exact (Table.row_insert_fresh sound.unallocated _ _).trans (if_pos rfl)

end Keep
end CryptoGateway
