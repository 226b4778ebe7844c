import CryptoGateway.Effects
import CryptoGateway.Storage.Frames

/-!
The tables after a payment, one by one.
-/
namespace CryptoGateway
open Engine
namespace Payment
variable {p : Payment} {db : Db} {n : TableName}

theorem resolutionWrites_other (out : n ≠ .resolutions) :
    ∀ w ∈ p.resolutionWrites, w.table ≠ n := by
  unfold resolutionWrites
  split <;> simp [Write.table, out.symm]

theorem bookWrites_other (out : n ∉ [TableName.claims, .processing, .allocations]) :
    ∀ w ∈ p.bookWrites, w.table ≠ n := by
  simp only [List.mem_cons, List.not_mem_nil, or_false, not_or] at out
  simp [bookWrites, Write.table, Ne.symm out.1, Ne.symm out.2.1, Ne.symm out.2.2]

theorem statusWrites_other (out : n ∉ [TableName.attempts, .intents, .fulfillments, .events]) :
    ∀ w ∈ p.statusWrites db, w.table ≠ n := by
  simp only [List.mem_cons, List.not_mem_nil, or_false, not_or] at out
  unfold statusWrites fulfillmentWrites
  split
  · split <;> simp [Write.table, Ne.symm out.1, Ne.symm out.2.1, Ne.symm out.2.2.1,
      Ne.symm out.2.2.2]
  · simp [Write.table, Ne.symm out.2.1, Ne.symm out.2.2.2]

theorem decisionWrite_other {command : SettlementCommand} {result : DecisionResult}
    (out : n ≠ .decisions) : ∀ w ∈ [decisionWrite command result db], w.table ≠ n := by
  simp [decisionWrite_table, out.symm]

theorem remainderWrites_other (out : n ≠ .events) : ∀ w ∈ p.remainderWrites, w.table ≠ n := by
  unfold remainderWrites
  split <;> simp [Write.table, out.symm]

theorem operatorWrites_other (out : n ∉ [TableName.allocations, .decisions, .proposals]) :
    ∀ w ∈ p.operatorWrites, w.table ≠ n := by
  simp only [List.mem_cons, List.not_mem_nil, or_false, not_or] at out
  unfold operatorWrites actorWrites
  split <;> simp [Write.table, Ne.symm out.1, Ne.symm out.2.1, Ne.symm out.2.2]

/-- A write of a payment with the part it belongs to, as its table tells. -/
theorem part_of_mem {w : Write} (mem : w ∈ p.writes db) :
    (w.table = .resolutions ∧ w ∈ p.resolutionWrites) ∨
    (w.table ∈ [TableName.claims, .processing, .allocations] ∧ w ∈ p.bookWrites) ∨
    (w.table ∈ [TableName.attempts, .intents, .fulfillments, .events] ∧ w ∈ p.statusWrites db) ∨
    (w.table = .decisions ∧ w = decisionWrite p.command p.result db) ∨
    (w.table = .events ∧ w ∈ p.remainderWrites) ∨
    (w.table ∈ [TableName.allocations, .decisions, .proposals] ∧ w ∈ p.operatorWrites) := by
  by_contra out
  simp only [writes, List.mem_append] at mem
  rcases mem with ((((mem | mem) | mem) | mem) | mem) | mem
  · exact resolutionWrites_other (by tauto) w mem rfl
  · exact bookWrites_other (by tauto) w mem rfl
  · exact statusWrites_other (by tauto) w mem rfl
  · cases List.mem_singleton.mp mem
    exact out (by simp [decisionWrite_table])
  · exact remainderWrites_other (by tauto) w mem rfl
  · exact operatorWrites_other (by tauto) w mem rfl

section View
variable {α : Type} {view : Db → α}
  (same : ∀ {ws db}, (∀ w ∈ ws, w.table ≠ n) → view (applyAll ws db) = view db)
include same

theorem before_status (out : n ∉ [TableName.resolutions, .claims, .processing, .allocations]) :
    view (applyAll p.bookWrites (applyAll p.resolutionWrites db)) = view db := by
  simp only [List.mem_cons, List.not_mem_nil, or_false, not_or] at out
  rw [same (bookWrites_other (by simp [out])), same (resolutionWrites_other out.1)]

theorem after_status (out : n ∉ [TableName.events, .allocations, .decisions, .proposals]) :
    view (applyAll (p.writes db) db) =
      view (applyAll (p.statusWrites db)
        (applyAll p.bookWrites (applyAll p.resolutionWrites db))) := by
  simp only [List.mem_cons, List.not_mem_nil, or_false, not_or] at out
  simp only [writes, applyAll_append]
  rw [same (operatorWrites_other (by simp [out])), same (remainderWrites_other out.1),
    same (decisionWrite_other out.2.2.1)]

end View

theorem processing_after : (applyAll (p.writes db) db).processing =
      db.processing.modify p.command.transferId fun _ => p.booked := by
  rw [after_status processing_same (by decide), processing_same (statusWrites_other (by decide))]
  simp [bookWrites, Write.processing, processing_same (resolutionWrites_other (by decide))]

theorem claims_after : (applyAll (p.writes db) db).claims =
      db.claims.insert p.command.transferId (claimOf p.command p.attempt) := by
  rw [after_status claims_same (by decide), claims_same (statusWrites_other (by decide))]
  simp [bookWrites, Write.claims, claims_same (resolutionWrites_other (by decide))]

theorem transfers_after : (applyAll (p.writes db) db).transfers = db.transfers := by
  rw [after_status transfers_same (by decide), transfers_same (statusWrites_other (by decide)),
    before_status transfers_same (by decide)]

theorem resolutions_after :
    (applyAll (p.writes db) db).resolutions = (applyAll p.resolutionWrites db).resolutions := by
  rw [after_status resolutions_same (by decide), resolutions_same (statusWrites_other (by decide)),
    resolutions_same (bookWrites_other (by decide))]

def allocated (p : Payment) : AllocationRow :=
  match p.authority with
  | .automatic => p.allocation
  | .direct operator _ _ => { p.allocation with allocatedBy := operator.label, reason := .manual }
  | .approval operator _ _ _ _ =>
      { p.allocation with allocatedBy := operator.label, reason := .manual }

@[simp] theorem allocated_paymentIntentId :
    p.allocated.paymentIntentId = p.command.paymentIntentId := by
  unfold allocated
  split <;> rfl

@[simp] theorem allocated_allocatedRaw : p.allocated.allocatedRaw = p.allocateRaw := by
  unfold allocated
  split <;> rfl

theorem allocations_after
    (absent : db.allocations.row (p.command.attemptId, p.command.transferId) = none) :
    (applyAll (p.writes db) db).allocations =
      db.allocations.insert (p.command.attemptId, p.command.transferId) p.allocated := by
  have booked : (applyAll (p.resolutionWrites ++ p.bookWrites ++ p.statusWrites db ++
      [decisionWrite p.command p.result db] ++ p.remainderWrites) db).allocations =
      db.allocations.insert (p.command.attemptId, p.command.transferId) p.allocation := by
    simp only [applyAll_append]
    rw [allocations_same (remainderWrites_other (by decide)),
      allocations_same (decisionWrite_other (by decide)),
      allocations_same (statusWrites_other (by decide))]
    simp [bookWrites, Write.allocations, allocations_same (resolutionWrites_other (by decide))]
  rw [writes, applyAll_append]
  generalize applyAll _ db = after at booked ⊢
  unfold operatorWrites allocated
  cases p.authority <;>
    simp [actorWrites, Write.allocations, booked, Table.modify_insert_fresh absent]

theorem attempts_after :
    (applyAll (p.writes db) db).attempts =
      if p.completes then db.attempts.modify p.command.attemptId ({ · with status := .settled })
      else db.attempts := by
  rw [after_status attempts_same (by decide)]
  have before : Db.attempts (applyAll p.bookWrites _) = db.attempts :=
    before_status attempts_same (by decide)
  unfold statusWrites fulfillmentWrites
  split
  · split <;> simp [Write.attempts, before]
  · simp [Write.attempts, before]

theorem attempt_after (found : db.attempts.row p.command.attemptId = some p.attempt) :
    (applyAll (p.writes db) db).attempts.row p.command.attemptId =
      some { p.attempt with status := if p.completes then .settled else p.attempt.status } := by
  rw [attempts_after]
  split
  · simp [found]
  · exact found

theorem attempts_other {a : Id} (ne : a ≠ p.command.attemptId) :
    (applyAll (p.writes db) db).attempts.row a = db.attempts.row a := by
  rw [attempts_after]
  split
  · exact Table.row_modify_ne ne _
  · rfl

theorem intents_after :
    (applyAll (p.writes db) db).intents =
      db.intents.modify p.command.paymentIntentId
        ({ · with status := if p.completes then .paid else .partiallyPaid }) := by
  rw [after_status intents_same (by decide)]
  have before : Db.intents (applyAll p.bookWrites _) = db.intents :=
    before_status intents_same (by decide)
  unfold statusWrites fulfillmentWrites
  split
  · split <;> simp [Write.intents, before]
  · simp [Write.intents, before]

theorem fulfillments_after :
    (applyAll (p.writes db) db).fulfillments =
      if p.completes then
        db.fulfillments.insert p.command.paymentIntentId (fulfillmentOf p.command p.decidedAt)
      else db.fulfillments := by
  rw [after_status fulfillments_same (by decide)]
  have before : Db.fulfillments (applyAll p.bookWrites _) = db.fulfillments :=
    before_status fulfillments_same (by decide)
  unfold statusWrites fulfillmentWrites
  split
  · split
    · rename_i stored
      simp [Write.fulfillments, before, Table.insert_stored stored]
    · simp [Write.fulfillments, before]
  · simp [Write.fulfillments, before]

end Payment

/-- The row that `ON CONFLICT DO UPDATE` leaves: of a stored decision only the result
    is replaced. -/
def decidedRow (command : SettlementCommand) (result : DecisionResult) :
    Option DecisionRow → DecisionRow
  | none =>
    { toDecisionResult := result
      attemptId := command.attemptId
      merchantId := command.merchantId
      fiatAmountMinor := command.fiatAmountMinor
      matchStrategy := command.matchStrategy
      decidedBy := settlementActor }
  | some row => { row with toDecisionResult := result }

theorem decisions_decisionWrite {command : SettlementCommand} {result : DecisionResult} {db : Db}
    (key : Id × Id) :
    ((decisionWrite command result db).decisions db.decisions).row key =
      if key = (command.paymentIntentId, command.transferId) then
        some (decidedRow command result (db.decisions.row key))
      else db.decisions.row key := by
  unfold decisionWrite
  split
  · rename_i absent
    rw [Write.decisions, Table.row_insert_fresh absent]
    split
    · rename_i same
      rw [same, absent]; rfl
    · rfl
  · rename_i row stored
    rw [Write.decisions, Table.row_modify, stored]
    split
    · rename_i same
      rw [same, stored]; rfl
    · rfl

namespace Payment
variable {p : Payment} {db : Db}

def signed (p : Payment) (row : DecisionRow) : DecisionRow :=
  match p.authority with
  | .automatic => row
  | .direct operator _ resolution =>
      { row with decidedBy := operator.label, decidedReason := resolution.reason }
  | .approval operator _ resolution _ _ =>
      { row with decidedBy := operator.label, decidedReason := resolution.reason }

theorem decisions_after (key : Id × Id) :
    (applyAll (p.writes db) db).decisions.row key =
      if key = (p.command.paymentIntentId, p.command.transferId) then
        some (p.signed (decidedRow p.command p.result (db.decisions.row key)))
      else db.decisions.row key := by
  have before : (applyAll (p.resolutionWrites ++ p.bookWrites ++ p.statusWrites db) db).decisions =
      db.decisions := by
    simp only [applyAll_append]
    rw [decisions_same (statusWrites_other (by decide)),
      decisions_same (bookWrites_other (by decide)),
      decisions_same (resolutionWrites_other (by decide))]
  have decided : ∀ key, (applyAll (p.resolutionWrites ++ p.bookWrites ++ p.statusWrites db ++
      [decisionWrite p.command p.result db] ++ p.remainderWrites) db).decisions.row key =
      if key = (p.command.paymentIntentId, p.command.transferId) then
        some (decidedRow p.command p.result (db.decisions.row key))
      else db.decisions.row key := by
    intro key
    rw [applyAll_append, decisions_same (remainderWrites_other (by decide)), applyAll_append,
      applyAll_cons, applyAll_nil, apply_decisions, before]
    exact decisions_decisionWrite key
  rw [writes, applyAll_append]
  generalize applyAll _ db = after at decided ⊢
  unfold operatorWrites signed
  cases p.authority with
  | automatic => exact decided key
  | direct operator k row =>
    simp only [actorWrites, applyAll_cons, applyAll_nil, apply_decisions, Write.decisions,
      Table.row_modify, decided]
    split <;> simp_all
  | approval operator k row proposalId reason =>
    simp only [actorWrites, List.cons_append, List.nil_append, applyAll_cons, applyAll_nil,
      apply_decisions, Write.decisions, Table.row_modify, decided]
    split <;> simp_all

end Payment
end CryptoGateway
