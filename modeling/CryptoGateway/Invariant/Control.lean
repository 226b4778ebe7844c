import CryptoGateway.Invariant.Ledger
import CryptoGateway.Invariant.Lifecycle

/-!
Dual control: what a manual allocation at or above the threshold leaves in the
proposals.
-/
namespace CryptoGateway
open Engine

structure ProposalRow.Covers (proposal : ProposalRow) (attemptId transferId : Id)
    (row : AllocationRow) : Prop where
  approved : proposal.status = .approved
  transferId : proposal.transferId = transferId
  paymentIntentId : proposal.paymentIntentId = row.paymentIntentId
  attemptId : proposal.attemptId = attemptId
  allocateRaw : proposal.allocateRaw = row.allocatedRaw
  other : ∃ approver, proposal.decidedByKeyId = some approver ∧ approver ≠ proposal.proposerKeyId
  inTime : ∃ at_, proposal.decidedAt = some at_ ∧ at_ < proposal.expiresAt

structure ProposalDecision.Spends (decision : ProposalDecision) (operator : Id) (key : Text)
    (row : ResolutionRow) : Prop where
  approved : decision.status = .approved
  decidedByKeyId : decision.decidedByKeyId = some operator
  decisionIdempotencyKey : decision.decisionIdempotencyKey = some key
  resolutionId : decision.resolutionId = some row.id

structure Control (config : Config) (db : Db) : Prop where
  approved : ∀ {a t row}, db.allocations.row (a, t) = some row → row.reason = .manual →
    config.honorPolicy.requiresSecondOperator row.allocatedRaw = true →
    ∃ id proposal, db.proposals.row id = some proposal ∧ proposal.Covers a t row
  onePending : ∀ {p q proposal other}, db.proposals.row p = some proposal →
    db.proposals.row q = some other → proposal.status = .pending → other.status = .pending →
    proposal.transferId = other.transferId → p = q

theorem Control.empty (config : Config) : Control config {} where
  approved found := by cases found
  onePending found := by cases found

section
variable {config : Config} {log : Log Db Watch} {db : Db} {ws : List Write}

theorem Effect.setProposalDecision_mem (eff : Effect config log db ws) {id : Id}
    {decision : ProposalDecision} (mem : .setProposalDecision id decision ∈ ws) :
    ∃ old, db.proposals.row id = some old ∧ old.status = .pending ∧
      ((decision.status ≠ .approved ∧ decision.resolutionId = none) ∨
        ∃ operator key row, decision.Spends operator key row ∧
          .insertResolution operator key row ∈ ws ∧ row.requestHash = old.requestHash) := by
  cases eff with
  | pay p sound =>
    have authorized := sound.authorized
    rcases Payment.part_of_mem mem with ⟨t, mem⟩ | ⟨t, mem⟩ | ⟨t, mem⟩ | ⟨t, _⟩ |
      ⟨t, mem⟩ | ⟨t, mem⟩ <;>
      simp [Write.table] at t
    unfold Payment.Authorized at authorized
    unfold Payment.operatorWrites Payment.actorWrites at mem
    cases who : p.authority with
    | approval operator key row proposalId reason =>
      simp only [who] at authorized mem
      obtain ⟨_, _, _, proposal, found, approves⟩ := authorized
      simp at mem
      refine ⟨proposal, mem.1 ▸ found, approves.pending, .inr ⟨operator.keyId, key, row, ?_, ?_,
        approves.requestHash⟩⟩
      · rw [mem.2]
        exact ⟨rfl, rfl, rfl, rfl⟩
      · simp [Payment.writes, Payment.resolutionWrites, who]
    | _ => simp [who] at mem
  | propose absent pending unresolved passed others =>
    simp at mem
    obtain ⟨old, found, pending⟩ := passed id mem.1
    exact ⟨old, found, pending, .inl (by simp [← mem.2, expiredDecision])⟩
  | withdraw found pending =>
    simp at mem
    exact ⟨_, mem.1 ▸ found, pending, .inl (by simp [mem.2, rejectedDecision])⟩
  | park =>
    simp only [List.mem_cons, reduceCtorEq, false_or, List.not_mem_nil, or_false] at mem
    have name := decisionWrite_table _ _ _ ▸ congrArg Write.table mem
    cases name
  | aside only => exact absurd (only _ mem) (by simp [Write.table, asideTables])
  | _ => simp [Issue.writes, Sweep.writes, Expiry.writes, Sweep.archiveWrites,
      attestationWrites, StateStep.writes] at mem

theorem Effect.decided_stays (eff : Effect config log db ws) {id : Id} {proposal : ProposalRow}
    (found : db.proposals.row id = some proposal) (decided : proposal.status ≠ .pending) :
    (applyAll ws db).proposals.row id = some proposal := by
  refine applyAll_induct (P := fun db : Db => db.proposals.row id = some proposal) found ?_
  intro w mem db' stored
  cases w with
  | insertProposal k row => exact Table.row_insert_stored stored k row
  | setProposalDecision k decision =>
    obtain ⟨old, pending, status, _⟩ := eff.setProposalDecision_mem mem
    have ne : id ≠ k := by
      rintro rfl
      cases found.symm.trans pending
      exact decided status
    exact (Table.row_modify_ne ne _).trans stored
  | _ => exact stored

theorem pending_origin (forward : ∀ w ∈ ws, w.Forward) {id : Id} {row : ProposalRow}
    (after : (applyAll ws db).proposals.row id = some row) (pending : row.status = .pending) :
    db.proposals.row id = some row ∨ .insertProposal id row ∈ ws := by
  rcases proposals_origin after with old | put | set
  · exact .inl old
  · exact .inr put
  · exact absurd pending (forward _ set)

theorem Effect.insertProposal_mem (eff : Effect config log db ws) {id : Id} {row : ProposalRow}
    (mem : .insertProposal id row ∈ ws) {q : Id} {other : ProposalRow}
    (after : (applyAll ws db).proposals.row q = some other) (pending : other.status = .pending)
    (same : other.transferId = row.transferId) : q = id := by
  cases eff with
  | @propose new proposal at_ stale absent opens unresolved passed others =>
    simp at mem
    obtain ⟨rfl, rfl⟩ := mem
    have fold : (applyAll (stale.map (.setProposalDecision · (expiredDecision at_))) db).proposals =
        stale.foldl (fun t p => t.modify p ({ · with toProposalDecision := expiredDecision at_ }))
          db.proposals := by
      clear * -
      induction stale generalizing db with
      | nil => rfl
      | cons p rest ih => exact ih
    rw [applyAll_append] at after
    rcases Table.row_insert_cases (t := (applyAll _ db).proposals) after with old | ⟨_, eq, _⟩
    · rw [fold, Table.row_foldl_modify (fun row : ProposalRow =>
        { row with toProposalDecision := expiredDecision at_ }) (fun _ => rfl)] at old
      split at old
      · obtain ⟨_, _, rfl⟩ := Option.map_eq_some_iff.mp old
        simp [expiredDecision] at pending
      · rename_i fresh
        exact absurd (others q other old same pending) fresh
    · exact eq
  | aside only => exact absurd (only _ mem) (by simp [Write.table, asideTables])
  | pay p => cases p.isDecision_of_mem mem
  | park => cases isDecision_of_mem_park mem
  | _ => simp [Issue.writes, Sweep.writes, Expiry.writes, Sweep.archiveWrites,
      attestationWrites, StateStep.writes] at mem

theorem allocationReason_ne_manual (outcome : DecisionOutcome) :
    allocationReason outcome ≠ .manual := by cases outcome <;> simp [allocationReason]

namespace Payment
variable {p : Payment}

theorem Approves.covers {operator : OperatorCredential}
    {resolution : ResolutionRow} {proposal : ProposalRow} (key reason : Text)
    (approves : p.Approves operator resolution proposal) {row : AllocationRow}
    (ofIntent : row.paymentIntentId = p.command.paymentIntentId)
    (amount : row.allocatedRaw = p.allocateRaw) :
    ProposalRow.Covers { proposal with
      toProposalDecision := approvedDecision operator key reason p.decidedAt resolution.id }
      p.command.attemptId p.command.transferId row where
  approved := rfl
  transferId := approves.transferId
  paymentIntentId := approves.paymentIntentId.trans ofIntent.symm
  attemptId := approves.attemptId
  allocateRaw := approves.allocateRaw.trans amount.symm
  other := ⟨operator.keyId, rfl, approves.other⟩
  inTime := ⟨p.decidedAt, rfl, approves.inTime⟩

theorem Sound.covered (sound : p.Sound config log db) (manual : p.allocated.reason = .manual)
    (second : config.honorPolicy.requiresSecondOperator p.allocateRaw = true) :
    ∃ id proposal, (applyAll (p.writes db) db).proposals.row id = some proposal ∧
      proposal.Covers p.command.attemptId p.command.transferId p.allocated := by
  have authorized := sound.authorized
  unfold Authorized at authorized
  cases who : p.authority with
  | automatic =>
    simp only [allocated, who, allocation, allocationOf] at manual
    exact absurd manual (allocationReason_ne_manual _)
  | direct operator key row =>
    simp only [who] at authorized
    rw [authorized.2.2.2] at second
    cases second
  | approval operator key row proposalId reason =>
    simp only [who] at authorized
    obtain ⟨_, _, _, proposal, found, approves⟩ := authorized
    refine ⟨proposalId, { proposal with
      toProposalDecision := approvedDecision operator key reason p.decidedAt row.id }, ?_, ?_⟩
    · simp only [writes, applyAll_append, operatorWrites, who, actorWrites]
      simp only [applyAll_cons, applyAll_nil, apply_proposals, Write.proposals,
        Table.row_modify_self]
      rw [proposals_same (remainderWrites_other (by decide))]
      simp only [apply_proposals]
      rw [← apply_proposals, ← applyAll_nil (Store.apply _ _), ← applyAll_cons,
        proposals_same (decisionWrite_other (by decide)),
        proposals_same (statusWrites_other (by decide)),
        proposals_same (bookWrites_other (by decide)),
        proposals_same (resolutionWrites_other (by decide)), found]
      rfl
    · exact approves.covers key reason (by simp) (by simp)

end Payment

theorem Control.keep (control : Control config db) (eff : Effect config log db ws) :
    Control config (applyAll ws db) := by
  have forward : ∀ w ∈ ws, w.Forward := fun w mem => eff.forward mem
  constructor
  · intro a t row found manual second
    have known : db.allocations.row (a, t) = some row →
        ∃ id proposal, (applyAll ws db).proposals.row id = some proposal ∧
          proposal.Covers a t row := by
      intro old
      obtain ⟨id, proposal, stored, covers⟩ := control.approved old manual second
      exact ⟨id, proposal, eff.decided_stays stored (by simp [covers.approved]), covers⟩
    rcases eff.pay_or with ⟨p, sound, rfl⟩ | other
    · rcases sound.allocation_rows found with ⟨key, rfl⟩ | old
      · cases key
        exact sound.covered manual (by simpa using second)
      · exact known old
    · rw [allocations_same fun w mem eq => other w mem (by simp [eq])] at found
      exact known found
  · intro p q proposal other first second pending pending' same
    rcases pending_origin forward first pending with old | new
    · rcases pending_origin forward second pending' with old' | new'
      · exact control.onePending old old' pending pending' same
      · exact eff.insertProposal_mem new' first pending same
    · exact (eff.insertProposal_mem new second pending' same.symm).symm

end
end CryptoGateway
