import CryptoGateway.Refinement.Calls
import CryptoGateway.Runs

/-!
Two operators for money that an operator moves: what an honor at or above the threshold needs, and
what a refused approval leaves behind.
-/
namespace CryptoGateway
open Engine

section
variable {config : Config} {log : Log Db Watch} {db : Db} {ws : List Write} {row : AllocationRow}

theorem Payment.insertAllocation_mem {p : Payment} {a t : Id}
    (mem : .insertAllocation a t row ∈ p.writes db) :
    (a, t, row) = (p.command.attemptId, p.command.transferId, p.allocation) := by
  rcases part_of_mem mem with ⟨t, mem⟩ | ⟨t, mem⟩ | ⟨t, mem⟩ | ⟨t, _⟩ | ⟨t, mem⟩ | ⟨t, mem⟩ <;>
    simp [Write.table] at t
  · simpa [bookWrites] using mem
  · unfold operatorWrites actorWrites at mem
    split at mem <;> simp at mem

theorem Effect.insertAllocation_mem (eff : Effect config log db ws) {a t : Id}
    (mem : .insertAllocation a t row ∈ ws) :
    ∃ p : Payment, p.Sound config log db ∧ ws = p.writes db ∧
      (a, t, row) = (p.command.attemptId, p.command.transferId, p.allocation) := by
  rcases eff.pay_or with ⟨p, sound, rfl⟩ | other
  · exact ⟨p, sound, rfl, Payment.insertAllocation_mem mem⟩
  · exact absurd (by simp [Write.table]) (other _ mem)

theorem Payment.setAllocationActor_mem {p : Payment} {a t : Id} {actor : Text}
    (mem : .setAllocationActor a t actor ∈ p.writes db) :
    .setAllocationActor a t actor ∈ p.operatorWrites := by
  rcases part_of_mem mem with ⟨t, mem⟩ | ⟨t, mem⟩ | ⟨t, mem⟩ | ⟨t, _⟩ | ⟨t, mem⟩ | ⟨t, mem⟩ <;>
    simp [Write.table] at t
  · simp [bookWrites] at mem
  · exact mem

theorem Effect.approved (eff : Effect config log db ws) {a t : Id}
    {actor : Text} (allocates : .insertAllocation a t row ∈ ws)
    (manual : .setAllocationActor a t actor ∈ ws)
    (large : config.honorPolicy.dualControlMinRaw ≤ row.allocatedRaw) :
    ∃ id proposal decision, db.proposals.row id = some proposal ∧ proposal.status = .pending ∧
      .setProposalDecision id decision ∈ ws ∧
      ProposalRow.Covers { proposal with toProposalDecision := decision } a t row := by
  obtain ⟨p, sound, rfl, same⟩ := eff.insertAllocation_mem allocates
  cases same
  have byOperator := Payment.setAllocationActor_mem manual
  have authorized := sound.authorized
  unfold Payment.Authorized at authorized
  cases who : p.authority with
  | automatic => simp [Payment.operatorWrites, who] at byOperator
  | direct operator key resolution =>
    simp only [who] at authorized
    have small := authorized.2.2.2
    simp only [HonorApprovalPolicy.requiresSecondOperator, decide_eq_false_iff_not] at small
    exact absurd large small
  | approval operator key resolution proposalId reason =>
    simp only [who] at authorized
    obtain ⟨_, _, _, proposal, found, approves⟩ := authorized
    refine ⟨proposalId, proposal, _, found, approves.pending, ?_,
      approves.covers key reason rfl rfl⟩
    simp [Payment.writes, Payment.operatorWrites, who]

end

section
variable {config : Config} {allow : Gateway → Event Request → Prop} {s : Gateway}

end

namespace Sample

def proposed : List (Slice Request) :=
  opening ++ whole 5 0 (transfer 0 90 1) ++ whole 6 0 (.settlePending lease 10) ++
    whole 7 0 (.proposeHonor (operator 1) (key 'p') (honor 5 90))

def approve : Request := .approveHonor (operator 2) 7 (key 'q') ['z']

def honored : List (Slice Request) := proposed ++ whole 8 0 approve

end Sample
end CryptoGateway
