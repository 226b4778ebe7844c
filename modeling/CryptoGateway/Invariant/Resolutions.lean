import CryptoGateway.Invariant.Control

/-!
Manual resolution requests: each id is used once, and an approved proposal names
the request that the approving operator spent its key on.
-/
namespace CryptoGateway
open Engine

structure Resolved (db : Db) : Prop where
  uniqueId : ∀ {k l row other}, db.resolutions.row k = some row →
    db.resolutions.row l = some other → row.id = other.id → k = l
  approved : ∀ {id proposal}, db.proposals.row id = some proposal → proposal.status = .approved →
    ∃ operator key row, proposal.Spends operator key row ∧
      db.resolutions.row (operator, key) = some row ∧ row.requestHash = proposal.requestHash
  unresolved : ∀ {id proposal}, db.proposals.row id = some proposal →
    proposal.status ≠ .approved → proposal.resolutionId = none

theorem Resolved.empty : Resolved {} where
  uniqueId found := by cases found
  approved found := by cases found
  unresolved found := by cases found

section
variable {config : Config} {log : Log Db Watch} {db : Db} {ws : List Write} {row : ResolutionRow}

theorem Payment.insertResolution_mem {p : Payment} {operator : Id} {key : Text}
    (mem : .insertResolution operator key row ∈ p.writes db) :
    .insertResolution operator key row ∈ p.resolutionWrites := by
  rcases part_of_mem mem with ⟨t, mem⟩ | ⟨t, mem⟩ | ⟨t, mem⟩ | ⟨t, _⟩ | ⟨t, mem⟩ | ⟨t, mem⟩ <;>
    simp [Write.table] at t
  · exact mem

theorem Effect.insertResolution_mem (eff : Effect config log db ws) {operator : Id} {key : Text}
    (mem : .insertResolution operator key row ∈ ws) :
    db.NewResolution operator key row ∧ ∀ o k r, .insertResolution o k r ∈ ws →
      (o, k) = (operator, key) ∧ r = row := by
  cases eff with
  | pay p sound =>
    have authorized := sound.authorized
    have inside := Payment.insertResolution_mem mem
    unfold Payment.Authorized at authorized
    unfold Payment.resolutionWrites at inside
    cases who : p.authority with
    | automatic => simp [who] at inside
    | direct credential k r =>
      simp only [who, List.mem_singleton, Write.insertResolution.injEq] at authorized inside
      obtain ⟨rfl, rfl, rfl⟩ := inside
      refine ⟨authorized.2.1, fun o k r other => ?_⟩
      simpa [Payment.resolutionWrites, who, and_assoc] using Payment.insertResolution_mem other
    | approval credential k r =>
      simp only [who, List.mem_singleton, Write.insertResolution.injEq] at authorized inside
      obtain ⟨rfl, rfl, rfl⟩ := inside
      refine ⟨authorized.2.1, fun o k r other => ?_⟩
      simpa [Payment.resolutionWrites, who, and_assoc] using Payment.insertResolution_mem other
  | reject found held new action =>
    simp at mem
    obtain ⟨rfl, rfl, rfl⟩ := mem
    exact ⟨new, by simp; grind⟩
  | dispose found matched new action =>
    simp at mem
    obtain ⟨rfl, rfl, rfl⟩ := mem
    exact ⟨new, by simp; grind⟩
  | park =>
    simp only [List.mem_cons, reduceCtorEq, false_or, List.not_mem_nil, or_false] at mem
    have name := decisionWrite_table _ _ _ ▸ congrArg Write.table mem
    cases name
  | aside only => exact absurd (only _ mem) (by simp [Write.table, asideTables])
  | _ => simp [Issue.writes, Sweep.writes, Expiry.writes, Sweep.archiveWrites,
      attestationWrites, StateStep.writes] at mem

theorem Effect.resolution_stored (eff : Effect config log db ws) {operator : Id} {key : Text}
    (mem : .insertResolution operator key row ∈ ws) :
    (applyAll ws db).resolutions.row (operator, key) = some row := by
  obtain ⟨new, only⟩ := eff.insertResolution_mem mem
  have insert : ∀ db : Db, (db.resolutions.row (operator, key) = none ∨
      db.resolutions.row (operator, key) = some row) →
      (db.resolutions.insert (operator, key) row).row (operator, key) = some row := by
    rintro db (absent | stored)
    · rw [Table.row_insert_fresh absent, if_pos rfl]
    · exact Table.row_insert_stored stored _ _
  obtain ⟨before, after, rfl⟩ := List.append_of_mem mem
  rw [applyAll_append, applyAll_cons]
  refine (resolutions_inserts.persists (operator, key)).applyAll (insert _ ?_) after
  refine applyAll_induct (P := fun db : Db => db.resolutions.row (operator, key) = none ∨
    db.resolutions.row (operator, key) = some row) (.inl new.unspent) fun w here db holds => ?_
  cases w with
  | insertResolution o k r =>
    obtain ⟨same, rfl⟩ := only o k r (List.mem_append_left _ here)
    cases same
    exact .inr (insert db holds)
  | _ => exact holds

theorem Effect.insertProposal_pending (eff : Effect config log db ws) {id : Id}
    {row : ProposalRow} (mem : .insertProposal id row ∈ ws) :
    row.status = .pending ∧ row.resolutionId = none := by
  cases eff with
  | propose absent pending unresolved =>
    simp at mem
    rw [mem.2]
    exact ⟨pending, unresolved⟩
  | aside only => exact absurd (only _ mem) (by simp [Write.table, asideTables])
  | pay p => cases p.isDecision_of_mem mem
  | park => cases isDecision_of_mem_park mem
  | _ => simp [Issue.writes, Sweep.writes, Expiry.writes, Sweep.archiveWrites,
      attestationWrites, StateStep.writes] at mem

theorem Resolved.keep (resolved : Resolved db) (eff : Effect config log db ws) :
    Resolved (applyAll ws db) := by
  have stays : ∀ {k row}, db.resolutions.row k = some row →
      (applyAll ws db).resolutions.row k = some row :=
    fun {k row} stored => (resolutions_inserts.persists k).applyAll stored ws
  constructor
  · intro k l row other first second same
    rcases resolutions_inserts.origin first with old | put
    · rcases resolutions_inserts.origin second with old' | put'
      · exact resolved.uniqueId old old' same
      · exact absurd same ((eff.insertResolution_mem put').1.newId k row old)
    · rcases resolutions_inserts.origin second with old' | put'
      · exact absurd same.symm ((eff.insertResolution_mem put).1.newId l other old')
      · exact ((eff.insertResolution_mem put').2 _ _ _ put).1
  · intro id proposal found approved
    rcases proposals_origin found with old | put | set
    · obtain ⟨operator, key, row, spends, stored, hash⟩ := resolved.approved old approved
      exact ⟨operator, key, row, spends, stays stored, hash⟩
    · rw [(eff.insertProposal_pending put).1] at approved
      cases approved
    · obtain ⟨old, before, _, other | ⟨operator, key, row, spends, put, hash⟩⟩ :=
        eff.setProposalDecision_mem set
      · exact absurd approved other.1
      · have terms : old.toProposalTerms = proposal.toProposalTerms := by
          have stored : db.proposalTerms id = some old.toProposalTerms := by
            simp [Db.proposalTerms, before]
          have kept := (proposalTerms_persists id).applyAll stored ws
          simpa [Db.proposalTerms, found] using kept.symm
        refine ⟨operator, key, row, spends, ?_, hash.trans (congrArg (·.requestHash) terms)⟩
        exact eff.resolution_stored put
  · intro id proposal found other
    rcases proposals_origin found with old | put | set
    · exact resolved.unresolved old other
    · exact (eff.insertProposal_pending put).2
    · obtain ⟨_, _, _, undecided | ⟨_, _, _, spends, _⟩⟩ := eff.setProposalDecision_mem set
      · exact undecided.2
      · exact absurd spends.approved other

end
end CryptoGateway
