import CryptoGateway.Engine.Sessions
import CryptoGateway.Gateway

/-!
The shape of a manual call: the scope's lock first, then one transaction that
either commits and answers or rolls back and fails.
-/
namespace CryptoGateway
open Engine Proc

section Quiet
variable {ε β : Type}

theorem select_quiet (query : Db → β) : (select query : Job ε β).Quiet := fun _ => trivial

theorem execute_quiet (exec : Exec β) : (execute exec : Job ε β).Quiet := fun _ => trivial

theorem uuid_quiet : (uuid : Job ε Id).Quiet := fun _ => trivial

theorem orFail_quiet (error : ε) (found : Option β) : (orFail error found).Quiet := by
  cases found <;> trivial

theorem now_quiet : (now : Job ε Int).Quiet := fun _ => trivial

theorem orViolation_quiet (exec : Exec (Option RepositoryError)) : (orViolation exec).Quiet :=
  Quiet.bind (execute_quiet _) fun refused => by cases refused <;> trivial

theorem enqueueOutbox_quiet (merchantId : Option Id) (eventType : EventType) (aggregateId : Id) :
    (enqueueOutbox merchantId eventType aggregateId).Quiet := by
  exact Quiet.bind uuid_quiet fun _ => orViolation_quiet _

theorem requireOneRow_quiet (rows : Nat) (what : Text) : (requireOneRow rows what).Quiet := by
  unfold requireOneRow
  split <;> trivial

theorem advanceToPaid_quiet (command : SettlementCommand) (at_ : Int) :
    (advanceToPaid command at_).Quiet := by
  refine Quiet.bind (execute_quiet _) fun _ => Quiet.bind (requireOneRow_quiet _ _) fun _ => ?_
  refine Quiet.bind (execute_quiet _) fun _ => Quiet.bind (requireOneRow_quiet _ _) fun _ => ?_
  refine Quiet.bind (execute_quiet _) fun claimed => Quiet.bind (execute_quiet _) fun _ => ?_
  split
  · exact enqueueOutbox_quiet _ _ _
  · trivial

theorem advanceToPartiallyPaid_quiet (command : SettlementCommand) :
    (advanceToPartiallyPaid command).Quiet := by
  refine Quiet.bind (execute_quiet _) fun _ => Quiet.bind (requireOneRow_quiet _ _) fun _ => ?_
  refine Quiet.bind (execute_quiet _) fun _ => Quiet.bind (requireOneRow_quiet _ _) fun _ => ?_
  exact Quiet.bind (execute_quiet _) fun _ => enqueueOutbox_quiet _ _ _

theorem advanceBy_quiet (command : SettlementCommand) (outcome : DecisionOutcome) (at_ : Int) :
    (advanceBy command outcome at_).Quiet := by
  unfold advanceBy
  split
  · exact Quiet.bind (advanceToPaid_quiet command at_) fun _ => trivial
  · exact Quiet.bind (advanceToPartiallyPaid_quiet command) fun _ => trivial

theorem finishAllocation_quiet (command : SettlementCommand) (allocateRaw remainderRaw : Nat)
    (outcome : DecisionOutcome) (at_ : Int) :
    (finishAllocation command allocateRaw remainderRaw outcome at_).Quiet := by
  refine Quiet.bind (advanceBy_quiet _ _ _) fun _ => Quiet.bind (execute_quiet _) fun _ => ?_
  split
  · exact Quiet.bind (execute_quiet _) fun _ => Quiet.bind (enqueueOutbox_quiet _ _ _)
      fun _ => trivial
  · trivial

theorem claimTransfer_quiet (command : SettlementCommand) (at_ : Int) :
    (claimTransfer command at_).Quiet := by
  refine Quiet.bind (execute_quiet _) fun bound => ?_
  split
  · trivial
  refine Quiet.bind (select_quiet _) fun _ => Quiet.bind (orFail_quiet _ _) fun owner => ?_
  split
  · trivial
  · exact Quiet.bind (execute_quiet _) fun _ => Quiet.bind (execute_quiet _) fun _ => trivial

theorem allocateAndFinish_quiet (command : SettlementCommand) (allocateRaw remainderRaw : Nat)
    (outcome : DecisionOutcome) (at_ : Int) :
    (allocateAndFinish command allocateRaw remainderRaw outcome at_).Quiet := by
  refine Quiet.bind (claimTransfer_quiet _ _) fun owned => ?_
  split
  · trivial
  refine Quiet.bind (execute_quiet _) fun allocated => ?_
  split
  · trivial
  refine Quiet.bind (execute_quiet _) fun insertion => ?_
  cases insertion with
  | inserted => exact finishAllocation_quiet _ _ _ _ _
  | _ => trivial

theorem manualAllocateAndFinish_quiet (command : SettlementCommand)
    (allocateRaw remainderRaw : Nat) (outcome : DecisionOutcome) (actor reason : Text) (at_ : Int) :
    (manualAllocateAndFinish command allocateRaw remainderRaw outcome actor reason at_).Quiet := by
  refine Quiet.bind (allocateAndFinish_quiet _ _ _ _ _) fun result => ?_
  split
  · trivial
  · exact Quiet.bind (execute_quiet _) fun _ => Quiet.bind (execute_quiet _) fun _ => trivial

theorem planHonor_quiet (resolution : ManualResolution) : (planHonor resolution).Quiet := by
  refine Quiet.bind (orFail_quiet _ _) fun _ => Quiet.bind (orFail_quiet _ _) fun _ => ?_
  refine Quiet.bind (orFail_quiet _ _) fun allocate => ?_
  refine Quiet.bind (fun _ => trivial) fun _ => Quiet.bind (orFail_quiet _ _) fun row => ?_
  cases honorPlan row allocate <;> trivial

theorem loadResolution_quiet (operator : Id) (key : Text) (hash : Digest) (replayed : Bool) :
    (loadResolution operator key hash replayed).Quiet := by
  refine Quiet.bind (select_quiet _) fun _ => Quiet.bind (orFail_quiet _ _) fun row => ?_
  split <;> trivial

theorem insertResolution_quiet (credential : OperatorCredential) (key : Text) (hash : Digest)
    (resolution : ManualResolution) (merchantId : Option Id) (allocated remainder : Option Nat)
    (at_ : Int) :
    (insertResolution credential key hash resolution merchantId allocated remainder at_).Quiet := by
  refine Quiet.bind uuid_quiet fun _ => Quiet.bind (execute_quiet _) fun inserted => ?_
  split
  · trivial
  · trivial
  · exact Quiet.bind (loadResolution_quiet _ _ _ _) fun _ => trivial

theorem honorTransfer_quiet (credential : OperatorCredential) (key : Text) (hash : Digest)
    (resolution : ManualResolution) (at_ : Int) :
    (honorTransfer credential key hash resolution at_).Quiet := by
  refine Quiet.bind (orFail_quiet _ _) fun _ => Quiet.bind (orFail_quiet _ _) fun _ => ?_
  refine Quiet.bind (planHonor_quiet _) fun plan => ?_
  refine Quiet.bind (insertResolution_quiet _ _ _ _ _ _ _ _) fun replay => ?_
  cases replay with
  | some replay => trivial
  | none =>
    refine Quiet.bind (Quiet.mapError (manualAllocateAndFinish_quiet _ _ _ _ _ _ _) _)
      fun record => ?_
    split
    · trivial
    · exact loadResolution_quiet _ _ _ _

theorem lockedProposal_quiet (proposalId : Id) : (lockedProposal proposalId).Quiet :=
  Quiet.bind (execute_quiet _) fun _ => orFail_quiet _ _

theorem setProcessing_quiet (transferId : Id) (change : ProcessingRow → ProcessingRow) :
    (setProcessing transferId change : Job ε Nat).Quiet := execute_quiet _

theorem rejectTransfer_quiet (credential : OperatorCredential) (key : Text) (hash : Digest)
    (resolution : ManualResolution) (at_ : Int) :
    (rejectTransfer credential key hash resolution at_).Quiet := by
  refine Quiet.bind (execute_quiet _) fun _ => Quiet.bind (orFail_quiet _ _) fun state => ?_
  split
  · trivial
  refine Quiet.bind (select_quiet _) fun hasAllocation => ?_
  split
  · trivial
  refine Quiet.bind (insertResolution_quiet _ _ _ _ _ _ _ _) fun replay => ?_
  cases replay with
  | some replay => trivial
  | none => exact Quiet.bind (setProcessing_quiet _ _) fun _ => loadResolution_quiet _ _ _ _

theorem recordExternalDisposition_quiet (credential : OperatorCredential) (key : Text)
    (hash : Digest) (resolution : ManualResolution) (at_ : Int) :
    (recordExternalDisposition credential key hash resolution at_).Quiet := by
  refine Quiet.bind (orFail_quiet _ _) fun intentId => Quiet.bind (orFail_quiet _ _) fun _ => ?_
  refine Quiet.bind (orFail_quiet _ _) fun _ => Quiet.bind (execute_quiet _) fun _ => ?_
  refine Quiet.bind (orFail_quiet _ _) fun decision => ?_
  split
  · trivial
  split
  · trivial
  refine Quiet.bind (insertResolution_quiet _ _ _ _ _ _ _ _) fun replay => ?_
  cases replay with
  | some replay => trivial
  | none =>
    refine Quiet.bind (select_quiet _) fun _ => Quiet.bind (orFail_quiet _ _) fun _ => ?_
    refine Quiet.bind (execute_quiet _) fun inserted => ?_
    split
    · trivial
    refine Quiet.bind (execute_quiet _) fun closed => ?_
    split
    · trivial
    · exact loadResolution_quiet _ _ _ _

theorem decideManual_quiet (credential : OperatorCredential) (key : Text) (hash : Digest)
    (resolution : ManualResolution) (at_ : Int) :
    (decideManual credential key hash resolution at_).Quiet := by
  unfold decideManual
  split
  · exact honorTransfer_quiet _ _ _ _ _
  · exact rejectTransfer_quiet _ _ _ _ _
  · exact recordExternalDisposition_quiet _ _ _ _ _

end Quiet

theorem resolveManualInStore_one (credential : OperatorCredential) (key : Text) (hash : Digest)
    (resolution : ManualResolution) (at_ : Int) :
    (resolveManualInStore credential key hash resolution at_).OneTransaction := by
  refine CommitsLast.transaction ?_
  refine Quiet.bind (execute_quiet _) fun _ => Quiet.bind (select_quiet _) fun exists_ => ?_
  split
  · exact Quiet.bind (loadResolution_quiet _ _ _ _) fun replay => ⟨replay, rfl⟩
  · exact Quiet.bind (decideManual_quiet _ _ _ _ _) fun result => ⟨result, rfl⟩

theorem approveHonorInStore_one (approver : OperatorCredential) (proposalId : Id)
    (key reason : Text) (at_ : Int) :
    (approveHonorInStore approver proposalId key reason at_).OneTransaction := by
  refine CommitsLast.transaction ?_
  refine Quiet.bind (execute_quiet _) fun _ => Quiet.bind (select_quiet _) fun spent => ?_
  refine Quiet.bind (lockedProposal_quiet _) fun proposal => ?_
  cases spent with
  | some resolutionId =>
    simp only
    split
    · trivial
    · exact Quiet.bind (loadResolution_quiet _ _ _ _) fun replay => ⟨replay, rfl⟩
  | none =>
    simp only
    split
    · trivial
    split
    · trivial
    split
    · trivial
    · exact Quiet.bind (honorTransfer_quiet _ _ _ _ _) fun result =>
        Quiet.bind (execute_quiet _) fun _ => ⟨result, rfl⟩

def Records (operator : Id) (key : Text) (ws : List Write) : Prop :=
  ws = [] ∨ (∃ row, .insertResolution operator key row ∈ ws) ∨
    ∃ id decision, .setProposalDecision id decision ∈ ws ∧ decision.status = .approved ∧
      decision.decidedByKeyId = some operator ∧ decision.decisionIdempotencyKey = some key

section Commits
variable {C : List Write → Prop} {ws : List Write} {credential : OperatorCredential} {key : Text}
  {hash : Digest} {resolution : ManualResolution} {at_ : Int}

theorem select_commits {ε β : Type} (query : Db → β) :
    (select query : Job ε β).Commits C (fun _ ws' => ws' = ws) ws := fun _ => rfl

theorem uuid_commits {ε : Type} : (uuid : Job ε Id).Commits C (fun _ ws' => ws' = ws) ws :=
  fun _ => rfl

theorem orFail_commits {ε β : Type} (error : ε) (found : Option β) :
    (orFail error found).Commits C (fun _ ws' => ws' = ws) ws := by
  cases found with
  | none => trivial
  | some a => exact rfl

theorem loadResolution_commits {operator : Id} {replayed : Bool} :
    (loadResolution operator key hash replayed).Commits C (fun _ ws' => ws' = ws) ws := by
  refine Commits.bind (select_commits _) fun found ws₁ same₁ => ?_
  subst same₁
  refine Commits.bind (orFail_commits _ _) fun row ws₂ same₂ => ?_
  split
  · trivial
  · exact same₂

theorem insertResolution_commits {merchantId : Option Id} {allocated remainder : Option Nat} :
    (insertResolution credential key hash resolution merchantId allocated remainder at_).Commits C
      (fun replay ws' => match replay with
        | some _ => ws' = ws
        | none => ∃ row, .insertResolution credential.keyId key row ∈ ws') ws := by
  refine Commits.bind uuid_commits fun id ws₁ same₁ => ?_
  subst same₁
  have wrote : ∀ row, (execute (insertResolutionRow credential.keyId key row) :
      Job OperationsError (Option Bool)).Commits C (fun inserted ws' =>
        (inserted = some true → ∃ row, .insertResolution credential.keyId key row ∈ ws') ∧
          (inserted = some false → ws' = ws₁)) ws₁ := by
    intro row seen newest grant
    unfold insertResolutionRow
    split
    · exact ⟨nofun, fun _ => List.append_nil ws₁⟩
    split
    · exact ⟨nofun, nofun⟩
    · exact ⟨fun _ => ⟨_, List.mem_append_right _ (List.mem_singleton_self _)⟩, nofun⟩
  refine Commits.bind (wrote _) fun inserted ws' wrote => ?_
  split
  · trivial
  · exact wrote.1 rfl
  · exact Commits.bind loadResolution_commits fun _ _ same => same.trans (wrote.2 rfl)

theorem Quiet.records {ε α : Type} {p : Job ε α} (quiet : p.Quiet) {operator : Id}
    (recorded : ∃ row, .insertResolution operator key row ∈ ws) :
    p.Commits C (fun _ ws' => Records operator key ws') ws := by
  obtain ⟨row, mem⟩ := recorded
  exact Commits.mono (quiet.commits mem) fun _ _ kept => .inr (.inl ⟨row, kept⟩)

theorem planHonor_commits : (planHonor resolution).Commits C (fun _ ws' => ws' = ws) ws := by
  refine Commits.bind (orFail_commits _ _) fun intentId ws₁ same₁ => ?_
  refine Commits.bind (orFail_commits _ _) fun attemptId ws₂ same₂ => ?_
  refine Commits.bind (orFail_commits _ _) fun allocate ws₃ same₃ => ?_
  have silent : (Proc.stmt (some (.allocated attemptId))
      (honorRowForUpdate resolution.transferId attemptId intentId) .done :
      Job OperationsError (Option ManualHonorRow)).Commits C (fun _ ws' => ws' = ws) ws₃ := by
    intro seen newest grant
    subst same₁ same₂ same₃
    unfold honorRowForUpdate
    split <;> exact List.append_nil _
  refine Commits.bind silent fun row ws₄ same₄ => ?_
  · subst same₄
    refine Commits.bind (orFail_commits _ _) fun row ws₅ same₅ => ?_
    cases honorPlan row allocate with
    | error e => trivial
    | ok plan => exact same₅

theorem honorTransfer_commits : (honorTransfer credential key hash resolution at_).Commits C
      (fun _ ws' => Records credential.keyId key ws') [] := by
  refine Commits.bind (orFail_commits _ _) fun intentId ws₁ same₁ => ?_
  subst same₁
  refine Commits.bind (orFail_commits _ _) fun attemptId ws₂ same₂ => ?_
  subst same₂
  refine Commits.bind planHonor_commits fun plan ws₃ same₃ => ?_
  subst same₃
  refine Commits.bind insertResolution_commits fun replay ws₄ recorded => ?_
  cases replay with
  | some replay => exact .inl recorded
  | none =>
    refine Quiet.records (Quiet.bind (Quiet.mapError
      (manualAllocateAndFinish_quiet _ _ _ _ _ _ _) _) fun record => ?_) recorded
    split
    · trivial
    · exact loadResolution_quiet _ _ _ _

theorem rejectTransfer_commits : (rejectTransfer credential key hash resolution at_).Commits C
      (fun _ ws' => Records credential.keyId key ws') [] := by
  have silent : (execute (rejectableForUpdate resolution.transferId) :
      Job OperationsError _).Commits C (fun _ ws' => ws' = []) [] := by
    intro seen newest grant
    unfold rejectableForUpdate
    split <;> rfl
  refine Commits.bind silent fun state ws₁ same₁ => ?_
  subst same₁
  refine Commits.bind (orFail_commits _ _) fun state ws₂ same₂ => ?_
  subst same₂
  split
  · trivial
  refine Commits.bind (select_commits _) fun hasAllocation ws₃ same₃ => ?_
  subst same₃
  split
  · trivial
  refine Commits.bind insertResolution_commits fun replay ws₄ recorded => ?_
  cases replay with
  | some replay => exact .inl recorded
  | none =>
    exact Quiet.records (Quiet.bind (setProcessing_quiet _ _) fun _ =>
      loadResolution_quiet _ _ _ _) recorded

theorem forUpdate_commits {ε ρ : Type} (row : Row) (find : Db → Option ρ) :
    (execute (forUpdate row find) : Job ε (Option ρ)).Commits C (fun _ ws' => ws' = ws) ws := by
  intro seen newest grant
  unfold forUpdate
  split <;> exact List.append_nil ws

theorem recordExternalDisposition_commits :
    (recordExternalDisposition credential key hash resolution at_).Commits C
      (fun _ ws' => Records credential.keyId key ws') [] := by
  refine Commits.bind (orFail_commits _ _) fun intentId ws₁ same₁ => ?_
  subst same₁
  refine Commits.bind (orFail_commits _ _) fun remainder ws₂ same₂ => ?_
  subst same₂
  refine Commits.bind (orFail_commits _ _) fun disposition ws₃ same₃ => ?_
  subst same₃
  refine Commits.bind (forUpdate_commits _ _) fun found ws₄ same₄ => ?_
  subst same₄
  refine Commits.bind (orFail_commits _ _) fun decision ws₅ same₅ => ?_
  subst same₅
  split
  · trivial
  split
  · trivial
  refine Commits.bind insertResolution_commits fun replay ws₆ recorded => ?_
  cases replay with
  | some replay => exact .inl recorded
  | none =>
    refine Quiet.records ?_ recorded
    refine Quiet.bind (select_quiet _) fun _ => Quiet.bind (orFail_quiet _ _) fun _ => ?_
    refine Quiet.bind (execute_quiet _) fun inserted => ?_
    split
    · trivial
    refine Quiet.bind (execute_quiet _) fun closed => ?_
    split
    · trivial
    · exact loadResolution_quiet _ _ _ _

theorem decideManual_commits : (decideManual credential key hash resolution at_).Commits C
      (fun _ ws' => Records credential.keyId key ws') [] := by
  unfold decideManual
  split
  · exact honorTransfer_commits
  · exact rejectTransfer_commits
  · exact recordExternalDisposition_commits

theorem lockResolutionScope_commits {operator : Id} :
    (lockResolutionScope operator key).Commits C (fun _ ws' => ws' = ws) ws :=
  fun _ _ _ => List.append_nil ws

theorem resolveManualInStore_commits :
    (resolveManualInStore credential key hash resolution at_).Commits
      (Records credential.keyId key) (fun _ _ => True) [] := by
  refine Commits.handle ?_ fun _ _ => trivial
  refine Commits.bind lockResolutionScope_commits fun _ ws₁ same₁ => ?_
  subst same₁
  refine Commits.bind (select_commits _) fun exists_ ws₂ same₂ => ?_
  subst same₂
  split
  · exact Commits.bind loadResolution_commits fun _ ws same => ⟨.inl same, trivial⟩
  · exact Commits.bind decideManual_commits fun _ ws records => ⟨records, trivial⟩

theorem lockedProposal_commits {proposalId : Id} :
    (lockedProposal proposalId).Commits C (fun _ ws' => ws' = ws) ws := by
  refine Commits.bind (forUpdate_commits _ _) fun found ws₁ same₁ => ?_
  subst same₁
  exact orFail_commits _ _

theorem decideProposal_commits {proposalId : Id} {decision : ProposalDecision} :
    (decideProposal proposalId decision).Commits C
      (fun _ ws' => ws' = ws ∨ .setProposalDecision proposalId decision ∈ ws') ws := by
  intro seen newest grant
  unfold updateOne
  split
  · exact .inr (List.mem_append_right _ (List.mem_singleton_self _))
  · exact .inl (List.append_nil ws)

theorem approveHonorInStore_commits {proposalId : Id} {reason : Text} :
    (approveHonorInStore credential proposalId key reason at_).Commits
      (Records credential.keyId key) (fun _ _ => True) [] := by
  refine Commits.handle ?_ fun _ _ => trivial
  refine Commits.bind lockResolutionScope_commits fun _ ws₁ same₁ => ?_
  subst same₁
  refine Commits.bind (select_commits _) fun spent ws₂ same₂ => ?_
  subst same₂
  refine Commits.bind lockedProposal_commits fun proposal ws₃ same₃ => ?_
  subst same₃
  cases spent with
  | some resolutionId =>
    simp only
    split
    · trivial
    · exact Commits.bind loadResolution_commits fun _ ws same => ⟨.inl same, trivial⟩
  | none =>
    simp only
    split
    · trivial
    split
    · trivial
    split
    · trivial
    refine Commits.bind honorTransfer_commits fun result ws₄ records => ?_
    refine Commits.bind decideProposal_commits fun _ ws₅ wrote => ⟨?_, trivial⟩
    rcases wrote with rfl | mem
    · exact records
    · exact .inr (.inr ⟨_, _, mem, rfl, rfl, rfl⟩)

end Commits

end CryptoGateway
