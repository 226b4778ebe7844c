import CryptoGateway.Storage.Operations

/-!
`gateway-storage/src/honor_proposals.rs`: a proposal is stored without money; an approval checks
the same rows again and runs the honor in the transaction that closes it.
-/
namespace CryptoGateway
open Engine

def lockProposalScope (operator : Id) (key : Text) : Job OperationsError Unit :=
  execute fun _ _ _ => Reply.locked [(.proposalScope operator key, .update)] ()

def lockedProposal (proposalId : Id) : Job OperationsError ProposalRow := do
  let row ← execute (forUpdate (.proposal proposalId) (·.proposals.row proposalId))
  orFail .honorProposalNotFound row

def expiredDecision (at_ : Int) : ProposalDecision :=
  { status := .expired, decidedAt := some at_ }

/-- `UPDATE manual_honor_proposals SET status = 'expired'` of the transfer's
    pending proposals whose time has passed. -/
def expireProposals (transferId : Id) (at_ : Int) : Exec Unit :=
  fun seen newest _ =>
    let stale (db : Db) (id : Id) : Bool := (db.proposals.row id).any fun row =>
      row.transferId = transferId && row.status = .pending && decide (row.expiresAt ≤ at_)
    let ids := seen.proposals.keys.filter fun id => stale seen id && stale newest id
    Reply.wrote (ids.map (.setProposalDecision · (expiredDecision at_))) ()

/-- `INSERT INTO manual_honor_proposals`; `false` is a unique violation. -/
def insertProposal (id : Id) (row : ProposalRow) : Exec Bool :=
  fun _ newest _ =>
    if (newest.proposals.row id).isSome || (newest.proposals.entries.any fun e =>
        (e.2.proposerKeyId = row.proposerKeyId && e.2.idempotencyKey = row.idempotencyKey) ||
          (e.2.transferId = row.transferId && e.2.status = .pending)) then Reply.value false
    else Reply.wrote [.insertProposal id row] true

def proposalRow (proposer : OperatorCredential) (key : Text) (hash : Digest)
    (resolution : ManualResolution) (intentId attemptId allocate thresholdRaw : Nat)
    (merchantId : Id) (at_ expiresAt : Int) : ProposalRow :=
  { proposerKeyId := proposer.keyId, proposerLabel := proposer.label, idempotencyKey := key,
    requestHash := hash, transferId := resolution.transferId, paymentIntentId := intentId,
    attemptId, merchantId, allocateRaw := allocate, thresholdRaw, reason := resolution.reason,
    createdAt := at_, expiresAt, status := .pending }

def proposeHonorInStore (proposer : OperatorCredential) (key : Text) (hash : Digest)
    (resolution : ManualResolution) (thresholdRaw : Nat) (at_ expiresAt : Int) :
    Job OperationsError (Id × ProposalRow) :=
  match resolution.action, resolution.paymentIntentId, resolution.attemptId,
      resolution.allocateRaw with
  | .honor, some intentId, some attemptId, some allocate =>
    Proc.transaction do
      lockProposalScope proposer.keyId key
      let existing ← select fun db => db.proposals.entries.find? fun e =>
        e.2.proposerKeyId = proposer.keyId && e.2.idempotencyKey = key
      match existing with
      | some (id, row) =>
        if row.requestHash ≠ hash then .fail (.repository .idempotencyConflict)
        else do
          commit
          pure (id, row)
      | none => do
        let plan ← planHonor resolution
        execute (expireProposals resolution.transferId at_)
        let id ← uuid
        let row := proposalRow proposer key hash resolution intentId attemptId allocate
          thresholdRaw plan.row.merchantId at_ expiresAt
        let inserted ← execute (insertProposal id row)
        if !inserted then .fail .manualResolutionConflict
        else do
          commit
          pure (id, row)
  | _, _, _, _ => .fail .invalidManualResolution

def ProposalRow.resolution (proposal : ProposalRow) : ManualResolution where
  action := .honor
  transferId := proposal.transferId
  paymentIntentId := some proposal.paymentIntentId
  attemptId := some proposal.attemptId
  allocateRaw := some proposal.allocateRaw
  remainderRaw := none
  disposition := none
  externalReference := none
  reason := proposal.reason

def approvedDecision (approver : OperatorCredential) (key reason : Text) (at_ : Int)
    (resolutionId : Id) : ProposalDecision :=
  { status := .approved, decidedByKeyId := some approver.keyId,
    decidedByLabel := some approver.label, decisionIdempotencyKey := some key,
    decisionReason := some reason, decidedAt := some at_, resolutionId := some resolutionId }

def rejectedDecision (operator : OperatorCredential) (key reason : Text) (at_ : Int) :
    ProposalDecision :=
  { status := .rejected, decidedByKeyId := some operator.keyId,
    decidedByLabel := some operator.label, decisionIdempotencyKey := some key,
    decisionReason := some reason, decidedAt := some at_ }

def decideProposal (proposalId : Id) (decision : ProposalDecision) : Job OperationsError Nat :=
  execute (updateOne (.proposal proposalId) (·.proposals.row proposalId)
    fun _ => [.setProposalDecision proposalId decision])

def approveHonorInStore (approver : OperatorCredential) (proposalId : Id) (key reason : Text)
    (at_ : Int) : Job OperationsError ManualResolutionResult :=
  Proc.transaction do
    lockResolutionScope approver.keyId key
    let spent ← select fun db => (db.resolutions.row (approver.keyId, key)).map (·.id)
    let proposal ← lockedProposal proposalId
    match spent with
    | some resolutionId =>
      if proposal.resolutionId ≠ some resolutionId then
        .fail (.repository .idempotencyConflict)
      else do
        let replay ← loadResolution approver.keyId key proposal.requestHash true
        commit
        pure replay
    | none =>
      if approver.keyId = proposal.proposerKeyId then .fail .sameOperator
      else if proposal.status ≠ .pending then .fail .honorProposalNotPending
      else if proposal.expiresAt ≤ at_ then .fail .honorProposalExpired
      else do
        let result ← honorTransfer approver key proposal.requestHash proposal.resolution at_
        let _ ← decideProposal proposalId (approvedDecision approver key reason at_ result.id)
        commit
        pure result

def rejectHonorInStore (operator : OperatorCredential) (proposalId : Id) (key reason : Text)
    (at_ : Int) : Job OperationsError ProposalRow :=
  Proc.transaction do
    let proposal ← lockedProposal proposalId
    if proposal.status = .rejected ∧ proposal.decidedByKeyId = some operator.keyId ∧
        proposal.decisionIdempotencyKey = some key then
      if proposal.decisionReason ≠ some reason then .fail (.repository .idempotencyConflict)
      else do
        commit
        pure proposal
    else if proposal.status ≠ .pending then .fail .honorProposalNotPending
    else do
      let _ ← decideProposal proposalId (rejectedDecision operator key reason at_)
      commit
      pure { proposal with toProposalDecision := rejectedDecision operator key reason at_ }

end CryptoGateway
