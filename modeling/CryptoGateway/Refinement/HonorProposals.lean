import CryptoGateway.Refinement.Operations

/-!
Honor proposals keep the contract: proposing, withdrawing and approving.
-/
namespace CryptoGateway
open Engine

section
variable {config : Config} {held : List (Lock Row)} {ws : List Write} {log : Log Db Watch} {db : Db}
  {K : Db → Prop}

variable {row : ProposalRow} {decision : ProposalDecision}

theorem proposal_stored {id : Id} (found : db.proposals.row id = some row)
    (ws : List Write) : (applyAll ws db).proposals.row id ≠ none := by
  have before : db.proposalTerms id = some row.toProposalTerms := by
    simp [Db.proposalTerms, found]
  have terms := (proposalTerms_persists id).applyAll before ws
  intro none
  simp [Db.proposalTerms, none] at terms

theorem pending_stable {t : Id} {ids : List Id} (locked : (.pendingProposal t, .update) ∈ held) :
    Steady config held fun db => ∀ p old, db.proposals.row p = some old →
      old.transferId = t → old.status = .pending → p ∈ ids := by
  refine .of_permitted Write.Forward (fun _ eff w mem => eff.forward mem) ?_
  rintro w db forward apart now p row found rfl pending
  rcases pending_origin (by simpa using forward)
    (show (applyAll [w] db).proposals.row p = some row from found) pending with old | put
  · exact now p row old rfl pending
  · cases List.mem_singleton.mp put
    exact absurd (apart (.pendingProposal row.transferId, .update)
      (by simp [Store.needs, Write.needs])
      _ locked) (by simp [clash, Mode.conflicts])

theorem wp_expireProposals {t : Id} {at_ : Int} {post : Unit → Assertion}
    {fault : OperationsError → Assertion} (stable : Steady config held K) (now : K db)
    (cont : ∀ (stale : List Id) held' db, held ⊆ held' →
      (∀ p ∈ stale, (.proposal p, .noKeyUpdate) ∈ held') →
      Sane config db → K db →
      (∀ p ∈ stale, ∃ old, db.proposals.row p = some old ∧ old.status = .pending) →
      post () ⟨held', stale.map (.setProposalDecision · (expiredDecision at_)), log, db⟩) :
    wp (contract config) (execute (expireProposals t at_)) post fault ⟨held, [], log, db⟩ := by
  refine wp_execute stable now fun m db' grant _ sane _ known _ reply eq => ?_
  subst eq
  refine cont _ _ db' (List.subset_append_right _ held) (fun p mem => ?_) sane known
    fun p mem => ?_
  · refine List.mem_append_left _ (List.mem_append_right _ ?_)
    exact List.mem_flatMap.mpr ⟨_, List.mem_map.mpr ⟨p, mem,
      rfl⟩, by simp [Store.needs, Write.needs]⟩
  · obtain ⟨_, stale⟩ := List.mem_filter.mp mem
    simp only [Bool.and_eq_true, applyAll_nil, Option.any_eq_true, decide_eq_true_eq] at stale
    obtain ⟨old, found, ⟨_, pending⟩, _⟩ := stale.2
    exact ⟨old, found, pending⟩

theorem proposal_kept {stale : List Id} {p : Id}
    (found : db.proposals.row p = some row) (other : p ∉ stale) :
    (applyAll (stale.map (.setProposalDecision · decision)) db).proposals.row p = some row := by
  refine applyAll_induct (P := fun db : Db => db.proposals.row p = some row) found ?_
  intro w mem db held
  obtain ⟨q, listed, rfl⟩ := List.mem_map.mp mem
  have apart : p ≠ q := fun same => other (same ▸ listed)
  exact (Table.row_modify_ne apart _).trans held

theorem insertProposal_checked {stale : List Id} {id : Id}
    (free : ¬(((applyAll (stale.map (.setProposalDecision · decision)) db).proposals.row id).isSome
      ||
      ((applyAll (stale.map (.setProposalDecision · decision)) db).proposals.entries.any fun e =>
        (e.2.proposerKeyId = row.proposerKeyId && e.2.idempotencyKey = row.idempotencyKey) ||
          (e.2.transferId = row.transferId && e.2.status = .pending))) = true) :
    db.proposals.row id = none ∧ ∀ p old, db.proposals.row p = some old →
      old.transferId = row.transferId → old.status = .pending → p ∈ stale := by
  simp only [Bool.or_eq_true, not_or] at free
  constructor
  · refine Option.eq_none_iff_forall_not_mem.mpr fun old found => ?_
    exact free.1 (Option.isSome_iff_ne_none.mpr (proposal_stored found _))
  · intro p old found same pending
    by_contra other
    refine free.2 (List.any_eq_true.mpr ⟨(p, old), Table.mem_entries.mpr
      (proposal_kept found other), ?_⟩)
    simp [same, pending]

theorem proposeHonorInStore_refines (proposer : OperatorCredential) (key : Text) (hash : Digest)
    (resolution : ManualResolution) (thresholdRaw : Nat) (at_ expiresAt : Int) :
    Refines config (proposeHonorInStore proposer key hash resolution thresholdRaw at_
      expiresAt) := by
  unfold proposeHonorInStore
  split
  · refine .transaction fun log db sane => ?_
    rename_i intentId attemptId allocate _ _ _ _
    rw [wp_bind]
    refine wp_locked stable_true trivial fun db sane _ => ?_
    rw [wp_bind]
    refine wp_select stable_true trivial fun db sane _ => ?_
    split
    · split
      · trivial
      · rw [wp_bind]
        exact wp_commitsNothing fun db sane => ⟨rfl, rfl, sane⟩
    · rw [wp_bind]
      refine wp_planHonor stable_true trivial
        fun plan _ _ _ _ _ m held₁ db _ _ sane _ _ _ => ?_
      rw [wp_bind]
      refine wp_expireProposals stable_true trivial
        fun stale held₂ db more₂ locked sane _ passed => ?_
      have stalePinned : Steady config held₂ fun db => ∀ p ∈ stale, ∃ old,
          db.proposals.row p = some old ∧ old.status = .pending := by
        intro db db' move known p mem
        obtain ⟨old, found, pending⟩ := known p mem
        exact ⟨old, (proposals_guarded p).stable (.inl (locked p mem)) _ move found, pending⟩
      rw [wp_bind]
      refine wp_uuid stalePinned passed fun id db sane passed => ?_
      rw [wp_bind]
      refine wp_execute stalePinned passed fun m db' grant _ sane _ passed _ reply eq => ?_
      unfold insertProposal at eq
      split at eq
      · subst eq
        trivial
      · rename_i free
        subst eq
        obtain ⟨absent, others⟩ := insertProposal_checked free
        simp only [Reply.wrote, Bool.not_true, Bool.false_eq_true, ↓reduceIte]
        rw [wp_bind]
        refine wp_commits (((stalePinned.mono (List.subset_append_right _ held₂)).and
          ((proposals_guarded id).stable (.inr ?_) none)).and (pending_stable ?_))
          ⟨⟨passed, absent⟩, others⟩ (fun db _ known => ?_) fun db sane => ⟨rfl, rfl, sane⟩
        · simp [required, Store.needs, Write.needs]
        · simp [required, Store.needs, Write.needs]
        · exact .propose known.1.2 rfl rfl known.1.1 known.2
  · exact .fail _

theorem wp_lockedProposal {id : Id} {post : ProposalRow → Assertion}
    (stable : Steady config held K) (now : K db)
    (cont : ∀ row db, Sane config db → K db → (applyAll ws db).proposals.row id = some row →
      post row ⟨(.proposal id, .update) :: held, ws, log, db⟩) :
    wp (contract config) (lockedProposal id) post (fun _ _ => True) ⟨held, ws, log, db⟩ := by
  unfold lockedProposal
  rw [wp_bind]
  refine wp_forUpdate stable now (fun _ _ _ _ _ _ => trivial) fun row db sane known found => ?_
  exact cont row db sane known found

theorem wp_decideProposal {id : Id} {post : Nat → Assertion} {fault : OperationsError → Assertion}
    (stable : Steady config held K) (now : K db)
    (stored : ∀ db, K db → db.proposals.row id = some row)
    (cont : ∀ n held' db, held ⊆ held' → Sane config db → K db →
      post n ⟨held', ws ++ [.setProposalDecision id decision], log, db⟩) :
    wp (contract config) (decideProposal id decision) post fault ⟨held, ws, log, db⟩ := by
  refine wp_updateOne stable now (fun seen db before _ known missing => ?_)
    fun _ db sane known _ => ?_
  · exact absurd missing (not_or.mpr ⟨proposal_stored (stored seen before) ws,
      proposal_stored (stored db known) ws⟩)
  · exact cont 1 _ db (fun _ mem => by simp [mem]) sane known

theorem rejectHonorInStore_refines (operator : OperatorCredential) (proposalId : Id)
    (key reason : Text) (at_ : Int) :
    Refines config (rejectHonorInStore operator proposalId key reason at_) := by
  refine .transaction fun log db sane => ?_
  rw [wp_bind]
  refine wp_lockedProposal stable_true trivial fun proposal db sane _ found => ?_
  split
  · split
    · trivial
    · rw [wp_bind]
      exact wp_commitsNothing fun db sane => ⟨rfl, rfl, sane⟩
  · split
    · trivial
    · rename_i pending
      have pinned : Steady config [(.proposal proposalId, .update)]
          fun db => db.proposals.row proposalId = some proposal :=
        (proposals_guarded proposalId).stable (.inr (by simp)) _
      rw [wp_bind]
      refine wp_decideProposal pinned found (fun _ known => known)
        fun n held' db more sane found => ?_
      rw [wp_bind]
      exact wp_commits (pinned.mono more) found
        (fun db _ found => .withdraw found (not_not.mp pending)) fun db sane => ⟨rfl, rfl, sane⟩

theorem approveHonorInStore_refines (approver : OperatorCredential) (proposalId : Id)
    (key reason : Text) (at_ : Int) :
    Refines config (approveHonorInStore approver proposalId key reason at_) := by
  refine .transaction fun log db sane => ?_
  rw [wp_bind]
  refine wp_locked stable_true trivial fun db sane _ => ?_
  rw [wp_bind]
  refine wp_select stable_true trivial fun db sane _ => ?_
  rw [wp_bind]
  have spentStable : Steady config [(.resolutionScope approver.keyId key, .update)]
      fun later => later.resolutions.row (approver.keyId, key) =
        db.resolutions.row (approver.keyId, key) :=
    (resolutions_guarded _ _).stable (.inr (by simp)) _
  refine wp_lockedProposal spentStable rfl fun proposal db' sane same found => ?_
  split
  · split
    · trivial
    · rw [wp_bind]
      refine wp_loadResolution stable_true trivial fun _ result db sane _ _ _ => ?_
      rw [wp_bind]
      exact wp_commitsNothing fun db sane => ⟨rfl, rfl, sane⟩
  · rename_i unspent
    have unspent : db'.resolutions.row (approver.keyId, key) = none := by
      rw [same]
      simpa using unspent
    split
    · trivial
    rename_i other
    split
    · trivial
    rename_i pending
    split
    · trivial
    rename_i inTime
    have pinned : Steady config [(.proposal proposalId, .update),
        (.resolutionScope approver.keyId key, .update)] fun db =>
        db.resolutions.row (approver.keyId, key) = none ∧
          db.proposals.row proposalId = some proposal :=
      ((resolutions_guarded _ _).stable (.inr (by simp)) _).and
        ((proposals_guarded proposalId).stable (.inr (by simp)) _)
    rw [wp_bind]
    refine wp_honorTransfer (fun row => .approval approver key row proposalId reason) rfl pinned
      ⟨unspent, found⟩ (fun _ known => known.1) ?_
    intro result p row writes held₁ K₁ log' db more₁ stable₁ sane known₁ authority manual
      names decidedAt
      parked amount records ofRow founded
    have pinned₁ : Steady config held₁ fun db => Sane config db ∧ K₁ db :=
      sane_stable.and stable₁
    rw [wp_bind]
    refine wp_decideProposal pinned₁ ⟨sane, known₁⟩
      (fun db known => (founded db known.1 known.2).1.2) fun n held₂ db more₂ sane known₂ => ?_
    rw [wp_bind]
    refine wp_commits (pinned₁.mono more₂) known₂ (fun db sane known => ?_)
      fun db sane => ⟨rfl, rfl, sane⟩
    obtain ⟨⟨_, stored⟩, new, based, rfl⟩ := founded db sane known.2
    have approves : p.Approves approver row proposal :=
      { pending := not_not.mp pending
        other := other
        inTime := by rw [decidedAt]; exact not_le.mp inTime
        transferId := records.transferId.symm.trans names.transferId
        paymentIntentId := Option.some.inj
          (records.paymentIntentId.symm.trans names.paymentIntentId)
        attemptId := Option.some.inj (records.attemptId.symm.trans names.attemptId)
        allocateRaw := Option.some.inj amount
        requestHash := records.requestHash }
    have sound : p.Sound config log' db :=
      { toFounded := based
        authorized := by
          rw [Payment.Authorized, authority]
          exact ⟨parked, new, names, proposal, stored, approves⟩
        strategy := by simp [manual, authority]
        screened := by simp [authority] }
    have eff : Effect config log' db (p.writes db) := .pay p sound
    simpa [Payment.writes, Payment.resolutionWrites, Payment.operatorWrites, authority, ofRow,
      decidedAt] using eff

end
end CryptoGateway
