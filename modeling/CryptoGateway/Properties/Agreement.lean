import CryptoGateway.Properties.Verdicts

/-!
More evidence that says the same never proves less: a verified event stays verified, by no fewer
groups, at no smaller depth and in no earlier state.
-/
namespace CryptoGateway

def TransferState.stage : TransferState → Option Nat
  | .canonical => some 0
  | .confirmed => some 1
  | .finalized => some 2
  | .observed | .invalidated => none

def TransferState.NotAfter (a b : TransferState) : Prop :=
  ∃ i j, a.stage = some i ∧ b.stage = some j ∧ i ≤ j

structure EvidenceReading.Agrees (r : EvidenceReading) (transfer : CanonicalTransfer) : Prop where
  succeeded : r.transfer.executionStatus = .success
  asset : r.assetId = some transfer.assetId
  collector : r.collectorAddressId.isSome
  amount : r.transfer.amountRaw = transfer.amountRaw
  recipient : r.transfer.toAddress = transfer.toAddress
  token : r.transfer.tokenKey = transfer.tokenKey
  memo : r.transfer.memo = transfer.memo
  blockHash : ∀ hash, r.transfer.blockHash = some hash → hash = transfer.blockHash
  blockNumber : ∀ number, r.transfer.blockNumber = some number → number = transfer.blockNumber

section Parts
variable {readings readings' : List EvidenceReading} {policy : FinalityPolicy}
  {transfer : CanonicalTransfer}

theorem EvidenceReading.Agrees.not_differ {a b : EvidenceReading} (agreesA : a.Agrees transfer)
    (agreesB : b.Agrees transfer) (field : ConflictField) : ¬ field.Differ a b := by
  cases field with
  | amountRaw => exact not_not_intro (agreesA.amount.trans agreesB.amount.symm)
  | recipient => exact not_not_intro (agreesA.recipient.trans agreesB.recipient.symm)
  | tokenKey => exact not_not_intro (agreesA.token.trans agreesB.token.symm)
  | executionStatus => exact not_not_intro (agreesA.succeeded.trans agreesB.succeeded.symm)
  | memo => exact not_not_intro (agreesA.memo.trans agreesB.memo.symm)
  | asset => exact not_not_intro (agreesA.asset.trans agreesB.asset.symm)
  | blockHash =>
    rintro ⟨x, y, hasA, hasB, differ⟩
    exact differ ((agreesA.blockHash x hasA).trans (agreesB.blockHash y hasB).symm)
  | blockNumber =>
    rintro ⟨x, y, hasA, hasB, differ⟩
    exact differ ((agreesA.blockNumber x hasA).trans (agreesB.blockNumber y hasB).symm)

theorem findConflicts_agreeing (agree : ∀ r ∈ readings, r.Agrees transfer) :
    findConflicts readings = [] := by
  have none_ : (findConflicts readings).map (·.field) = [] := by
    rw [List.eq_nil_iff_forall_not_mem]
    intro field listed
    obtain ⟨a, inA, b, inB, differ⟩ := ((findConflicts_fields readings).1 field).mp listed
    exact (agree a inA).not_differ (agree b inB) field differ
  exact List.map_eq_nil_iff.mp none_

theorem rejection_agreeing (agree : ∀ r ∈ readings, r.Agrees transfer) :
    rejection readings = none := by
  have succeeded : readings.any (·.transfer.executionStatus = .failed) = false := by
    rw [List.any_eq_false]
    intro r mem
    simp [(agree r mem).succeeded]
  have known : readings.any (·.assetId.isNone) = false := by
    rw [List.any_eq_false]
    intro r mem
    simp [(agree r mem).asset]
  have watched : readings.any (·.collectorAddressId.isNone) = false := by
    rw [List.any_eq_false]
    intro r mem
    simpa using Option.isSome_iff_ne_none.mp (agree r mem).collector
  simp [rejection, succeeded, known, watched]

theorem canonicalTransfer_agreeing (agree : ∀ r ∈ readings, r.Agrees transfer)
    {r : EvidenceReading} (mem : r ∈ readings) (complete : r.complete = true) :
    ∃ found, canonicalTransfer readings = some found ∧
      found.blockNumber = transfer.blockNumber := by
  have some_ : readings.filter (·.complete) ≠ [] :=
    List.ne_nil_of_mem (List.mem_filter.mpr ⟨mem, complete⟩)
  obtain ⟨best, chosen⟩ : ∃ best, strongest (readings.filter (·.complete)) = some best :=
    Option.ne_none_iff_exists'.mp (mt strongest_eq_none.mp some_)
  obtain ⟨there, whole⟩ := List.mem_filter.mp (strongest_spec chosen).1
  have agrees := agree best there
  obtain ⟨collector, watched⟩ := Option.isSome_iff_exists.mp agrees.collector
  simp only [EvidenceReading.complete, Bool.and_eq_true, Option.isSome_iff_exists] at whole
  obtain ⟨⟨⟨number, hasNumber⟩, hash, hasHash⟩, time, hasTime⟩ := whole
  rw [canonicalTransfer_eq, chosen]
  simp only [Option.bind_some, EvidenceReading.canonical, agrees.asset, watched, hasNumber, hasHash,
    hasTime, bind]
  exact ⟨_, rfl, agrees.blockNumber number hasNumber⟩

theorem independentGroups_mono (sub : readings ⊆ readings') :
    independentGroups readings ≤ independentGroups readings' := by
  have distinct := Distinct.length_eraseDups_mono (List.map_subset (·.providerGroup) sub)
  unfold independentGroups
  omega

theorem confirmations_mono (sub : readings ⊆ readings') (blockNumber : Int) :
    confirmations readings blockNumber ≤ confirmations readings' blockNumber := by
  refine (confirmations_greatest readings blockNumber).mono
    (confirmations_greatest readings' blockNumber) ?_
  rintro d (zero | ⟨r, mem, reported⟩)
  · exact .inl zero
  · exact .inr ⟨r, sub mem, reported⟩

theorem bestClaim_mono (sub : readings ⊆ readings') : bestClaim readings ≤ bestClaim readings' := by
  apply (le_foldl_max _ _).mpr
  rcases (le_foldl_max (k := bestClaim readings) _ _).mp le_rfl with seen | ⟨claim, mem, above⟩
  · exact .inl seen
  · exact .inr ⟨claim, List.map_subset _ sub mem, above⟩

theorem finalityState_mono (sub : readings ⊆ readings') {depth depth' : Int}
    (deeper : depth ≤ depth') :
    (finalityState readings depth policy).NotAfter (finalityState readings' depth' policy) := by
  have claim := bestClaim_mono sub
  unfold finalityState
  split
  · rename_i final
    rw [if_pos ⟨le_trans final.1 claim, le_trans final.2 deeper⟩]
    exact ⟨2, 2, rfl, rfl, le_rfl⟩
  · split
    · rename_i confirmed
      split
      · exact ⟨1, 2, rfl, rfl, by decide⟩
      · rw [if_pos (le_trans confirmed claim)]
        exact ⟨1, 1, rfl, rfl, le_rfl⟩
    · split
      · exact ⟨0, 2, rfl, rfl, by decide⟩
      · split
        · exact ⟨0, 1, rfl, rfl, by decide⟩
        · exact ⟨0, 0, rfl, rfl, le_rfl⟩

end Parts

section Monotone
variable {accepted accepted' : List EvidenceReading} {discarded discarded' : List Id}
  {policy : FinalityPolicy} {now : Int} {fact : VerifiedTransfer} {extra : EvidenceReading}

theorem VerifiedTransfer.RestsOn.agrees (rests : fact.RestsOn accepted policy now)
    {r : EvidenceReading} (mem : r ∈ accepted) : r.Agrees fact.transfer where
  succeeded := rests.succeeded r mem
  asset := rests.asset r mem
  collector := rests.collector r mem
  amount := rests.amount r mem
  recipient := rests.recipient r mem
  token := rests.token r mem
  memo := rests.memo r mem
  blockHash := rests.blockHash r mem
  blockNumber := rests.blockNumber r mem

theorem canonicalTransfer_complete {transfer : CanonicalTransfer}
    (found : canonicalTransfer accepted = some transfer) : ∃ r ∈ accepted, r.complete = true := by
  rw [canonicalTransfer_eq] at found
  obtain ⟨best, chosen, -⟩ := Option.bind_eq_some_iff.mp found
  exact ⟨best, List.mem_filter.mp (strongest_spec chosen).1⟩

theorem insufficiency_extended {groups groups' : Nat} (more : groups ≤ groups')
    (added : ∀ s, s ∈ accepted' ↔ s = extra ∨ s ∈ accepted)
    (deadline : (Instant.checkedAddSeconds extra.observedAt policy.maxEvidenceAgeSeconds).isSome)
    (enough : insufficiency accepted groups policy now = .ok none) :
    insufficiency accepted' groups' policy now = .ok none := by
  obtain ⟨⟨r, mem, reread⟩, many, old, oldAdded, young⟩ := insufficiency_eq_none_iff.mp enough
  obtain ⟨newest, there, upper, eq⟩ := newest_spec mem
  obtain ⟨newest', there', upper', eq'⟩ := newest_spec ((added r).mpr (.inr mem))
  have later : newest.observedAt ≤ newest'.observedAt := upper' newest ((added _).mpr (.inr there))
  refine insufficiency_eq_none_iff.mpr
    ⟨⟨r, (added r).mpr (.inr mem), reread⟩, le_trans many more, ?_⟩
  rw [eq] at oldAdded
  rw [eq']
  -- the newest reading is the one that was added, or it was the newest before
  have exists_ : (Instant.checkedAddSeconds newest'.observedAt
      policy.maxEvidenceAgeSeconds).isSome := by
    rcases (added newest').mp there' with rfl | before
    · exact deadline
    · rw [le_antisymm (upper newest' before) later, oldAdded]
      rfl
  obtain ⟨new, newAdded⟩ := Option.isSome_iff_exists.mp exists_
  refine ⟨new, newAdded, ?_⟩
  have oldEq := Instant.checkedAddSeconds_eq oldAdded
  have newEq := Instant.checkedAddSeconds_eq newAdded
  omega

theorem verifyAccepted_of_parts {transfer : CanonicalTransfer} (some_ : accepted ≠ [])
    (unconflicted : findConflicts accepted = []) (unrefused : rejection accepted = none)
    (enough : insufficiency accepted (independentGroups accepted) policy now = .ok none)
    (found : canonicalTransfer accepted = some transfer) :
    verifyAccepted accepted discarded policy now = .ok (.verified
      { transfer
        attestations := attestationRoles accepted
        independentGroups := independentGroups accepted
        hadOwnNode := accepted.any (·.sourceKind = .ownNode)
        state := finalityState accepted (confirmations accepted transfer.blockNumber) policy
        confirmations := confirmations accepted transfer.blockNumber
        policyVersion := policy.version
        discarded }) := by
  simp [verifyAccepted, some_, unconflicted, unrefused, enough, found, bind, Except.bind]

theorem verifyAccepted_groups
    (decided : verifyAccepted accepted discarded policy now = .ok (.verified fact)) :
    fact.independentGroups = independentGroups accepted := by
  have proven := verifyAccepted_verified decided
  obtain ⟨r, mem, -⟩ := canonicalTransfer_complete proven.transfer
  rw [verifyAccepted_of_parts (List.ne_nil_of_mem mem) proven.unconflicted proven.unrefused
    (verifyAccepted_sufficient decided) proven.transfer] at decided
  exact (congrArg VerifiedTransfer.independentGroups
    (Verdict.verified.inj (Except.ok.inj decided))).symm

theorem verifyAccepted_extended
    (decided : verifyAccepted accepted discarded policy now = .ok (.verified fact))
    (added : ∀ s, s ∈ accepted' ↔ s = extra ∨ s ∈ accepted) (agrees : extra.Agrees fact.transfer)
    (deadline : (Instant.checkedAddSeconds extra.observedAt policy.maxEvidenceAgeSeconds).isSome) :
    ∃ fact', verifyAccepted accepted' discarded' policy now = .ok (.verified fact') ∧
      fact.independentGroups ≤ fact'.independentGroups ∧
      fact.confirmations ≤ fact'.confirmations ∧ fact.state.NotAfter fact'.state := by
  have proven := verifyAccepted_verified decided
  have rests := verifyAccepted_sound decided
  have sub : accepted ⊆ accepted' := fun r mem => (added r).mpr (.inr mem)
  have agree : ∀ r ∈ accepted', r.Agrees fact.transfer := by
    intro r mem
    rcases (added r).mp mem with rfl | before
    · exact agrees
    · exact rests.agrees before
  obtain ⟨r, mem, complete⟩ := canonicalTransfer_complete proven.transfer
  obtain ⟨transfer, found, number⟩ := canonicalTransfer_agreeing agree (sub mem) complete
  have groups := independentGroups_mono sub
  have enough := insufficiency_extended groups added deadline (verifyAccepted_sufficient decided)
  have deeper : fact.confirmations ≤ confirmations accepted' transfer.blockNumber := by
    rw [proven.confirmations, number]
    exact confirmations_mono sub _
  refine ⟨_, verifyAccepted_of_parts (List.ne_nil_of_mem (sub mem)) (findConflicts_agreeing agree)
    (rejection_agreeing agree) enough found, ?_, deeper, ?_⟩
  · rw [verifyAccepted_groups decided]
    exact groups
  · rw [proven.state]
    exact finalityState_mono sub deeper

/-- A genuine reading of the same event that agrees with what the others prove, put anywhere
    among them, leaves the event verified, by no fewer groups, no less deep and in no earlier
    state. -/
theorem verify_monotone {before after : List EvidenceReading}
    (decided : verify (before ++ after) policy now = .ok (.verified fact))
    (genuine : extra.genuine = true) (event : extra.transfer.event = fact.transfer.event)
    (agrees : extra.Agrees fact.transfer)
    (deadline : (Instant.checkedAddSeconds extra.observedAt policy.maxEvidenceAgeSeconds).isSome) :
    ∃ fact', verify (before ++ extra :: after) policy now = .ok (.verified fact') ∧
      fact.independentGroups ≤ fact'.independentGroups ∧
      fact.confirmations ≤ fact'.confirmations ∧ fact.state.NotAfter fact'.state := by
  have one : ensureOneEvent (before ++ after) = true := by
    unfold verify at decided
    split at decided
    · cases decided
    · rename_i one
      simpa using one
  -- the event of the transfer is that of all readings, also of those that were discarded
  obtain ⟨given, mem, gives⟩ := canonicalTransfer_given (verify_verified decided).transfer
  have describe : Describe fact.transfer.event (before ++ extra :: after) := by
    intro r there
    have old : ∀ s ∈ before ++ after, s.transfer.event = fact.transfer.event := fun s inside =>
      (ensureOneEvent_iff.mp one s inside given (List.mem_filter.mp mem).1).trans gives.event
    rcases List.mem_append.mp there with inside | inside
    · exact old r (List.mem_append_left _ inside)
    · rcases List.mem_cons.mp inside with rfl | inside
      · exact event
      · exact old r (List.mem_append_right _ inside)
  rw [verify_eq one] at decided
  rw [verify_eq describe.one]
  refine verifyAccepted_extended decided (fun s => ?_) agrees deadline
  simp only [List.filter_append, List.filter_cons, genuine, if_true, List.mem_append, List.mem_cons]
  tauto

end Monotone

namespace Sample

def blindScan : EvidenceReading :=
  { lookup 2 'b' with
    kind := .cursorScan
    transfer := { (lookup 2 'b').transfer with
      blockNumber := none, blockHash := none, blockTime := none, sourceHead := some 12 } }

theorem blind_scan_agrees : blindScan.Agrees (lookupFact [1] 1 0 8).transfer where
  succeeded := rfl
  asset := rfl
  collector := rfl
  amount := rfl
  recipient := rfl
  token := rfl
  memo := rfl
  blockHash _ reported := by cases reported
  blockNumber _ reported := by cases reported

theorem verify_monotone_lookup :
    verify [lookup 1 'a'] lookupPolicy 0 = .ok (.verified (lookupFact [1] 1 0 8)) ∧
    ∃ fact', verify [blindScan, lookup 1 'a'] lookupPolicy 0 = .ok (.verified fact') ∧
      1 ≤ fact'.independentGroups ∧ 8 ≤ fact'.confirmations ∧
      TransferState.finalized.NotAfter fact'.state := by
  have decided : verify ([] ++ [lookup 1 'a']) lookupPolicy 0 =
      .ok (.verified (lookupFact [1] 1 0 8)) := by decide +kernel
  exact ⟨decided, verify_monotone decided (by decide) rfl blind_scan_agrees (by decide)⟩

end Sample
end CryptoGateway
