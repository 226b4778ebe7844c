import CryptoGateway.Domain.Verification
import Mathlib.Order.Bounds.Basic

/-!
What a verdict says of the readings it was made from: those of a verified transfer agree,
impersonated ones count for nothing, and their order decides nothing where equally strong ones
agree.
-/
namespace CryptoGateway

section Values
variable {values values' : List Int} {default : Int}

theorem maxOr_eq {m : Int} (greatest : IsGreatest {v | v ∈ values} m) :
    maxOr default values = m := by
  unfold maxOr
  rw [List.max?_eq_some_iff.mpr ⟨greatest.1, fun b mem => greatest.2 mem⟩]
  rfl

theorem maxOr_greatest (some_ : values ≠ []) (default : Int) :
    IsGreatest {v | v ∈ values} (maxOr default values) := by
  unfold maxOr
  cases found : values.max? with
  | none => exact absurd (List.max?_eq_none_iff.mp found) some_
  | some m =>
    obtain ⟨mem, upper⟩ := List.max?_eq_some_iff.mp found
    exact ⟨mem, fun v there => upper v there⟩

theorem maxOr_perm (perm : values.Perm values') : maxOr default values = maxOr default values' := by
  by_cases none_ : values' = []
  · subst none_
    rw [List.perm_nil.mp perm]
  · have greatest := maxOr_greatest none_ default
    exact maxOr_eq ⟨perm.mem_iff.mpr greatest.1, fun v mem => greatest.2 (perm.mem_iff.mp mem)⟩

end Values

section Soundness
variable {accepted : List EvidenceReading} {policy : FinalityPolicy} {now : Int}
  {fact : VerifiedTransfer}

def ConflictField.Differ : ConflictField → EvidenceReading → EvidenceReading → Prop
  | .amountRaw, a, b => a.transfer.amountRaw ≠ b.transfer.amountRaw
  | .recipient, a, b => a.transfer.toAddress ≠ b.transfer.toAddress
  | .tokenKey, a, b => a.transfer.tokenKey ≠ b.transfer.tokenKey
  | .blockHash, a, b =>
      ∃ x y, a.transfer.blockHash = some x ∧ b.transfer.blockHash = some y ∧ x ≠ y
  | .blockNumber, a, b =>
      ∃ x y, a.transfer.blockNumber = some x ∧ b.transfer.blockNumber = some y ∧ x ≠ y
  | .executionStatus, a, b => a.transfer.executionStatus ≠ b.transfer.executionStatus
  | .memo, a, b => a.transfer.memo ≠ b.transfer.memo
  | .asset, a, b => a.assetId ≠ b.assetId

theorem asStr_injective : Function.Injective ExecutionStatus.asStr := by
  intro a b
  cases a <;> cases b <;> decide

theorem memoText_injective : Function.Injective fun memo : Option Memo => memo.elim [] (·.text) :=
  fun _ _ => memo_eq_of_text

theorem assetText_injective :
    Function.Injective fun asset : Option Id => asset.elim "unknown".toList digits := by
  have known : ∀ id : Id, "unknown".toList ≠ digits id := by
    intro id same
    have letter : 'u' ∈ digits id := same ▸ by decide
    exact absurd (Nat.isDigit_of_mem_toDigits (by decide) (by decide) letter) (by decide)
  intro a b same
  cases a with
  | none =>
    cases b with
    | none => rfl
    | some id => exact absurd same (known id)
  | some id =>
    cases b with
    | none => exact absurd same.symm (known id)
    | some id' => exact congrArg some (digits_injective same)

theorem differ_iff {field : ConflictField} {read : EvidenceReading → Option Text}
    (listed : (field, read) ∈ comparedFields) (a b : EvidenceReading) :
    field.Differ a b ↔ ∃ x y, read a = some x ∧ read b = some y ∧ x ≠ y := by
  have texts : ∀ {x y : Text}, x ≠ y ↔ ∃ u v, some x = some u ∧ some y = some v ∧ u ≠ v := by
    intro x y
    simp
  simp only [comparedFields, List.mem_cons, Prod.mk.injEq, List.not_mem_nil, or_false] at listed
  rcases listed with ⟨rfl, rfl⟩ | ⟨rfl, rfl⟩ | ⟨rfl, rfl⟩ | ⟨rfl, rfl⟩ | ⟨rfl, rfl⟩ | ⟨rfl, rfl⟩ |
    ⟨rfl, rfl⟩ | ⟨rfl, rfl⟩
  · exact digits_injective.ne_iff.symm.trans texts
  · exact toHex_injective.ne_iff.symm.trans texts
  · exact toHex_injective.ne_iff.symm.trans texts
  · exact asStr_injective.ne_iff.symm.trans texts
  · exact memoText_injective.ne_iff.symm.trans texts
  · exact assetText_injective.ne_iff.symm.trans texts
  · exact Iff.rfl
  · constructor
    · rintro ⟨x, y, readA, readB, differ⟩
      exact ⟨signedDigits x, signedDigits y, congrArg _ readA, congrArg _ readB,
        signedDigits_injective.ne differ⟩
    · rintro ⟨_, _, readA, readB, differ⟩
      obtain ⟨x, hasA, rfl⟩ := Option.map_eq_some_iff.mp readA
      obtain ⟨y, hasB, rfl⟩ := Option.map_eq_some_iff.mp readB
      exact ⟨x, y, hasA, hasB, fun same => differ (congrArg _ same)⟩

theorem compared (field : ConflictField) : ∃ read, (field, read) ∈ comparedFields := by
  cases field <;> simp [comparedFields]

theorem findConflicts_fields (readings : List EvidenceReading) :
    (∀ field, field ∈ (findConflicts readings).map (·.field) ↔
      ∃ a ∈ readings, ∃ b ∈ readings, field.Differ a b) ∧
    ((findConflicts readings).map (·.field)).Nodup := by
  constructor
  · intro field
    rw [mem_findConflicts]
    constructor
    · rintro ⟨read, listed, a, inA, b, inB, differ⟩
      exact ⟨a, inA, b, inB, (differ_iff listed a b).mpr differ⟩
    · rintro ⟨a, inA, b, inB, differ⟩
      obtain ⟨read, listed⟩ := compared field
      exact ⟨read, listed, a, inA, b, inB, (differ_iff listed a b).mp differ⟩
  · have listed : ((findConflicts readings).map (·.field)).Sublist (comparedFields.map (·.1)) := by
      unfold findConflicts
      induction comparedFields with
      | nil => exact .slnil
      | cons compared rest ih =>
        rw [List.filterMap_cons]
        split
        · exact ih.cons _
        · rename_i conflict found
          simp only at found
          split at found
          · cases found
            exact ih.cons_cons _
          · cases found
    exact listed.nodup (by decide)

theorem newest_spec {r : EvidenceReading} (some_ : r ∈ accepted) : ∃ s ∈ accepted,
    (∀ t ∈ accepted, t.observedAt ≤ s.observedAt) ∧
      maxOr 0 (accepted.map (·.observedAt)) = s.observedAt := by
  have times : accepted.map (·.observedAt) ≠ [] := List.ne_nil_of_mem (List.mem_map_of_mem some_)
  obtain ⟨mem, upper⟩ := maxOr_greatest times 0
  obtain ⟨s, there, eq⟩ := List.mem_map.mp mem
  refine ⟨s, there, fun t other => ?_, eq.symm⟩
  rw [eq]
  exact upper (List.mem_map_of_mem other)

theorem insufficiency_eq_none_iff {groups : Nat} :
    insufficiency accepted groups policy now = .ok none ↔
      (∃ r ∈ accepted, r.kind = .targetedLookup) ∧ policy.minIndependentGroups ≤ groups ∧
        ∃ deadline, Instant.checkedAddSeconds (maxOr 0 (accepted.map (·.observedAt)))
          policy.maxEvidenceAgeSeconds = some deadline ∧ now ≤ deadline := by
  have reread : (!accepted.any (·.kind = .targetedLookup)) = false ↔
      ∃ r ∈ accepted, r.kind = .targetedLookup := by simp
  unfold insufficiency
  rw [← reread]
  split
  · rename_i unread
    simp [unread]
  · rename_i read
    simp only [Bool.eq_false_of_not_eq_true read, true_and]
    split
    · rename_i few
      simp only [Except.ok.injEq, reduceCtorEq, false_iff, not_and]
      omega
    · rename_i many
      cases Instant.checkedAddSeconds (maxOr 0 (accepted.map (·.observedAt)))
          policy.maxEvidenceAgeSeconds with
      | none => simp
      | some deadline => simp [Nat.le_of_not_lt many]

theorem insufficiency_eq_none {groups : Nat}
    (enough : insufficiency accepted groups policy now = .ok none) :
    (∃ r ∈ accepted, r.kind = .targetedLookup) ∧ policy.minIndependentGroups ≤ groups ∧
      now ≤ maxOr 0 (accepted.map (·.observedAt)) + policy.maxEvidenceAgeSeconds * 1000000 := by
  obtain ⟨reread, many, deadline, added, young⟩ := insufficiency_eq_none_iff.mp enough
  rw [Instant.checkedAddSeconds_eq added] at young
  exact ⟨reread, many, young⟩

theorem le_foldl_max {k : Nat} (values : List Nat) (m : Nat) :
    k ≤ values.foldl max m ↔ k ≤ m ∨ ∃ v ∈ values, k ≤ v := by
  induction values generalizing m with
  | nil => simp
  | cons v rest ih =>
    rw [List.foldl_cons, ih, le_max_iff]
    simp [or_assoc]

theorem le_bestClaim {k : Nat} {r : EvidenceReading} (some_ : r ∈ accepted) :
    k ≤ bestClaim accepted ↔ ∃ s ∈ accepted, k ≤ s.transfer.sourceFinality.rank := by
  rw [bestClaim, le_foldl_max]
  simp only [List.mem_map, exists_exists_and_eq_and]
  constructor
  · rintro (seen | claimed)
    · exact ⟨r, some_, le_trans seen (Nat.zero_le _)⟩
    · exact claimed
  · exact .inr

theorem verifyAccepted_sufficient {discarded : List Id}
    (decided : verifyAccepted accepted discarded policy now = .ok (.verified fact)) :
    insufficiency accepted (independentGroups accepted) policy now = .ok none := by
  unfold verifyAccepted at decided
  simp only [bind, Except.bind] at decided
  repeat' split at decided
  all_goals cases decided
  assumption

def headDistances (accepted : List EvidenceReading) (blockNumber : Int) : Set Int :=
  {d | d = 0 ∨ ∃ r ∈ accepted, ∃ head, r.transfer.sourceHead = some head ∧
    d = saturatingSub head blockNumber}

theorem confirmations_greatest (accepted : List EvidenceReading) (blockNumber : Int) :
    IsGreatest (headDistances accepted blockNumber) (confirmations accepted blockNumber) := by
  have mem : ∀ d, d ∈ headDistances accepted blockNumber ↔ d = 0 ∨
      d ∈ accepted.filterMap fun r => r.transfer.sourceHead.map (saturatingSub · blockNumber) := by
    intro d
    simp [headDistances, eq_comm]
  unfold confirmations
  generalize (accepted.filterMap fun r =>
    r.transfer.sourceHead.map (saturatingSub · blockNumber)) = distances at mem
  by_cases none_ : distances = []
  · subst none_
    exact ⟨(mem _).mpr (.inl rfl), fun d there => ((mem d).mp there).elim le_of_eq (by simp)⟩
  · have greatest := maxOr_greatest none_ 0
    constructor
    · rw [mem]
      rcases max_choice (maxOr 0 distances) 0 with eq | eq
      · rw [eq]
        exact .inr greatest.1
      · exact .inl eq
    · intro d there
      rcases (mem d).mp there with zero | reported
      · exact zero ▸ le_max_right _ _
      · exact le_trans (greatest.2 reported) (le_max_left _ _)

structure VerifiedTransfer.RestsOn (fact : VerifiedTransfer) (accepted : List EvidenceReading)
    (policy : FinalityPolicy) (now : Int) : Prop where
  succeeded : ∀ r ∈ accepted, r.transfer.executionStatus = .success
  asset : ∀ r ∈ accepted, r.assetId = some fact.transfer.assetId
  collector : ∀ r ∈ accepted, r.collectorAddressId.isSome
  amount : ∀ r ∈ accepted, r.transfer.amountRaw = fact.transfer.amountRaw
  recipient : ∀ r ∈ accepted, r.transfer.toAddress = fact.transfer.toAddress
  token : ∀ r ∈ accepted, r.transfer.tokenKey = fact.transfer.tokenKey
  memo : ∀ r ∈ accepted, r.transfer.memo = fact.transfer.memo
  blockHash : ∀ r ∈ accepted, ∀ hash, r.transfer.blockHash = some hash →
    hash = fact.transfer.blockHash
  blockNumber : ∀ r ∈ accepted, ∀ number, r.transfer.blockNumber = some number →
    number = fact.transfer.blockNumber
  groups : policy.minIndependentGroups ≤ (accepted.map (·.providerGroup)).toFinset.card
  reread : ∃ r ∈ accepted, r.kind = .targetedLookup
  young : ∃ r ∈ accepted, (∀ s ∈ accepted, s.observedAt ≤ r.observedAt) ∧
    now ≤ r.observedAt + policy.maxEvidenceAgeSeconds * 1000000
  confirmations : IsGreatest (headDistances accepted fact.transfer.blockNumber) fact.confirmations
  finalized : fact.state = .finalized ↔
    (∃ r ∈ accepted, policy.requiredSourceFinality.rank ≤ r.transfer.sourceFinality.rank) ∧
      policy.minConfirmations ≤ fact.confirmations

theorem verifyAccepted_sound {discarded : List Id}
    (decided : verifyAccepted accepted discarded policy now = .ok (.verified fact)) :
    fact.RestsOn accepted policy now := by
  have proven := verifyAccepted_verified decided
  obtain ⟨reread, groups, young⟩ := insufficiency_eq_none (verifyAccepted_sufficient decided)
  obtain ⟨given, mem, gives⟩ := canonicalTransfer_given proven.transfer
  have same : ∀ r ∈ accepted, r.Matches given := fun r there =>
    matches_of_unconflicted proven.unconflicted there mem
  have unrefused : ∀ r ∈ accepted, _ := fun r there => rejection_eq_none proven.unrefused there
  obtain ⟨newest, there, upper, eq⟩ := newest_spec mem
  refine ⟨fun r there => (unrefused r there).1, ?_, fun r there => (unrefused r there).2.2, ?_, ?_,
    ?_, ?_, ?_, ?_, ?_, reread, ?_, ?_, ?_⟩
  · intro r there
    rw [(same r there).assetId (unrefused r there).2.1 (unrefused given mem).2.1]
    exact gives.assetId
  · exact fun r there => (same r there).amountRaw.trans gives.amountRaw
  · exact fun r there => (same r there).toAddress.trans gives.toAddress
  · exact fun r there => (same r there).tokenKey.trans gives.tokenKey
  · exact fun r there => (same r there).memo.trans gives.memo
  · exact fun r there hash reported => (same r there).blockHash _ _ reported gives.blockHash
  · exact fun r there number reported => (same r there).blockNumber _ _ reported gives.blockNumber
  · rw [← Distinct.length_eraseDups]
    exact le_trans groups (min_le_left _ _)
  · rw [eq] at young
    exact ⟨newest, there, upper, young⟩
  · rw [proven.confirmations]
    exact confirmations_greatest accepted _
  · rw [proven.state, finalityState, ← le_bestClaim mem]
    split
    · rename_i final
      exact ⟨fun _ => final, fun _ => rfl⟩
    · rename_i open_
      refine ⟨fun final => ?_, fun final => absurd final open_⟩
      split at final <;> cases final

end Soundness

def Describe (event : ChainEventKey) (readings : List EvidenceReading) : Prop :=
  ∀ r ∈ readings, r.transfer.event = event

theorem ensureOneEvent_iff {readings : List EvidenceReading} : ensureOneEvent readings = true ↔
      ∀ a ∈ readings, ∀ b ∈ readings, a.transfer.event = b.transfer.event := by
  cases readings with
  | nil => simp [ensureOneEvent]
  | cons first rest =>
    simp only [ensureOneEvent, List.all_eq_true, decide_eq_true_eq]
    constructor
    · intro same
      have all : ∀ a ∈ first :: rest, a.transfer.event = first.transfer.event := by
        intro a mem
        rcases List.mem_cons.mp mem with rfl | behind
        · rfl
        · exact same a behind
      exact fun a inA b inB => (all a inA).trans (all b inB).symm
    · exact fun same a mem => same a (List.mem_cons_of_mem _ mem) first List.mem_cons_self

theorem Describe.one {event : ChainEventKey} {readings : List EvidenceReading}
    (describe : Describe event readings) : ensureOneEvent readings = true :=
  ensureOneEvent_iff.mpr fun a inA b inB => (describe a inA).trans (describe b inB).symm

theorem verify_eq {readings : List EvidenceReading} (one : ensureOneEvent readings = true)
    (policy : FinalityPolicy) (now : Int) :
    verify readings policy now = verifyAccepted (readings.filter (·.genuine))
      ((readings.filter (!·.genuine)).map (·.observationId)) policy now := by simp [verify, one]

theorem verifyAccepted_conflicted {accepted : List EvidenceReading} {a b : EvidenceReading}
    {field : ConflictField} (inA : a ∈ accepted) (inB : b ∈ accepted) (differ : field.Differ a b)
    (discarded : List Id) (policy : FinalityPolicy) (now : Int) :
    verifyAccepted accepted discarded policy now =
      .ok (.conflicted (findConflicts accepted) discarded) := by
  have listed := ((findConflicts_fields accepted).1 field).mpr ⟨a, inA, b, inB, differ⟩
  have some_ : accepted.isEmpty = false := List.isEmpty_eq_false_iff.mpr (List.ne_nil_of_mem inA)
  have conflict : (findConflicts accepted).isEmpty = false :=
    List.isEmpty_eq_false_iff.mpr fun none_ => by simp [none_] at listed
  simp [verifyAccepted, some_, conflict]

/-- A verified transfer is sound, and readings that differ are listed as a conflict by just
    the fields they differ in. -/
theorem verify_sound {event : ChainEventKey} {readings : List EvidenceReading}
    (describe : Describe event readings) (policy : FinalityPolicy) (now : Int) :
    (∀ fact, verify readings policy now = .ok (.verified fact) →
      fact.RestsOn (readings.filter (·.genuine)) policy now) ∧
    ((∃ field, ∃ a ∈ readings.filter (·.genuine), ∃ b ∈ readings.filter (·.genuine),
        ConflictField.Differ field a b) →
      ∃ conflicts discarded, verify readings policy now = .ok (.conflicted conflicts discarded) ∧
        (conflicts.map (·.field)).Nodup ∧
        ∀ field, field ∈ conflicts.map (·.field) ↔ ∃ a ∈ readings.filter (·.genuine),
          ∃ b ∈ readings.filter (·.genuine), field.Differ a b) := by
  rw [verify_eq describe.one]
  constructor
  · exact fun fact decided => verifyAccepted_sound decided
  · rintro ⟨field, a, inA, b, inB, differ⟩
    obtain ⟨exact_, once⟩ := findConflicts_fields (readings.filter (·.genuine))
    exact ⟨_, _, verifyAccepted_conflicted inA inB differ _ policy now, once, exact_⟩

namespace Sample

def lookup (id : Id) (group : Char) : EvidenceReading where
  observationId := id
  sourceId := id
  providerGroup := [group]
  sourceKind := .hostedRpc
  sourcePrincipal := ['p']
  declaredPrincipal := ['p']
  kind := .targetedLookup
  assetId := some 1
  collectorAddressId := some 2
  transfer := ⟨⟨['c'], ['n'], ['e'], ['x'], 0⟩, some 1, some ['h'], some 0, [2], [3], ['f'], [1],
    ['t'], 100, 6, none, .success, .confirmed, some 9⟩
  observedAt := 0

def lookupPolicy : FinalityPolicy := ⟨['v'], 2, .confirmed, 1, 3600⟩

def deepLookup : EvidenceReading :=
  { lookup 1 'a' with
    transfer := { (lookup 1 'a').transfer with
      blockNumber := some (-1), sourceHead := some (2 ^ 63 - 1) } }

def lookupFact (ids : List Id) (number time depth : Int) : VerifiedTransfer where
  transfer := ⟨⟨['c'], ['n'], ['e'], ['x'], 0⟩, 1, 2, number, ['h'], time, [2], [3], ['f'], [1],
    ['t'], 100, 6, none⟩
  attestations := ids.map (·, .reverify)
  independentGroups := ids.length
  hadOwnNode := false
  state := .finalized
  confirmations := depth
  policyVersion := ['v']
  discarded := []

/-- The distance of `2 ^ 63` is reported as one less. -/
theorem distance_saturates : ∃ fact head,
    verify [deepLookup] lookupPolicy 0 = .ok (.verified fact) ∧ deepLookup.genuine = true ∧
    deepLookup.transfer.sourceHead = some head ∧
    fact.confirmations < head - fact.transfer.blockNumber :=
  ⟨lookupFact [1] (-1) 0 (2 ^ 63 - 1), 2 ^ 63 - 1, by decide +kernel, by decide, rfl, by decide⟩

def pairPolicy : FinalityPolicy := { lookupPolicy with minIndependentGroups := 2 }

theorem sound_lookup :
    verify [lookup 1 'a', lookup 2 'b'] pairPolicy 0 =
      .ok (.verified (lookupFact [1, 2] 1 0 8)) ∧
    (lookupFact [1, 2] 1 0 8).RestsOn ([lookup 1 'a', lookup 2 'b'].filter (·.genuine))
      pairPolicy 0 := by
  have decided : verify [lookup 1 'a', lookup 2 'b'] pairPolicy 0 =
      .ok (.verified (lookupFact [1, 2] 1 0 8)) := by decide +kernel
  have describe : Describe ⟨['c'], ['n'], ['e'], ['x'], 0⟩ [lookup 1 'a', lookup 2 'b'] := by
    rintro r mem
    simp only [List.mem_cons, List.not_mem_nil, or_false] at mem
    rcases mem with rfl | rfl <;> rfl
  exact ⟨decided, (verify_sound describe pairPolicy 0).1 _ decided⟩

end Sample

section Influence

def Verdict.discarding (discarded : List Id) : Verdict → Verdict
  | .verified fact => .verified { fact with discarded }
  | .conflicted conflicts _ => .conflicted conflicts discarded
  | .insufficient reason _ => .insufficient reason discarded
  | .rejected reason _ => .rejected reason discarded

theorem verifyAccepted_discarding (accepted : List EvidenceReading) (discarded : List Id)
    (policy : FinalityPolicy) (now : Int) :
    (verifyAccepted accepted discarded policy now).map (Verdict.discarding []) =
      verifyAccepted accepted [] policy now := by
  unfold verifyAccepted
  split
  · rfl
  split
  · rfl
  split
  · rfl
  cases insufficiency accepted (independentGroups accepted) policy now with
  | error e => rfl
  | ok insufficient =>
    cases insufficient with
    | some reason => rfl
    | none => cases canonicalTransfer accepted <;> rfl

theorem impersonated_without_influence {event : ChainEventKey}
    {readings readings' : List EvidenceReading} (describe : Describe event readings)
    (describe' : Describe event readings')
    (same : readings.filter (·.genuine) = readings'.filter (·.genuine)) (policy : FinalityPolicy)
    (now : Int) :
    (verify readings policy now).map (Verdict.discarding []) =
      (verify readings' policy now).map (Verdict.discarding []) := by
  rw [verify_eq describe.one, verify_eq describe'.one, verifyAccepted_discarding,
    verifyAccepted_discarding, same]

end Influence

namespace Sample

def forged : EvidenceReading :=
  { lookup 3 'c' with
    sourcePrincipal := ['q'], transfer := { (lookup 3 'c').transfer with amountRaw := 900 } }

theorem forged_without_influence :
    (verify [forged, lookup 1 'a'] lookupPolicy 0).map (Verdict.discarding []) =
      (verify [lookup 1 'a'] lookupPolicy 0).map (Verdict.discarding []) := by
  have describe : Describe ⟨['c'], ['n'], ['e'], ['x'], 0⟩ [forged, lookup 1 'a'] :=
    List.forall_mem_cons.mpr ⟨rfl, List.forall_mem_singleton.mpr rfl⟩
  have describe' : Describe ⟨['c'], ['n'], ['e'], ['x'], 0⟩ [lookup 1 'a'] :=
    List.forall_mem_singleton.mpr rfl
  exact impersonated_without_influence describe describe' (by decide) lookupPolicy 0

end Sample

section Order
variable {accepted accepted' : List EvidenceReading}

structure FieldConflict.Alike (a b : FieldConflict) : Prop where
  field : a.field = b.field
  items : a.items.Perm b.items

inductive Verdict.Alike : Verdict → Verdict → Prop
  | verified {fact fact' : VerifiedTransfer}
      (same : { fact with discarded := [] } = { fact' with discarded := [] })
      (discarded : fact.discarded.Perm fact'.discarded) : Alike (.verified fact) (.verified fact')
  | conflicted {conflicts conflicts' : List FieldConflict} {discarded discarded' : List Id}
      (same : List.Forall₂ FieldConflict.Alike conflicts conflicts')
      (perm : discarded.Perm discarded') :
      Alike (.conflicted conflicts discarded) (.conflicted conflicts' discarded')
  | insufficient {discarded discarded' : List Id} (reason : InsufficientReason)
      (perm : discarded.Perm discarded') :
      Alike (.insufficient reason discarded) (.insufficient reason discarded')
  | rejected {discarded discarded' : List Id} (reason : RejectionReason)
      (perm : discarded.Perm discarded') :
      Alike (.rejected reason discarded) (.rejected reason discarded')

inductive Agree : Except VerificationError Verdict → Except VerificationError Verdict → Prop
  | error (e : VerificationError) : Agree (.error e) (.error e)
  | ok {v v' : Verdict} (alike : v.Alike v') : Agree (.ok v) (.ok v')

def EvidenceReading.complete (r : EvidenceReading) : Bool :=
  r.transfer.blockNumber.isSome && r.transfer.blockHash.isSome && r.transfer.blockTime.isSome

/-- A reading with a block identity that no other such reading outranks. The last of them in
    the list gives the canonical transfer. -/
structure EvidenceReading.Leads (r : EvidenceReading) (accepted : List EvidenceReading) :
    Prop where
  mem : r ∈ accepted
  complete : r.complete = true
  strongest : ∀ s ∈ accepted, s.complete = true → s.kind.rank ≤ r.kind.rank

structure Unequivocal (accepted : List EvidenceReading) : Prop where
  details : ∀ a b : EvidenceReading, a.Leads accepted → b.Leads accepted →
    a.collectorAddressId = b.collectorAddressId ∧
      a.transfer.blockTime = b.transfer.blockTime ∧
      a.transfer.fromAddress = b.transfer.fromAddress ∧
      a.transfer.fromAddressText = b.transfer.fromAddressText ∧
      a.transfer.toAddressText = b.transfer.toAddressText ∧
      a.transfer.decimals = b.transfer.decimals
  roles : (∃ r ∈ accepted, r.complete = true) → ∀ a ∈ accepted, ∀ b ∈ accepted,
    a.observationId = b.observationId → a.role = b.role

/-- The readings pass every check that comes before the canonical transfer. -/
structure Decisive (accepted : List EvidenceReading) (policy : FinalityPolicy) (now : Int) :
    Prop where
  unconflicted : findConflicts accepted = []
  unrefused : rejection accepted = none
  sufficient : insufficiency accepted (independentGroups accepted) policy now = .ok none

theorem findConflicts_perm (perm : accepted.Perm accepted') :
    List.Forall₂ FieldConflict.Alike (findConflicts accepted) (findConflicts accepted') := by
  unfold findConflicts
  induction comparedFields with
  | nil => exact .nil
  | cons compared rest ih =>
    have items : (conflictItems compared.2 accepted).Perm (conflictItems compared.2 accepted') :=
      perm.filterMap _
    have count : ((conflictItems compared.2 accepted).map (·.2)).eraseDups.length =
        ((conflictItems compared.2 accepted').map (·.2)).eraseDups.length :=
      Distinct.length_eraseDups_perm (items.map _)
    unfold conflictItems at items count
    simp only [List.filterMap_cons, count]
    by_cases many : 1 < ((accepted'.filterMap fun r =>
        (compared.2 r).map fun value => (r.observationId, value)).map (·.2)).eraseDups.length
    · rw [if_pos many, if_pos many]
      exact .cons ⟨rfl, items⟩ ih
    · rw [if_neg many, if_neg many]
      exact ih

theorem rejection_perm (perm : accepted.Perm accepted') :
    rejection accepted = rejection accepted' := by
  unfold rejection
  rw [perm.any_eq, perm.any_eq, perm.any_eq]

theorem independentGroups_perm (perm : accepted.Perm accepted') :
    independentGroups accepted = independentGroups accepted' := by
  unfold independentGroups
  rw [Distinct.length_eraseDups_perm (perm.map _)]

theorem insufficiency_perm (perm : accepted.Perm accepted') (groups : Nat)
    (policy : FinalityPolicy) (now : Int) :
    insufficiency accepted groups policy now = insufficiency accepted' groups policy now := by
  unfold insufficiency
  rw [perm.any_eq, maxOr_perm (perm.map _)]

theorem confirmations_perm (perm : accepted.Perm accepted') (blockNumber : Int) :
    confirmations accepted blockNumber = confirmations accepted' blockNumber := by
  unfold confirmations
  rw [maxOr_perm (perm.filterMap _)]

theorem finalityState_perm (perm : accepted.Perm accepted') (depth : Int)
    (policy : FinalityPolicy) :
    finalityState accepted depth policy = finalityState accepted' depth policy := by
  have best : bestClaim accepted = bestClaim accepted' := by
    unfold bestClaim
    exact (perm.map _).foldl_eq _
  unfold finalityState
  rw [best]

theorem attestationRoles_perm (perm : accepted.Perm accepted')
    (roles : ∀ a ∈ accepted, ∀ b ∈ accepted, a.observationId = b.observationId → a.role = b.role) :
    attestationRoles accepted = attestationRoles accepted' := by
  refine Dictionary.collect_perm (perm.map _) ?_
  intro x inX y inY same
  obtain ⟨a, memA, rfl⟩ := List.mem_map.mp inX
  obtain ⟨b, memB, rfl⟩ := List.mem_map.mp inY
  exact Prod.ext same (roles a memA b memB same)

def EvidenceReading.canonical (r : EvidenceReading) : Option CanonicalTransfer := do
  let assetId ← r.assetId
  let collectorAddressId ← r.collectorAddressId
  let blockNumber ← r.transfer.blockNumber
  let blockHash ← r.transfer.blockHash
  let blockTime ← r.transfer.blockTime
  some
    { event := r.transfer.event
      assetId, collectorAddressId, blockNumber, blockHash, blockTime
      tokenKey := r.transfer.tokenKey
      fromAddress := r.transfer.fromAddress
      fromAddressText := r.transfer.fromAddressText
      toAddress := r.transfer.toAddress
      toAddressText := r.transfer.toAddressText
      amountRaw := r.transfer.amountRaw
      decimals := r.transfer.decimals
      memo := r.transfer.memo }

theorem canonicalTransfer_eq (readings : List EvidenceReading) : canonicalTransfer readings =
      (strongest (readings.filter (·.complete))).bind EvidenceReading.canonical := rfl

theorem EvidenceReading.complete_some {r : EvidenceReading} (complete : r.complete = true) :
    ∃ number hash, r.transfer.blockNumber = some number ∧ r.transfer.blockHash = some hash := by
  simp only [EvidenceReading.complete, Bool.and_eq_true, Option.isSome_iff_exists] at complete
  obtain ⟨⟨⟨number, hasNumber⟩, hash, hasHash⟩, _⟩ := complete
  exact ⟨number, hash, hasNumber, hasHash⟩

theorem EvidenceReading.canonical_some (unrefused : rejection accepted = none)
    {r : EvidenceReading} (mem : r ∈ accepted) (complete : r.complete = true) :
    ∃ t, r.canonical = some t ∧ r.collectorAddressId = some t.collectorAddressId ∧
      r.transfer.blockTime = some t.blockTime ∧ r.transfer.fromAddress = t.fromAddress ∧
      r.transfer.fromAddressText = t.fromAddressText ∧
      r.transfer.toAddressText = t.toAddressText ∧ r.transfer.decimals = t.decimals := by
  obtain ⟨_, asset, collector⟩ := rejection_eq_none unrefused mem
  simp only [EvidenceReading.complete, Bool.and_eq_true] at complete
  obtain ⟨⟨number, hash⟩, time⟩ := complete
  obtain ⟨assetId, hasAsset⟩ := Option.isSome_iff_exists.mp asset
  obtain ⟨collectorId, hasCollector⟩ := Option.isSome_iff_exists.mp collector
  obtain ⟨blockNumber, hasNumber⟩ := Option.isSome_iff_exists.mp number
  obtain ⟨blockHash, hasHash⟩ := Option.isSome_iff_exists.mp hash
  obtain ⟨blockTime, hasTime⟩ := Option.isSome_iff_exists.mp time
  unfold EvidenceReading.canonical
  rw [hasAsset, hasCollector, hasNumber, hasHash, hasTime]
  exact ⟨_, rfl, rfl, rfl, rfl, rfl, rfl, rfl⟩

theorem canonical_eq (unconflicted : findConflicts accepted = [])
    (unrefused : rejection accepted = none)
    (one : ∀ a ∈ accepted, ∀ b ∈ accepted, a.transfer.event = b.transfer.event)
    (unequivocal : Unequivocal accepted) {a b : EvidenceReading} (leadsA : a.Leads accepted)
    (leadsB : b.Leads accepted) : a.canonical = b.canonical := by
  have same := matches_of_unconflicted unconflicted leadsA.mem leadsB.mem
  have asset := same.assetId (rejection_eq_none unrefused leadsA.mem).2.1
    (rejection_eq_none unrefused leadsB.mem).2.1
  obtain ⟨collector, time, sender, senderText, recipientText, decimals⟩ :=
    unequivocal.details a b leadsA leadsB
  obtain ⟨number, hash, hasNumber, hasHash⟩ := EvidenceReading.complete_some leadsA.complete
  obtain ⟨number', hash', hasNumber', hasHash'⟩ := EvidenceReading.complete_some leadsB.complete
  have numbers := same.blockNumber _ _ hasNumber hasNumber'
  have hashes := same.blockHash _ _ hasHash hasHash'
  unfold EvidenceReading.canonical
  rw [asset, collector, time, sender, senderText, recipientText, decimals, hasNumber, hasHash,
    hasNumber', hasHash', numbers, hashes, same.amountRaw, same.toAddress, same.tokenKey, same.memo,
    one a leadsA.mem b leadsB.mem]

theorem strongest_leads {r : EvidenceReading}
    (found : strongest (accepted.filter (·.complete)) = some r) : r.Leads accepted := by
  obtain ⟨inside, upper⟩ := strongest_spec found
  obtain ⟨mem, complete⟩ := List.mem_filter.mp inside
  exact ⟨mem, complete, fun s there whole => upper s (List.mem_filter.mpr ⟨there, whole⟩)⟩

theorem EvidenceReading.Leads.perm {r : EvidenceReading} (leads : r.Leads accepted)
    (perm : accepted.Perm accepted') : r.Leads accepted' :=
  ⟨perm.mem_iff.mp leads.mem, leads.complete,
    fun s there => leads.strongest s (perm.mem_iff.mpr there)⟩

theorem canonicalTransfer_some (unrefused : rejection accepted = none)
    (whole : ∃ r ∈ accepted, r.complete = true) : ∃ t, canonicalTransfer accepted = some t := by
  obtain ⟨r, mem, complete⟩ := whole
  cases found : strongest (accepted.filter (·.complete)) with
  | none =>
    exact absurd (List.mem_filter.mpr ⟨mem, complete⟩) (by simp [strongest_eq_none.mp found])
  | some s =>
    have leads := strongest_leads found
    obtain ⟨t, given, _⟩ := EvidenceReading.canonical_some unrefused leads.mem leads.complete
    exact ⟨t, by rw [canonicalTransfer_eq, found, Option.bind_some, given]⟩

theorem canonicalTransfer_perm (perm : accepted.Perm accepted')
    (unconflicted : findConflicts accepted = []) (unrefused : rejection accepted = none)
    (one : ∀ a ∈ accepted, ∀ b ∈ accepted, a.transfer.event = b.transfer.event)
    (unequivocal : Unequivocal accepted) :
    canonicalTransfer accepted = canonicalTransfer accepted' := by
  have filtered := perm.filter (·.complete)
  rw [canonicalTransfer_eq, canonicalTransfer_eq]
  cases found : strongest (accepted.filter (·.complete)) with
  | none =>
    have none_ := strongest_eq_none.mp found
    rw [none_] at filtered
    rw [strongest_eq_none.mpr (List.nil_perm.mp filtered)]
  | some a =>
    cases found' : strongest (accepted'.filter (·.complete)) with
    | none =>
      have none_ := strongest_eq_none.mp found'
      rw [none_] at filtered
      rw [strongest_eq_none.mpr (List.perm_nil.mp filtered)] at found
      cases found
    | some b =>
      exact canonical_eq unconflicted unrefused one unequivocal (strongest_leads found)
        ((strongest_leads found').perm perm.symm)

theorem verifyAccepted_perm {policy : FinalityPolicy} {now : Int} (perm : accepted.Perm accepted')
    (one : ∀ a ∈ accepted, ∀ b ∈ accepted, a.transfer.event = b.transfer.event)
    (unequivocal : Decisive accepted policy now → Unequivocal accepted)
    {discarded discarded' : List Id} (others : discarded.Perm discarded') :
    Agree (verifyAccepted accepted discarded policy now)
      (verifyAccepted accepted' discarded' policy now) := by
  have conflicts := findConflicts_perm perm
  have quiet : (findConflicts accepted).isEmpty = (findConflicts accepted').isEmpty := by
    rw [Bool.eq_iff_iff, List.isEmpty_iff_length_eq_zero, List.isEmpty_iff_length_eq_zero,
      conflicts.length_eq]
  unfold verifyAccepted
  rw [perm.isEmpty_eq, ← quiet]
  split
  · exact .ok (.insufficient _ others)
  split
  · exact .ok (.conflicted conflicts others)
  rename_i unconflicted
  replace unconflicted : findConflicts accepted = [] := by simpa using unconflicted
  rw [← rejection_perm perm]
  cases unrefused : rejection accepted with
  | some reason => exact .ok (.rejected reason others)
  | none =>
    simp only
    rw [← insufficiency_perm perm, ← independentGroups_perm perm]
    cases sufficient : insufficiency accepted (independentGroups accepted) policy now with
    | error e => exact .error e
    | ok insufficient =>
      cases insufficient with
      | some reason => exact .ok (.insufficient reason others)
      | none =>
        replace unequivocal := unequivocal ⟨unconflicted, unrefused, sufficient⟩
        rw [← canonicalTransfer_perm perm unconflicted unrefused one unequivocal]
        cases found : canonicalTransfer accepted with
        | none => exact .ok (.insufficient _ others)
        | some transfer =>
          obtain ⟨r, best, _⟩ := Option.bind_eq_some_iff.mp (canonicalTransfer_eq _ ▸ found)
          have leads := strongest_leads best
          refine .ok (.verified ?_ others)
          rw [attestationRoles_perm perm (unequivocal.roles ⟨r, leads.mem, leads.complete⟩),
            confirmations_perm perm, finalityState_perm perm, perm.any_eq]

end Order

/-! Where they do not agree, one of two orders puts either reading last. -/
section Last
variable {accepted accepted' rest readings readings' : List EvidenceReading}
  {policy : FinalityPolicy} {now : Int} {r : EvidenceReading}

theorem strongest_concat (weaker : ∀ s ∈ readings, s.kind.rank ≤ r.kind.rank) :
    strongest (readings ++ [r]) = some r := by
  unfold strongest
  rw [List.foldl_append, List.foldl_cons, List.foldl_nil]
  cases found : readings.foldl _ none with
  | none => rfl
  | some b => exact if_pos (weaker b (strongest_spec found).1)

theorem EvidenceReading.Leads.last (leads : r.Leads accepted)
    (perm : accepted.Perm (rest ++ [r])) : canonicalTransfer (rest ++ [r]) = r.canonical := by
  have alone : [r].filter (·.complete) = [r] := by simp [leads.complete]
  rw [canonicalTransfer_eq, List.filter_append, alone, strongest_concat, Option.bind_some]
  intro s inside
  obtain ⟨mem, complete⟩ := List.mem_filter.mp inside
  exact leads.strongest s (perm.mem_iff.mpr (List.mem_append_left _ mem)) complete

theorem Decisive.perm (decisive : Decisive accepted policy now) (perm : accepted.Perm accepted') :
    Decisive accepted' policy now where
  unconflicted := List.length_eq_zero_iff.mp (by
    rw [← (findConflicts_perm perm).length_eq, decisive.unconflicted, List.length_nil])
  unrefused := rejection_perm perm ▸ decisive.unrefused
  sufficient := by
    rw [← insufficiency_perm perm, ← independentGroups_perm perm, decisive.sufficient]

theorem Decisive.verified (decisive : Decisive accepted policy now) {t : CanonicalTransfer}
    (found : canonicalTransfer accepted = some t) (discarded : List Id) :
    ∃ fact, verifyAccepted accepted discarded policy now = .ok (.verified fact) ∧
      fact.transfer = t ∧ fact.attestations = attestationRoles accepted := by
  have some_ : accepted.isEmpty = false := by
    cases accepted with
    | nil => cases decisive.sufficient
    | cons first others => rfl
  unfold verifyAccepted
  simp only [some_, decisive.unconflicted, decisive.unrefused, decisive.sufficient, found]
  exact ⟨_, rfl, rfl, rfl⟩

theorem ensureOneEvent_perm (perm : readings.Perm readings') :
    ensureOneEvent readings = ensureOneEvent readings' := by
  rw [Bool.eq_iff_iff, ensureOneEvent_iff, ensureOneEvent_iff]
  simp only [perm.mem_iff]

theorem Decisive.verified_last (decisive : Decisive (readings.filter (·.genuine)) policy now)
    (one : ensureOneEvent readings = true) (mem : r ∈ readings.filter (·.genuine))
    (whole : ∃ s ∈ readings.filter (·.genuine), s.complete = true) :
    ∃ readings' rest fact, readings.Perm readings' ∧
      (readings.filter (·.genuine)).Perm (rest ++ [r]) ∧
      verify readings' policy now = .ok (.verified fact) ∧
      canonicalTransfer (rest ++ [r]) = some fact.transfer ∧
      fact.attestations = attestationRoles (rest ++ [r]) := by
  obtain ⟨there, genuine⟩ := List.mem_filter.mp mem
  have perm : readings.Perm (readings.erase r ++ [r]) :=
    (List.perm_cons_erase there).trans (List.perm_append_singleton r _).symm
  have last : (readings.erase r ++ [r]).filter (·.genuine) =
      (readings.erase r).filter (·.genuine) ++ [r] := by
    rw [List.filter_append]
    simp [genuine]
  have filtered := perm.filter (·.genuine)
  have decisive' := decisive.perm filtered
  obtain ⟨s, inside, complete⟩ := whole
  obtain ⟨t, found⟩ := canonicalTransfer_some decisive'.unrefused
    ⟨s, filtered.mem_iff.mp inside, complete⟩
  obtain ⟨fact, verified, rfl, roles⟩ := decisive'.verified found
    (((readings.erase r ++ [r]).filter (!·.genuine)).map (·.observationId))
  rw [← verify_eq (ensureOneEvent_perm perm ▸ one)] at verified
  rw [last] at filtered found roles
  exact ⟨_, _, fact, perm, filtered, verified, found, roles⟩

theorem Agree.verified {outcome : Except VerificationError Verdict} {fact fact' : VerifiedTransfer}
    (left : Agree outcome (.ok (.verified fact))) (right : Agree outcome (.ok (.verified fact'))) :
    fact.transfer = fact'.transfer ∧ fact.attestations = fact'.attestations := by
  cases left with
  | ok alike =>
    cases alike with
    | verified same =>
      cases right with
      | ok alike' =>
        cases alike' with
        | verified same' =>
          have both := same.symm.trans same'
          exact ⟨congrArg (·.transfer) both, congrArg (·.attestations) both⟩

theorem unequivocal_of_agree (one : ensureOneEvent readings = true)
    (decisive : Decisive (readings.filter (·.genuine)) policy now)
    (agree : ∀ readings', readings.Perm readings' →
      Agree (verify readings policy now) (verify readings' policy now)) :
    Unequivocal (readings.filter (·.genuine)) := by
  have last := fun {r : EvidenceReading} => decisive.verified_last (r := r) one
  constructor
  · intro a b leadsA leadsB
    obtain ⟨_, _, _, perm, permA, verified, given, _⟩ := last leadsA.mem
      ⟨a, leadsA.mem, leadsA.complete⟩
    obtain ⟨_, _, _, perm', permB, verified', given', _⟩ :=
      last leadsB.mem ⟨a, leadsA.mem, leadsA.complete⟩
    obtain ⟨same, _⟩ := (verified ▸ agree _ perm).verified (verified' ▸ agree _ perm')
    rw [leadsA.last permA] at given
    rw [leadsB.last permB, ← same] at given'
    obtain ⟨_, stated, collector, time, sender, senderText, recipientText, decimals⟩ :=
      EvidenceReading.canonical_some decisive.unrefused leadsA.mem leadsA.complete
    obtain ⟨_, stated', collector', time', sender', senderText', recipientText', decimals'⟩ :=
      EvidenceReading.canonical_some decisive.unrefused leadsB.mem leadsB.complete
    cases stated.symm.trans given
    cases stated'.symm.trans given'
    exact ⟨collector.trans collector'.symm, time.trans time'.symm, sender.trans sender'.symm,
      senderText.trans senderText'.symm, recipientText.trans recipientText'.symm,
      decimals.trans decimals'.symm⟩
  · intro whole a inA b inB sameId
    obtain ⟨_, rest, _, perm, _, verified, _, roles⟩ := last inA whole
    obtain ⟨_, rest', _, perm', _, verified', _, roles'⟩ := last inB whole
    obtain ⟨_, same⟩ := (verified ▸ agree _ perm).verified (verified' ▸ agree _ perm')
    rw [roles, roles', attestationRoles, attestationRoles, List.map_append, List.map_append,
      List.map_singleton, List.map_singleton] at same
    -- what stands last for an id stays
    have inside : (a.observationId, a.role) ∈ Dictionary.collect (rest.map (fun r =>
        (r.observationId, r.role)) ++ [(a.observationId, a.role)]) :=
      Dictionary.mem_collect_concat.mpr (.inl rfl)
    rw [same] at inside
    rcases Dictionary.mem_collect_concat.mp inside with eq | ⟨_, other⟩
    · exact congrArg Prod.snd eq
    · exact absurd sameId other

/-- The order of the readings decides nothing exactly where those that could give the
    canonical transfer, and those that share an id, say the same. -/
theorem verify_order_free (readings : List EvidenceReading) (policy : FinalityPolicy) (now : Int) :
    (∀ readings', readings.Perm readings' →
      Agree (verify readings policy now) (verify readings' policy now)) ↔
    (ensureOneEvent readings = true → Decisive (readings.filter (·.genuine)) policy now →
      Unequivocal (readings.filter (·.genuine))) := by
  refine ⟨fun agree one decisive => unequivocal_of_agree one decisive agree, ?_⟩
  intro unequivocal readings' perm
  have events := ensureOneEvent_perm perm
  cases one : ensureOneEvent readings with
  | false =>
    rw [one] at events
    simp only [verify, one, ← events]
    exact .error _
  | true =>
    rw [verify_eq one, verify_eq (events ▸ one)]
    refine verifyAccepted_perm (perm.filter _) ?_ (unequivocal one) ((perm.filter _).map _)
    exact fun a inA b inB => ensureOneEvent_iff.mp one a (List.mem_filter.mp inA).1 b
      (List.mem_filter.mp inB).1

end Last

namespace Sample

def laterLookup : EvidenceReading :=
  { lookup 2 'b' with transfer := { (lookup 2 'b').transfer with blockTime := some 1000000 } }

/-- The last of two equally strong readings gives the block time. -/
theorem order_decides_block_time : [lookup 1 'a', laterLookup].Perm [laterLookup, lookup 1 'a'] ∧
    ¬ Agree (verify [lookup 1 'a', laterLookup] lookupPolicy 0)
      (verify [laterLookup, lookup 1 'a'] lookupPolicy 0) := by
  have first : verify [lookup 1 'a', laterLookup] lookupPolicy 0 =
      .ok (.verified (lookupFact [1, 2] 1 1000000 8)) := by decide +kernel
  have second : verify [laterLookup, lookup 1 'a'] lookupPolicy 0 =
      .ok (.verified (lookupFact [1, 2] 1 0 8)) := by decide +kernel
  refine ⟨.swap .., fun agree => ?_⟩
  rw [first, second] at agree
  cases agree with
  | ok alike =>
    cases alike with
    | verified same => exact absurd same (by decide)

end Sample
end CryptoGateway
