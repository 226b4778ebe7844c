import CryptoGateway.Domain.Money
import CryptoGateway.Order.Dictionary
import CryptoGateway.Order.Distinct
import CryptoGateway.Order.Selection

/-!
`gateway-domain/src/verification.rs`: what a group of independent readings of one
chain event proves, and how final it is.
-/
namespace CryptoGateway

structure ChainEventKey where
  chain : Text
  network : Text
  chainEnvironment : Text
  txHash : Text
  eventIndex : Nat
deriving DecidableEq, Repr

abbrev AddressKey := List UInt8

inductive ObservationKind where
  | fastDetect | cursorScan | targetedLookup
deriving DecidableEq, Repr

inductive ExecutionStatus where
  | success | failed
deriving DecidableEq, Repr

def ExecutionStatus.asStr : ExecutionStatus → Text
  | .success => "success".toList
  | .failed => "failed".toList

inductive SourceFinality where
  | seen | confirmed | finalized
deriving DecidableEq, Repr

def SourceFinality.rank : SourceFinality → Nat
  | .seen => 0
  | .confirmed => 1
  | .finalized => 2

/-- One source's reading of one transfer. Block and head numbers are `i64` and not
    negative in storage. -/
structure ObservedTransfer where
  event : ChainEventKey
  blockNumber : Option Int
  blockHash : Option Text
  blockTime : Option Int
  tokenKey : AddressKey
  fromAddress : AddressKey
  fromAddressText : Text
  toAddress : AddressKey
  toAddressText : Text
  amountRaw : Nat
  decimals : Int
  memo : Option Memo
  executionStatus : ExecutionStatus
  sourceFinality : SourceFinality
  sourceHead : Option Int
deriving DecidableEq, Repr

/-- What a source claimed, by the fields that are digested: an exact repeat of one
    claim has the same hash. -/
structure SemanticHash where
  sourceId : Id
  event : ChainEventKey
  kind : ObservationKind
  blockHash : Text
  executionStatus : ExecutionStatus
  sourceFinality : SourceFinality
  tokenKey : AddressKey
  toAddress : AddressKey
  amountRaw : Nat
  memo : Text
  depth : Option Int
deriving DecidableEq, Repr

/-- Only the verifier's own reading is told apart by the head it was made at. -/
def ObservedTransfer.semanticHash (transfer : ObservedTransfer) (sourceId : Id)
    (kind : ObservationKind) : SemanticHash where
  sourceId := sourceId
  event := transfer.event
  kind := kind
  blockHash := transfer.blockHash.getD []
  executionStatus := transfer.executionStatus
  sourceFinality := transfer.sourceFinality
  tokenKey := transfer.tokenKey
  toAddress := transfer.toAddress
  amountRaw := transfer.amountRaw
  memo := transfer.memo.elim [] (·.text)
  depth := if kind = .targetedLookup then some (transfer.sourceHead.getD (-1)) else none

inductive SourceKind where
  | ownNode | hostedRpc | indexedApi
deriving DecidableEq, Repr

structure FinalityPolicy where
  version : Text
  minConfirmations : Int
  requiredSourceFinality : SourceFinality
  minIndependentGroups : Nat
  maxEvidenceAgeSeconds : Int
deriving DecidableEq, Repr

structure EvidenceReading where
  observationId : Id
  sourceId : Id
  providerGroup : Text
  sourceKind : SourceKind
  sourcePrincipal : Text
  declaredPrincipal : Text
  kind : ObservationKind
  assetId : Option Id
  collectorAddressId : Option Id
  transfer : ObservedTransfer
  observedAt : Int
deriving DecidableEq, Repr

inductive AttestationRole where
  | detection | reverify | finality | canonicality
deriving DecidableEq, Repr

structure CanonicalTransfer where
  event : ChainEventKey
  assetId : Id
  collectorAddressId : Id
  blockNumber : Int
  blockHash : Text
  blockTime : Int
  tokenKey : AddressKey
  fromAddress : AddressKey
  fromAddressText : Text
  toAddress : AddressKey
  toAddressText : Text
  amountRaw : Nat
  decimals : Int
  memo : Option Memo
deriving DecidableEq, Repr

/-- `discarded` lists the readings that an impersonated source wrote. -/
structure VerifiedTransfer where
  transfer : CanonicalTransfer
  attestations : List (Id × AttestationRole)
  independentGroups : Nat
  hadOwnNode : Bool
  state : TransferState
  confirmations : Int
  policyVersion : Text
  discarded : List Id
deriving DecidableEq, Repr

inductive ConflictField where
  | amountRaw | recipient | tokenKey | blockHash | blockNumber | executionStatus | memo | asset
deriving DecidableEq, Repr

def ConflictField.asStr : ConflictField → Text
  | .amountRaw => "amount_raw".toList
  | .recipient => "to_address_key".toList
  | .tokenKey => "token_key".toList
  | .blockHash => "block_hash".toList
  | .blockNumber => "block_number".toList
  | .executionStatus => "execution_status".toList
  | .memo => "memo".toList
  | .asset => "asset_id".toList

/-- Each conflicting reading with the value it claimed. -/
structure FieldConflict where
  field : ConflictField
  items : List (Id × Text)
deriving DecidableEq, Repr

inductive InsufficientReason where
  | noEvidence | noIndependentReread
  | notEnoughIndependentGroups (count need : Nat)
  | staleEvidence | missingBlockIdentity
deriving DecidableEq, Repr

def InsufficientReason.asStr : InsufficientReason → Text
  | .noEvidence => "no_evidence".toList
  | .noIndependentReread => "no_independent_reread".toList
  | .notEnoughIndependentGroups _ _ => "not_enough_independent_groups".toList
  | .staleEvidence => "stale_evidence".toList
  | .missingBlockIdentity => "missing_block_identity".toList

inductive RejectionReason where
  | unsupportedAsset | failedExecution | foreignRecipient
deriving DecidableEq, Repr

def RejectionReason.asStr : RejectionReason → Text
  | .unsupportedAsset => "unsupported_asset".toList
  | .failedExecution => "failed_execution".toList
  | .foreignRecipient => "foreign_recipient".toList

inductive Verdict where
  | verified (verified : VerifiedTransfer)
  | conflicted (conflicts : List FieldConflict) (discarded : List Id)
  | insufficient (reason : InsufficientReason) (discarded : List Id)
  | rejected (reason : RejectionReason) (discarded : List Id)
deriving DecidableEq, Repr

inductive VerificationError where
  | mixedEvents | policyOutOfRange
deriving DecidableEq, Repr

/-- Independence is counted by provider group, in 32 bits. -/
def independentGroups (readings : List EvidenceReading) : Nat :=
  min (readings.map (·.providerGroup)).eraseDups.length (2 ^ 32 - 1)

def maxOr (default : Int) (values : List Int) : Int := (values.max?).getD default

/-- Why agreeing evidence is still not enough to create a fact. -/
def insufficiency (readings : List EvidenceReading) (groups : Nat) (policy : FinalityPolicy)
    (at_ : Int) : Except VerificationError (Option InsufficientReason) :=
  if !readings.any (·.kind = .targetedLookup) then .ok (some .noIndependentReread)
  else if groups < policy.minIndependentGroups then
    .ok (some (.notEnoughIndependentGroups groups policy.minIndependentGroups))
  else
    let newest := maxOr 0 (readings.map (·.observedAt))
    match Instant.checkedAddSeconds newest policy.maxEvidenceAgeSeconds with
    | none => .error .policyOutOfRange
    | some deadline => .ok (if deadline < at_ then some .staleEvidence else none)

def ensureOneEvent (readings : List EvidenceReading) : Bool :=
  match readings with
  | [] => true
  | first :: rest => rest.all (·.transfer.event = first.transfer.event)

def digits (n : Nat) : Text := Nat.toDigits 10 n

def signedDigits (n : Int) : Text := if n < 0 then '-' :: digits n.natAbs else digits n.natAbs

def AddressKey.toHex (key : AddressKey) : Text :=
  key.flatMap fun byte => [Nat.digitChar (byte.toNat / 16), Nat.digitChar (byte.toNat % 16)]

/-- A field of one reading as text; a field that was not reported is no disagreement. -/
def comparedFields : List (ConflictField × (EvidenceReading → Option Text)) :=
  [(.amountRaw, fun r => some (digits r.transfer.amountRaw)),
    (.recipient, fun r => some r.transfer.toAddress.toHex),
    (.tokenKey, fun r => some r.transfer.tokenKey.toHex),
    (.executionStatus, fun r => some r.transfer.executionStatus.asStr),
    (.memo, fun r => some (r.transfer.memo.elim [] (·.text))),
    (.asset, fun r => some (r.assetId.elim "unknown".toList digits)),
    (.blockHash, fun r => r.transfer.blockHash),
    (.blockNumber, fun r => r.transfer.blockNumber.map signedDigits)]

def findConflicts (readings : List EvidenceReading) : List FieldConflict :=
  comparedFields.filterMap fun compared =>
    let items := readings.filterMap fun r => (compared.2 r).map fun value =>
      (r.observationId, value)
    if 1 < (items.map (·.2)).eraseDups.length then some ⟨compared.1, items⟩ else none

def rejection (readings : List EvidenceReading) : Option RejectionReason :=
  if readings.any (·.transfer.executionStatus = .failed) then some .failedExecution
  else if readings.any (·.assetId.isNone) then some .unsupportedAsset
  else if readings.any (·.collectorAddressId.isNone) then some .foreignRecipient
  else none

def ObservationKind.rank : ObservationKind → Nat
  | .targetedLookup => 2
  | .cursorScan => 1
  | .fastDetect => 0

/-- The last reading of the strongest kind, as `max_by_key` returns it. -/
def strongest (readings : List EvidenceReading) : Option EvidenceReading :=
  readings.foldl (fun best r =>
    match best with
    | none => some r
    | some b => if b.kind.rank ≤ r.kind.rank then some r else some b) none

def canonicalTransfer (readings : List EvidenceReading) : Option CanonicalTransfer := do
  let complete ← strongest (readings.filter fun r => r.transfer.blockNumber.isSome &&
    r.transfer.blockHash.isSome && r.transfer.blockTime.isSome)
  let assetId ← complete.assetId
  let collectorAddressId ← complete.collectorAddressId
  let blockNumber ← complete.transfer.blockNumber
  let blockHash ← complete.transfer.blockHash
  let blockTime ← complete.transfer.blockTime
  some
    { event := complete.transfer.event
      assetId, collectorAddressId, blockNumber, blockHash, blockTime
      tokenKey := complete.transfer.tokenKey
      fromAddress := complete.transfer.fromAddress
      fromAddressText := complete.transfer.fromAddressText
      toAddress := complete.transfer.toAddress
      toAddressText := complete.transfer.toAddressText
      amountRaw := complete.transfer.amountRaw
      decimals := complete.transfer.decimals
      memo := complete.transfer.memo }

/-- `saturating_sub` on an `i64`. -/
def saturatingSub (a b : Int) : Int := max (-2 ^ 63) (min (a - b) (2 ^ 63 - 1))

def confirmations (readings : List EvidenceReading) (blockNumber : Int) : Int :=
  max (maxOr 0 (readings.filterMap fun r =>
    r.transfer.sourceHead.map (saturatingSub · blockNumber))) 0

def EvidenceReading.role (reading : EvidenceReading) : AttestationRole :=
  if reading.kind = .targetedLookup then .reverify
  else if reading.transfer.sourceFinality = .finalized then .finality
  else .detection

/-- A `BTreeMap` by observation id. -/
def attestationRoles (readings : List EvidenceReading) : List (Id × AttestationRole) :=
  Dictionary.collect (readings.map fun r => (r.observationId, r.role))

def bestClaim (readings : List EvidenceReading) : Nat :=
  (readings.map (·.transfer.sourceFinality.rank)).foldl max SourceFinality.seen.rank

def finalityState (readings : List EvidenceReading) (depth : Int) (policy : FinalityPolicy) :
    TransferState :=
  if policy.requiredSourceFinality.rank ≤ bestClaim readings ∧ policy.minConfirmations ≤ depth then
    .finalized
  else if SourceFinality.confirmed.rank ≤ bestClaim readings then .confirmed
  else .canonical

/-- The writing principal is the one the source is registered under. -/
def EvidenceReading.genuine (reading : EvidenceReading) : Bool :=
  reading.sourcePrincipal = reading.declaredPrincipal

def verifyAccepted (accepted : List EvidenceReading) (discarded : List Id)
    (policy : FinalityPolicy) (at_ : Int) : Except VerificationError Verdict :=
  if accepted.isEmpty then .ok (.insufficient .noEvidence discarded)
  else if !(findConflicts accepted).isEmpty then
    .ok (.conflicted (findConflicts accepted) discarded)
  else
    match rejection accepted with
    | some reason => .ok (.rejected reason discarded)
    | none => do
      match ← insufficiency accepted (independentGroups accepted) policy at_ with
      | some reason => .ok (.insufficient reason discarded)
      | none =>
        match canonicalTransfer accepted with
        | none => .ok (.insufficient .missingBlockIdentity discarded)
        | some transfer =>
          let depth := confirmations accepted transfer.blockNumber
          .ok (.verified
            { transfer
              attestations := attestationRoles accepted
              independentGroups := independentGroups accepted
              hadOwnNode := accepted.any (·.sourceKind = .ownNode)
              state := finalityState accepted depth policy
              confirmations := depth
              policyVersion := policy.version
              discarded })

def verify (readings : List EvidenceReading) (policy : FinalityPolicy) (at_ : Int) :
    Except VerificationError Verdict :=
  if !ensureOneEvent readings then .error .mixedEvents
  else
    verifyAccepted (readings.filter (·.genuine))
      ((readings.filter (!·.genuine)).map (·.observationId)) policy at_

section Verified
variable {readings : List EvidenceReading}

theorem strongest_eq (readings : List EvidenceReading) :
    strongest readings = Selection.choose (fun r b => b.kind.rank ≤ r.kind.rank) readings := by
  unfold strongest Selection.choose
  congr 1
  funext best r
  cases best <;> rfl

theorem strongest_spec {r : EvidenceReading} (found : strongest readings = some r) :
    r ∈ readings ∧ ∀ s ∈ readings, s.kind.rank ≤ r.kind.rank := by
  rw [strongest_eq] at found
  have chosen := Selection.choose_chosen
    (Selection.decisive_ge fun r : EvidenceReading => r.kind.rank) found
  exact ⟨chosen.mem, chosen.greatest⟩

theorem strongest_eq_none : strongest readings = none ↔ readings = [] := by
  rw [strongest_eq]
  exact Selection.choose_eq_none

structure EvidenceReading.Gives (reading : EvidenceReading) (transfer : CanonicalTransfer) :
    Prop where
  event : reading.transfer.event = transfer.event
  assetId : reading.assetId = some transfer.assetId
  blockNumber : reading.transfer.blockNumber = some transfer.blockNumber
  blockHash : reading.transfer.blockHash = some transfer.blockHash
  tokenKey : reading.transfer.tokenKey = transfer.tokenKey
  toAddress : reading.transfer.toAddress = transfer.toAddress
  amountRaw : reading.transfer.amountRaw = transfer.amountRaw
  memo : reading.transfer.memo = transfer.memo

theorem canonicalTransfer_given {transfer : CanonicalTransfer}
    (found : canonicalTransfer readings = some transfer) : ∃ r ∈ readings, r.Gives transfer := by
  simp only [canonicalTransfer, bind, Option.bind_eq_some_iff, Option.some.injEq] at found
  obtain ⟨r, best, asset, hasAsset, _, _, number, hasNumber, hash, hasHash, _, _, rfl⟩ := found
  exact ⟨r, (List.mem_filter.mp (strongest_spec best).1).1, rfl, hasAsset, hasNumber,
    hasHash, rfl, rfl,
    rfl, rfl⟩

/-- What a verified verdict rests on: readings that agree and that nothing refuses. -/
structure Proven (accepted : List EvidenceReading) (policy : FinalityPolicy)
    (fact : VerifiedTransfer) : Prop where
  unconflicted : findConflicts accepted = []
  unrefused : rejection accepted = none
  transfer : canonicalTransfer accepted = some fact.transfer
  attestations : fact.attestations = attestationRoles accepted
  confirmations : fact.confirmations = confirmations accepted fact.transfer.blockNumber
  state : fact.state = finalityState accepted fact.confirmations policy

theorem verifyAccepted_verified {discarded : List Id} {policy : FinalityPolicy} {at_ : Int}
    {fact : VerifiedTransfer}
    (decided : verifyAccepted readings discarded policy at_ = .ok (.verified fact)) :
    Proven readings policy fact := by
  unfold verifyAccepted at decided
  simp only [bind, Except.bind] at decided
  repeat' split at decided
  all_goals cases decided
  rename_i agree _ unrefused _ _ _ _ _ transfer
  exact ⟨by simpa using agree, unrefused, transfer, rfl, rfl, rfl⟩

theorem verify_verified {policy : FinalityPolicy} {at_ : Int} {fact : VerifiedTransfer}
    (decided : verify readings policy at_ = .ok (.verified fact)) :
    Proven (readings.filter (·.genuine)) policy fact := by
  unfold verify at decided
  split at decided
  · cases decided
  · exact verifyAccepted_verified decided

end Verified

section Agreement

theorem digits_injective : Function.Injective digits := by
  intro a b same
  have value := congrArg (Nat.ofDigitChars 10 · 0) same
  simpa [digits, Nat.ofDigitChars_ten_toDigits] using value

theorem digits_ne_nil (k : Nat) : digits k ≠ [] := Nat.toDigits_ne_nil

theorem dash_notMem_digits (n : Nat) : '-' ∉ digits n := fun mem =>
  absurd (Nat.isDigit_of_mem_toDigits (by decide) (by decide) mem) (by decide)

theorem signedDigits_injective : Function.Injective signedDigits := by
  intro a b same
  unfold signedDigits at same
  split at same <;> split at same
  · have := digits_injective (List.cons.inj same).2
    omega
  · exact absurd (same ▸ List.mem_cons_self) (dash_notMem_digits _)
  · exact absurd (same ▸ List.mem_cons_self) (dash_notMem_digits _)
  · have := digits_injective same
    omega

theorem digitChar_injective {a b : Nat} (ha : a < 16) (hb : b < 16)
    (same : Nat.digitChar a = Nat.digitChar b) : a = b := by
  have all : ∀ a b : Fin 16, Nat.digitChar a = Nat.digitChar b → a = b := by decide
  exact congrArg Fin.val (all ⟨a, ha⟩ ⟨b, hb⟩ same)

theorem toHex_injective : Function.Injective AddressKey.toHex := by
  intro a
  induction a with
  | nil =>
    intro b same
    cases b with
    | nil => rfl
    | cons => simp [AddressKey.toHex] at same
  | cons x rest ih =>
    intro b same
    cases b with
    | nil => simp [AddressKey.toHex] at same
    | cons y rest' =>
      simp only [AddressKey.toHex, List.flatMap_cons, List.cons_append, List.nil_append,
        List.cons.injEq] at same
      have high := digitChar_injective (by have := x.toNat_lt; omega)
        (by have := y.toNat_lt; omega) same.1
      have low := digitChar_injective (Nat.mod_lt _ (by decide)) (Nat.mod_lt _ (by decide)) same.2.1
      have byte : x = y := UInt8.toNat_inj.mp (by omega)
      rw [byte, ih same.2.2]

theorem rejection_eq_none {readings : List EvidenceReading} (none_ : rejection readings = none)
    {r : EvidenceReading} (mem : r ∈ readings) :
    r.transfer.executionStatus = .success ∧ r.assetId.isSome ∧ r.collectorAddressId.isSome := by
  unfold rejection at none_
  repeat' split at none_
  all_goals cases none_
  rename_i failed unknown foreign
  refine ⟨?_, ?_, ?_⟩
  · cases status : r.transfer.executionStatus with
    | success => rfl
    | failed => exact absurd (List.any_eq_true.mpr ⟨r, mem, by simp [status]⟩) failed
  · cases asset : r.assetId with
    | some id => rfl
    | none => exact absurd (List.any_eq_true.mpr ⟨r, mem, by simp [asset]⟩) unknown
  · cases collector : r.collectorAddressId with
    | some id => rfl
    | none => exact absurd (List.any_eq_true.mpr ⟨r, mem, by simp [collector]⟩) foreign

/-- Two readings of one event say the same, as far as both say it. -/
structure EvidenceReading.Matches (a b : EvidenceReading) : Prop where
  amountRaw : a.transfer.amountRaw = b.transfer.amountRaw
  toAddress : a.transfer.toAddress = b.transfer.toAddress
  tokenKey : a.transfer.tokenKey = b.transfer.tokenKey
  memo : a.transfer.memo = b.transfer.memo
  assetId : a.assetId.isSome → b.assetId.isSome → a.assetId = b.assetId
  blockHash : ∀ x y, a.transfer.blockHash = some x → b.transfer.blockHash = some y → x = y
  blockNumber : ∀ x y, a.transfer.blockNumber = some x → b.transfer.blockNumber = some y → x = y

variable {readings : List EvidenceReading}

/-- Two of the readings report different values of a field. -/
def Conflicting (read : EvidenceReading → Option Text) (readings : List EvidenceReading) : Prop :=
  ∃ a ∈ readings, ∃ b ∈ readings, ∃ x y, read a = some x ∧ read b = some y ∧ x ≠ y

def conflictItems (read : EvidenceReading → Option Text) (readings : List EvidenceReading) :
    List (Id × Text) :=
  readings.filterMap fun r => (read r).map fun value => (r.observationId, value)

theorem one_lt_values {read : EvidenceReading → Option Text} :
    1 < ((conflictItems read readings).map (·.2)).eraseDups.length ↔ Conflicting read readings := by
  have reported : ∀ x, x ∈ (conflictItems read readings).map (·.2) ↔
      ∃ a ∈ readings, read a = some x := by
    intro x
    simp [conflictItems]
  rw [Distinct.one_lt_length_eraseDups]
  constructor
  · rintro ⟨x, inX, y, inY, differ⟩
    obtain ⟨a, memA, readA⟩ := (reported x).mp inX
    obtain ⟨b, memB, readB⟩ := (reported y).mp inY
    exact ⟨a, memA, b, memB, x, y, readA, readB, differ⟩
  · rintro ⟨a, memA, b, memB, x, y, readA, readB, differ⟩
    exact ⟨x, (reported x).mpr ⟨a, memA, readA⟩, y, (reported y).mpr ⟨b, memB, readB⟩, differ⟩

theorem mem_findConflicts {field : ConflictField} : field ∈ (findConflicts readings).map (·.field) ↔
      ∃ read, (field, read) ∈ comparedFields ∧ Conflicting read readings := by
  simp only [findConflicts, List.mem_map, List.mem_filterMap]
  constructor
  · rintro ⟨conflict, ⟨compared, listed, found⟩, rfl⟩
    split at found
    · rename_i many
      cases found
      exact ⟨compared.2, listed, one_lt_values.mp many⟩
    · cases found
  · rintro ⟨read, listed, conflicting⟩
    exact ⟨⟨field, conflictItems read readings⟩, ⟨_, listed,
      if_pos (one_lt_values.mpr conflicting)⟩, rfl⟩

theorem field_agrees (none_ : findConflicts readings = [])
    {compared : ConflictField × (EvidenceReading → Option Text)} {i : Nat}
    (listed : comparedFields[i]? = some compared)
    {a b : EvidenceReading} (ha : a ∈ readings) (hb : b ∈ readings) {x y : Text}
    (hx : compared.2 a = some x) (hy : compared.2 b = some y) : x = y := by
  by_contra differ
  have conflict := mem_findConflicts.mpr
    ⟨compared.2, List.mem_of_getElem? listed, a, ha, b, hb, x, y, hx, hy, differ⟩
  simp [none_] at conflict

theorem memo_eq_of_text {a b : Option Memo} (same : a.elim [] (·.text) = b.elim [] (·.text)) :
    a = b := by
  cases a with
  | none =>
    cases b with
    | none => rfl
    | some m => exact absurd same.symm m.nonEmpty
  | some m =>
    cases b with
    | none => exact absurd same m.nonEmpty
    | some m' =>
      obtain ⟨text, _, _⟩ := m
      obtain ⟨text', _, _⟩ := m'
      simp only [Option.elim] at same
      subst same
      rfl

theorem matches_of_unconflicted (none_ : findConflicts readings = []) {a b : EvidenceReading}
    (ha : a ∈ readings) (hb : b ∈ readings) : a.Matches b where
  amountRaw := digits_injective
    (field_agrees none_ (i := 0) rfl ha hb rfl rfl)
  toAddress := toHex_injective
    (field_agrees none_ (i := 1) rfl ha hb rfl rfl)
  tokenKey := toHex_injective
    (field_agrees none_ (i := 2) rfl ha hb rfl rfl)
  memo := memo_eq_of_text
    (field_agrees none_ (i := 4) rfl ha hb rfl rfl)
  assetId someA someB := by
    obtain ⟨x, hx⟩ := Option.isSome_iff_exists.mp someA
    obtain ⟨y, hy⟩ := Option.isSome_iff_exists.mp someB
    have text := field_agrees none_ (i := 5) rfl ha hb rfl rfl
    simp only [hx, hy, Option.elim] at text
    rw [hx, hy, digits_injective text]
  blockHash x y hx hy :=
    field_agrees none_ (i := 6) rfl ha hb hx hy
  blockNumber x y hx hy := signedDigits_injective
    (field_agrees none_ (i := 7) rfl ha hb
      (congrArg (Option.map signedDigits) hx) (congrArg (Option.map signedDigits) hy))

end Agreement
end CryptoGateway
