import CryptoGateway.Codec.Bytes
import CryptoGateway.Domain.Verification

/-!
`ObservedTransfer::semantic_hash` of `gateway-domain/src/chain.rs`: the digested bytes tell two
claims apart just where the digested fields differ.
-/
namespace CryptoGateway
open Bytes

def ObservationKind.asStr : ObservationKind → Text
  | .fastDetect => "fast_detect".toList
  | .cursorScan => "cursor_scan".toList
  | .targetedLookup => "targeted_lookup".toList

def SourceFinality.asStr : SourceFinality → Text
  | .seen => "seen".toList
  | .confirmed => "confirmed".toList
  | .finalized => "finalized".toList

theorem SourceFinality.asStr_injective : Function.Injective SourceFinality.asStr := by
  intro a b
  cases a <;> cases b <;> decide

/-- The eight bytes of an `i64`. -/
def int64Bytes (n : Int) : List UInt8 := bigEndian 8 (n % 2 ^ 64).toNat

theorem int64Bytes_injOn {a b : Int} (inA : -2 ^ 63 ≤ a ∧ a < 2 ^ 63)
    (inB : -2 ^ 63 ≤ b ∧ b < 2 ^ 63)
    (same : int64Bytes a = int64Bytes b) : a = b := by
  have := bigEndian_injOn (by omega) (by omega) same
  omega

/-- The fields that name the source, the event and the lane. -/
def eventFields (sourceId : Id) (event : ChainEventKey) (kind : ObservationKind) :
    List (List UInt8) :=
  [bigEndian 16 sourceId, utf8 event.chain, utf8 event.network, utf8 event.chainEnvironment,
    utf8 kind.asStr, utf8 event.txHash, bigEndian 4 event.eventIndex]

namespace ObservedTransfer

/-- The fields of the claim. Only the verifier's own reading is told apart by the head it
    was made at. -/
def claimFields (transfer : ObservedTransfer) (kind : ObservationKind) : List (List UInt8) :=
  [utf8 (transfer.blockHash.getD []), utf8 transfer.executionStatus.asStr,
    utf8 transfer.sourceFinality.asStr, transfer.tokenKey, transfer.toAddress,
    utf8 (digits transfer.amountRaw), utf8 (transfer.memo.elim [] (·.text))] ++
  if kind = .targetedLookup then [int64Bytes (transfer.sourceHead.getD (-1))] else []

/-- The bytes that SHA-256 digests. -/
def digestInput (transfer : ObservedTransfer) (sourceId : Id) (kind : ObservationKind) :
    List UInt8 :=
  fields (eventFields sourceId transfer.event kind ++ transfer.claimFields kind)

/-- What the types of the source make sure of, and a block hash below 4 GiB. -/
structure Bounded (transfer : ObservedTransfer) : Prop where
  tokenKey : transfer.tokenKey.length ≤ 64
  toAddress : transfer.toAddress.length ≤ 64
  amountRaw : transfer.amountRaw < rawLimit
  sourceHead : ∀ head, transfer.sourceHead = some head → -2 ^ 63 ≤ head ∧ head < 2 ^ 63
  blockHash : Text.byteLength (transfer.blockHash.getD []) < 2 ^ 32

section
variable {a b : ObservedTransfer} {sourceId : Id} {kind : ObservationKind}

theorem Bounded.digits_short (bounded : a.Bounded) : (digits a.amountRaw).length ≤ 78 :=
  (Nat.length_toDigits_le_iff (by decide) (by decide)).mpr
    (lt_trans bounded.amountRaw (by decide))

theorem Bounded.fields_short (bounded : a.Bounded) :
    ∀ f ∈ a.claimFields kind, f.length < 2 ^ 32 := by
  have hash : (utf8 (a.blockHash.getD [])).length < 2 ^ 32 := by
    rw [length_utf8]
    exact bounded.blockHash
  have status : (utf8 a.executionStatus.asStr).length < 2 ^ 32 := by
    cases a.executionStatus <;> decide
  have finality : (utf8 a.sourceFinality.asStr).length < 2 ^ 32 := by
    cases a.sourceFinality <;> decide
  have amount : (utf8 (digits a.amountRaw)).length < 2 ^ 32 := by
    have := length_utf8_le (digits a.amountRaw)
    have := bounded.digits_short
    omega
  have memo : (utf8 (a.memo.elim [] (·.text))).length < 2 ^ 32 := by
    have := length_utf8_le (a.memo.elim [] (·.text))
    cases reference : a.memo with
    | none => decide
    | some memo =>
      have := memo.short
      simp only [reference, Option.elim] at *
      omega
  have token := bounded.tokenKey
  have recipient := bounded.toAddress
  intro f mem
  simp only [claimFields, List.mem_append, List.mem_cons, List.not_mem_nil, or_false] at mem
  rcases mem with (rfl | rfl | rfl | rfl | rfl | rfl | rfl) | head
  · exact hash
  · exact status
  · exact finality
  · omega
  · omega
  · exact amount
  · exact memo
  · split at head
    · rw [List.mem_singleton.mp head]
      simp [int64Bytes]
    · cases head

theorem Bounded.head (bounded : a.Bounded) :
    -2 ^ 63 ≤ a.sourceHead.getD (-1) ∧ a.sourceHead.getD (-1) < 2 ^ 63 := by
  cases head : a.sourceHead with
  | none => decide
  | some n => exact bounded.sourceHead n head

theorem claimFields_inj (headA : -2 ^ 63 ≤ a.sourceHead.getD (-1) ∧ a.sourceHead.getD (-1) < 2 ^ 63)
    (headB : -2 ^ 63 ≤ b.sourceHead.getD (-1) ∧ b.sourceHead.getD (-1) < 2 ^ 63)
    (event : a.event = b.event) (same : a.claimFields kind = b.claimFields kind) :
    a.semanticHash sourceId kind = b.semanticHash sourceId kind := by
  obtain ⟨claim, head⟩ := List.append_inj same rfl
  simp only [List.cons.injEq, and_true] at claim
  obtain ⟨hash, status, finality, token, recipient, amount, memo⟩ := claim
  have depth : (if kind = .targetedLookup then some (a.sourceHead.getD (-1)) else none) =
      if kind = .targetedLookup then some (b.sourceHead.getD (-1)) else none := by
    by_cases own : kind = .targetedLookup
    · simp only [own, if_true] at head ⊢
      exact congrArg some (int64Bytes_injOn headA headB (List.cons.inj head).1)
    · simp [own]
  have amounts := digits_injective (utf8_injective amount)
  have statuses : a.executionStatus = b.executionStatus := by
    have text := utf8_injective status
    revert text
    cases a.executionStatus <;> cases b.executionStatus <;> decide
  simp only [semanticHash, SemanticHash.mk.injEq]
  exact ⟨trivial, event, trivial, utf8_injective hash, statuses,
    SourceFinality.asStr_injective (utf8_injective finality), token, recipient, amounts,
    utf8_injective memo, depth⟩

theorem digestInput_eq_iff (boundedA : a.Bounded) (boundedB : b.Bounded)
    (event : a.event = b.event) : a.digestInput sourceId kind = b.digestInput sourceId kind ↔
      a.semanticHash sourceId kind = b.semanticHash sourceId kind := by
  constructor
  · intro same
    simp only [digestInput, event, fields, List.flatMap_append, List.append_cancel_left_eq] at same
    exact claimFields_inj boundedA.head boundedB.head event
      (fields_inj boundedA.fields_short boundedB.fields_short same)
  · intro same
    simp only [semanticHash, SemanticHash.mk.injEq] at same
    obtain ⟨-, -, -, hash, status, finality, token, recipient, amount, memo, depth⟩ := same
    have head : (if kind = .targetedLookup then [int64Bytes (a.sourceHead.getD (-1))] else []) =
        if kind = .targetedLookup then [int64Bytes (b.sourceHead.getD (-1))] else [] := by
      by_cases own : kind = .targetedLookup
      · simp only [own, if_true] at depth ⊢
        rw [Option.some.inj depth]
      · simp [own]
    simp only [digestInput, claimFields, event, hash, status, finality, token, recipient, amount,
      memo, head]

end
end ObservedTransfer
end CryptoGateway
