import CryptoGateway.Application
import CryptoGateway.Domain.Digest

/-!
The digests of manual resolutions and of readings: two inputs that differ give the hash
different bytes.
-/
namespace CryptoGateway
open Bytes

def ManualResolutionAction.asStr : ManualResolutionAction → Text
  | .honor => "honor".toList
  | .reject => "reject".toList
  | .recordRemainderDisposition => "record_remainder_disposition".toList

def RemainderDisposition.asStr : RemainderDisposition → Text
  | .refundedExternally => "refunded_externally".toList
  | .creditedExternally => "credited_externally".toList
  | .donatedExternally => "donated_externally".toList
  | .retainedByAgreement => "retained_by_agreement".toList

/-- `Uuid::to_string`. -/
structure UuidText where
  render : Id → Text
  injective : Function.Injective render
  nonempty : ∀ id, render id ≠ []

section Resolutions
variable (uuid : UuidText) {r r' : ManualResolution}

def resolutionTexts (r : ManualResolution) : List Text :=
  [r.action.asStr, uuid.render r.transferId, (r.paymentIntentId.map uuid.render).getD [],
    (r.attemptId.map uuid.render).getD [], (r.allocateRaw.map digits).getD [],
    (r.remainderRaw.map digits).getD [], (r.disposition.map RemainderDisposition.asStr).getD [],
    r.externalReference.getD [], r.reason]

/-- The bytes that `manual_resolution_hash` digests. -/
def resolutionInput (r : ManualResolution) : List UInt8 :=
  ((resolutionTexts uuid r).map utf8).flatMap wideField

theorem map_getD_inj {α : Type} {render : α → Text} (injective : Function.Injective render)
    (nonempty : ∀ a, render a ≠ []) {a b : Option α}
    (same : (a.map render).getD [] = (b.map render).getD []) : a = b := by
  cases a with
  | none =>
    cases b with
    | none => rfl
    | some y => exact absurd same.symm (nonempty y)
  | some x =>
    cases b with
    | none => exact absurd same (nonempty x)
    | some y => exact congrArg some (injective same)

theorem validateManualResolution_reference (valid : validateManualResolution r = true) :
    r.externalReference ≠ some [] := by
  intro empty
  unfold validateManualResolution at valid
  split at valid
  · simp [empty] at valid
  · simp [empty] at valid
  · simp only [empty, Option.any_some, Bool.and_eq_true, decide_eq_true_eq] at valid
    exact absurd valid.2.1 (by decide)

theorem resolutionTexts_inj (valid : validateManualResolution r = true)
    (valid' : validateManualResolution r' = true)
    (same : resolutionTexts uuid r = resolutionTexts uuid r') : r = r' := by
  have present := validateManualResolution_reference valid
  have present' := validateManualResolution_reference valid'
  obtain ⟨action, transfer, intent, attempt, allocate, remainder, disposition,
    reference, reason⟩ := r
  obtain ⟨action', transfer', intent', attempt', allocate', remainder', disposition', reference',
    reason'⟩ := r'
  simp only [resolutionTexts, List.cons.injEq, and_true] at same
  obtain ⟨actions, transfers, intents, attempts, allocates, remainders, dispositions, references,
    reasons⟩ := same
  have action : action = action' := by
    revert actions
    cases action <;> cases action' <;> decide
  have disposition : disposition = disposition' := by
    refine map_getD_inj (fun a b => ?_) (fun a => ?_) dispositions
    · cases a <;> cases b <;> decide
    · cases a <;> decide
  have reference : reference = reference' := by
    cases reference <;> cases reference' <;> simp_all
  rw [action, uuid.injective transfers, map_getD_inj uuid.injective uuid.nonempty intents,
    map_getD_inj uuid.injective uuid.nonempty attempts,
    map_getD_inj digits_injective digits_ne_nil allocates,
    map_getD_inj digits_injective digits_ne_nil remainders, disposition, reference, reasons]

theorem resolutionInput_inj (valid : validateManualResolution r = true)
    (valid' : validateManualResolution r' = true)
    (short : ∀ text ∈ resolutionTexts uuid r, Text.byteLength text < 2 ^ 64)
    (short' : ∀ text ∈ resolutionTexts uuid r', Text.byteLength text < 2 ^ 64)
    (same : resolutionInput uuid r = resolutionInput uuid r') : r = r' := by
  have bytes : ∀ {texts : List Text}, (∀ text ∈ texts, Text.byteLength text < 2 ^ 64) →
      ∀ f ∈ texts.map utf8, f.length < 2 ^ 64 := by
    intro texts short f mem
    obtain ⟨text, listed, rfl⟩ := List.mem_map.mp mem
    rw [length_utf8]
    exact short text listed
  have texts := wideFields_inj (bytes short) (bytes short') same
  exact resolutionTexts_inj uuid valid valid' (List.map_injective_iff.mpr utf8_injective texts)

end Resolutions

section Readings
variable {a b : ObservedTransfer} {source source' : Id} {kind kind' : ObservationKind}

structure ObservedTransfer.Ranged (transfer : ObservedTransfer) (source : Id) : Prop where
  source : source < 2 ^ 128
  eventIndex : transfer.event.eventIndex < 2 ^ 32
  head : -2 ^ 63 ≤ transfer.sourceHead.getD (-1) ∧ transfer.sourceHead.getD (-1) < 2 ^ 63

theorem eventFields_inj (rangedA : a.Ranged source) (rangedB : b.Ranged source')
    (same : eventFields source a.event kind = eventFields source' b.event kind') :
    source = source' ∧ a.event = b.event ∧ kind = kind' := by
  simp only [eventFields, List.cons.injEq, and_true] at same
  obtain ⟨sources, chain, network, environment, kinds, hash, index⟩ := same
  have lane : kind = kind' := by
    have texts := utf8_injective kinds
    revert texts
    cases kind <;> cases kind' <;> decide
  have origin := bigEndian_injOn (show source < 256 ^ 16 from rangedA.source)
    (show source' < 256 ^ 16 from rangedB.source) sources
  have number := bigEndian_injOn (show a.event.eventIndex < 256 ^ 4 from rangedA.eventIndex)
    (show b.event.eventIndex < 256 ^ 4 from rangedB.eventIndex) index
  have event : a.event = b.event := by
    rw [ChainEventKey.mk.injEq]
    exact ⟨utf8_injective chain, utf8_injective network, utf8_injective environment,
      utf8_injective hash, number⟩
  exact ⟨origin, event, lane⟩

theorem digestInput_inj (rangedA : a.Ranged source) (rangedB : b.Ranged source')
    (shortA : ∀ f ∈ eventFields source a.event kind ++ a.claimFields kind, f.length < 2 ^ 32)
    (shortB : ∀ f ∈ eventFields source' b.event kind' ++ b.claimFields kind', f.length < 2 ^ 32)
    (same : a.digestInput source kind = b.digestInput source' kind') :
    a.semanticHash source kind = b.semanticHash source' kind' := by
  obtain ⟨named, claimed⟩ := List.append_inj (fields_inj shortA shortB same) (by simp [eventFields])
  obtain ⟨rfl, event, rfl⟩ := eventFields_inj rangedA rangedB named
  exact ObservedTransfer.claimFields_inj rangedA.head rangedB.head event claimed

end Readings

/-- Two resolutions that pass the check, and two readings that differ in a digested field,
    are never digested from the same bytes. -/
theorem digests_unambiguous (uuid : UuidText) :
    (∀ r r', validateManualResolution r = true → validateManualResolution r' = true →
      (∀ text ∈ resolutionTexts uuid r, Text.byteLength text < 2 ^ 64) →
      (∀ text ∈ resolutionTexts uuid r', Text.byteLength text < 2 ^ 64) →
      r ≠ r' → resolutionInput uuid r ≠ resolutionInput uuid r') ∧
    (∀ (a b : ObservedTransfer) (source source' : Id) (kind kind' : ObservationKind),
      a.Ranged source → b.Ranged source' →
      (∀ f ∈ eventFields source a.event kind ++ a.claimFields kind, f.length < 2 ^ 32) →
      (∀ f ∈ eventFields source' b.event kind' ++ b.claimFields kind', f.length < 2 ^ 32) →
      a.semanticHash source kind ≠ b.semanticHash source' kind' →
      a.digestInput source kind ≠ b.digestInput source' kind') := by
  constructor
  · intro r r' valid valid' short short' differ same
    exact differ (resolutionInput_inj uuid valid valid' short short' same)
  · intro a b source source' kind kind' rangedA rangedB shortA shortB differ same
    exact differ (digestInput_inj rangedA rangedB shortA shortB same)

def numberedUuid : UuidText := ⟨digits, digits_injective, digits_ne_nil⟩

def rejected (transfer : Id) : ManualResolution :=
  ⟨.reject, transfer, none, none, none, none, none, none, "late".toList⟩

def readingOf (amount : Nat) : ObservedTransfer :=
  ⟨⟨"tron".toList, "mainnet".toList, "production".toList, "ab".toList, 0⟩, none, none, none, [1],
    [2], [], [3], [], amount, 6, none, .success, .finalized, none⟩

theorem digests_unambiguous_samples :
    resolutionInput numberedUuid (rejected 1) ≠ resolutionInput numberedUuid (rejected 2) ∧
      (readingOf 5).digestInput 7 .cursorScan ≠ (readingOf 6).digestInput 7 .cursorScan :=
  ⟨(digests_unambiguous numberedUuid).1 _ _ (by decide) (by decide) (by decide +kernel)
      (by decide +kernel) (by decide),
    (digests_unambiguous numberedUuid).2 _ _ 7 7 .cursorScan .cursorScan
      ⟨by decide, by decide, by decide⟩ ⟨by decide, by decide, by decide⟩ (by decide +kernel)
      (by decide +kernel) (by decide)⟩

end CryptoGateway
