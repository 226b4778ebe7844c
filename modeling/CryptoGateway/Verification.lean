import CryptoGateway.Application

/-!
`gateway-application/src/observations.rs` and `verification.rs`: readings are resolved and stored,
and the verifier turns them into verdicts, reading the chain where it has to.
-/
namespace CryptoGateway
open Engine

inductive RefusalReason where
  | foreignEnvironment | foreignRecipient | retiredCollector | foreignChain
deriving DecidableEq, Repr

def CollectorState.isWatched (state : CollectorState) : Bool :=
  state = .active || state = .receivingOnly

/-- The address a reading belongs to and the asset its token is allowlisted as. -/
def ChainSource.resolve (source : ChainSource) (collectors : List CollectorWatch)
    (transfer : ObservedTransfer) : Except RefusalReason (Id × Option Id) :=
  if transfer.event.chain ≠ source.chain ∨ transfer.event.network ≠ source.network then
    .error .foreignChain
  else if transfer.event.chainEnvironment ≠ source.chainEnvironment then
    .error .foreignEnvironment
  else
    match collectors.filter (·.addressKey = transfer.toAddress) with
    | [] => .error .foreignRecipient
    | collector :: others =>
      if !collector.state.isWatched then .error .retiredCollector
      else .ok (collector.collectorAddressId,
        ((collector :: others).find? (·.tokenKey = transfer.tokenKey)).map (·.assetId))

def intake (source : ChainSource) (principal : Text) (lease : ComponentLease)
    (kind : ObservationKind) (collectors : List CollectorWatch)
    (transfers : List ObservedTransfer) (cursor : Option (Id × CursorPosition)) :
    Job RepositoryError IntakeReport := do
  let at_ ← now
  let resolved := transfers.filterMap fun transfer =>
    match source.resolve collectors transfer with
    | .ok (collectorAddressId, assetId) =>
      some { transfer, kind, collectorAddressId, assetId, observedAt := at_ : ResolvedObservation }
    | .error _ => none
  let report ← recordObservations source principal lease resolved
    (cursor.map fun (collectorAddressId, position) => (collectorAddressId, kind, position))
  pure { report with refused := transfers.length - resolved.length }

/-- A verified but not yet final event waits this long before it is read again. -/
def depthRereadInterval : Int := 15 * 1000000

inductive ChainReaderError where
  | unreachable | unparseable
deriving DecidableEq, Repr

def ChainReaderError.isTransient (error : ChainReaderError) : Bool := error = .unreachable

/-- What the chain answers when a pass asks for an event; the number counts how often
    the pass has asked for it before. -/
abbrev ChainReader := Nat → ChainEventKey → Except ChainReaderError (Option ObservedTransfer)

/-- A verification service: its own source, the database role it writes under and
    its window onto the chain. -/
structure Verifier where
  source : ChainSource
  principal : Text
  reader : ChainReader

inductive VerificationServiceError where
  | invalidBatchLimit
  | verification (error : VerificationError)
  | repository (error : RepositoryError)
deriving DecidableEq, Repr

namespace Verifier
variable (verifier : Verifier)

def lookup (asked : Nat) (event : ChainEventKey) :
    Job ChainReaderError (Option ObservedTransfer) := do
  watch (.asked event) fun _ => ()
  liftExcept id (verifier.reader asked event)

def hasOwnReread (evidence : List EvidenceReading) : Bool :=
  evidence.any fun reading =>
    reading.kind = .targetedLookup && reading.sourceId = verifier.source.id

def resolve (transfer : ObservedTransfer) (collectors : List CollectorWatch) :
    Option (Id × Option Id) :=
  (collectors.find? (·.addressKey = transfer.toAddress)).map fun collector =>
    (collector.collectorAddressId,
      (collectors.find? fun candidate => candidate.addressKey = transfer.toAddress &&
        candidate.tokenKey = transfer.tokenKey).map (·.assetId))

/-- Reads the event from the chain and stores the answer as evidence; whether the
    chain knew it. A failure of storage looks like an unreachable chain. -/
def reread (lease : ComponentLease) (asked : Nat) (event : ChainEventKey) :
    Job ChainReaderError Bool := do
  match ← verifier.lookup asked event with
  | none => pure false
  | some transfer => do
    let collectors ← (watchedCollectors verifier.source.chain verifier.source.network
      verifier.source.chainEnvironment).mapError fun _ => .unreachable
    match resolve transfer collectors with
    | none => pure false
    | some (collectorAddressId, assetId) => do
      let at_ ← now
      let _ ← (recordObservations verifier.source verifier.principal lease
        [{ transfer, kind := .targetedLookup, collectorAddressId, assetId,
           observedAt := at_ }] none).mapError fun _ => .unreachable
      pure true

/-- A verified event that is short of finality only for want of depth. -/
def awaitsDepth (verdict : Verdict) (policy : FinalityPolicy) : Bool :=
  match verdict with
  | .verified verified =>
    decide (verified.state ≠ .finalized) && decide
      (verified.confirmations < policy.minConfirmations)
  | _ => false

end Verifier

def Verdict.kind : Verdict → VerdictKind
  | .verified _ => .verified
  | .conflicted _ _ => .conflicted
  | .insufficient _ _ => .insufficient
  | .rejected _ _ => .rejected

/-- What a pass did with one event: its verdict unless it was skipped, and how its
    readings of the chain went. -/
structure Examined where
  verdict : Option VerdictKind
  missingPolicy : Bool
  rereadsPerformed : Nat
  rereadsFailed : Nat
deriving DecidableEq, Repr

structure VerificationReport where
  examined : Nat
  verified : Nat
  conflicted : Nat
  insufficient : Nat
  rejected : Nat
  rereadsPerformed : Nat
  rereadsFailed : Nat
  missingPolicy : Nat
deriving DecidableEq, Repr

/-- The counters of one pass, which at most 1000 events never saturate. -/
def VerificationReport.of (examined : List Examined) : VerificationReport where
  examined := examined.length
  verified := examined.countP (·.verdict = some .verified)
  conflicted := examined.countP (·.verdict = some .conflicted)
  insufficient := examined.countP (·.verdict = some .insufficient)
  rejected := examined.countP (·.verdict = some .rejected)
  rereadsPerformed := (examined.map (·.rereadsPerformed)).sum
  rereadsFailed := (examined.map (·.rereadsFailed)).sum
  missingPolicy := examined.countP (·.missingPolicy)

namespace Verifier
variable (verifier : Verifier) (lease : ComponentLease) (event : ChainEventKey)

def record (verdict : Verdict) (performed failed : Nat) :
    Job VerificationServiceError Examined := do
  let at_ ← now
  let _ ← (commitVerdict lease event verdict at_).mapError .repository
  pure ⟨some verdict.kind, false, performed, failed⟩

/-- Decides on the evidence and commits the verdict. Evidence that agrees on
    everything but depth is read once more, unless it was read in this pass. -/
def conclude (policy : FinalityPolicy) (evidence : List EvidenceReading) (readThisPass : Bool)
    (asked performed failed : Nat) : Job VerificationServiceError Examined := do
  let at_ ← now
  let verdict ← liftExcept .verification (verify evidence policy at_)
  if !readThisPass && awaitsDepth verdict policy then do
    match ← Proc.caught (verifier.reread lease asked event) with
    | .ok true => do
      let evidence ← (evidenceFor event).mapError .repository
      let at_ ← now
      let verdict ← liftExcept .verification (verify evidence policy at_)
      record lease event verdict (performed + 1) failed
    | _ => record lease event verdict performed (failed + 1)
  else record lease event verdict performed failed

/-- One round of the loop. Without a reading of its own the verifier asks the chain
    first; an unreachable chain leaves the event for the next pass. -/
def examine : Job VerificationServiceError Examined := do
  match ← (findFinalityPolicy event).mapError .repository with
  | none => pure ⟨none, true, 0, 0⟩
  | some policy => do
    let evidence ← (evidenceFor event).mapError .repository
    if verifier.hasOwnReread evidence then
      verifier.conclude lease event policy evidence false 0 0 0
    else do
      match ← Proc.caught (verifier.reread lease 0 event) with
      | .ok true => do
        let evidence ← (evidenceFor event).mapError .repository
        verifier.conclude lease event policy evidence true 1 1 0
      | .ok false => verifier.conclude lease event policy evidence false 1 0 1
      | .error error =>
        if error.isTransient then pure ⟨none, false, 0, 1⟩
        else verifier.conclude lease event policy evidence false 1 0 1

end Verifier

def verifyEvents (verifier : Verifier) (lease : ComponentLease) :
    List ChainEventKey → Job VerificationServiceError (List Examined)
  | [] => pure []
  | event :: rest => do
    let examined ← verifier.examine lease event
    let others ← verifyEvents verifier lease rest
    pure (examined :: others)

def verifyPending (order : RowOrder ChainEventKey) (verifier : Verifier) (lease : ComponentLease)
    (limit : Nat) : Job VerificationServiceError VerificationReport :=
  if limit = 0 ∨ 1000 < limit then .fail .invalidBatchLimit
  else do
    let at_ ← now
    let events ← (eventsAwaitingVerdict order limit
      (at_ - depthRereadInterval)).mapError .repository
    let examined ← verifyEvents verifier lease events
    pure (.of examined)

/-- A verdict that verifies a transfer names a transfer of the event. -/
def Verdict.About (event : ChainEventKey) : Verdict → Prop
  | .verified fact => fact.transfer.event = event
  | _ => True

end CryptoGateway
