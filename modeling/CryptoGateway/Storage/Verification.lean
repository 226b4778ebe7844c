import CryptoGateway.Storage.Statements

/-!
`gateway-storage/src/verification.rs` and `observations.rs`: readings, verdicts, canonical
transfers with the walk of their state, and the component lease.
-/
namespace CryptoGateway
open Engine

def nextStep : TransferState → TransferState → Option TransferState
  | .canonical, .confirmed => some .confirmed
  | .canonical, .finalized => some .confirmed
  | .confirmed, .finalized => some .finalized
  | _, _ => none

def TransferState.asStr : TransferState → Text
  | .observed => "observed".toList
  | .canonical => "canonical".toList
  | .confirmed => "confirmed".toList
  | .finalized => "finalized".toList
  | .invalidated => "invalidated".toList

/-- No later verdict moves a transfer on. -/
def TransferState.closed (state : TransferState) : Bool :=
  state = .finalized || state = .invalidated

inductive VerdictOutcome where
  | transferCreated (id : Id) | transferAdvanced (id : Id) | conflictRecorded | pending | refused
deriving DecidableEq, Repr

/-- The columns of `chain_transfers` that are read again. -/
def CanonicalTransfer.row (transfer : CanonicalTransfer) : TransferRow where
  event := transfer.event
  assetId := transfer.assetId
  collectorAddressId := transfer.collectorAddressId
  blockNumber := transfer.blockNumber
  blockHash := transfer.blockHash
  blockTime := transfer.blockTime
  tokenKey := transfer.tokenKey
  toAddress := transfer.toAddress
  amountRaw := transfer.amountRaw
  memo := transfer.memo

def Db.transferOf (db : Db) (event : ChainEventKey) : Option Id :=
  (db.transfers.entries.find? (·.2.event = event)).map (·.1)

inductive TransferInsert where
  | created | conflict | invalid
deriving DecidableEq, Repr

/-- `INSERT INTO chain_transfers ... ON CONFLICT DO NOTHING`. The amount's CHECK
    and the foreign key (collector, asset) make it fail outright. -/
def insertTransfer (id : Id) (row : TransferRow) : Exec TransferInsert :=
  fun _ newest _ =>
    if row.amountRaw = 0 then Reply.value .invalid
    else if (newest.transferOf row.event).isSome then Reply.value .conflict
    else if (newest.transfers.row id).isSome ||
        (newest.collectors.row row.collectorAddressId).map (·.assetId) ≠ some row.assetId then
      Reply.value .invalid
    else Reply.wrote [.insertTransfer id row] .created

def canonicalState : StateRow := { state := .canonical, stateVersion := 1 }

def pendingProcessing : ProcessingRow :=
  { processingState := .pending, allocatedRaw := 0, lastError := none }

def insertStateEvent (transferId : Id) (previous : Option TransferState) (newState : TransferState)
    (stateVersion : Nat) : Job RepositoryError Unit :=
  orViolation fun _ newest _ =>
    if (newest.stateEvents.row (transferId, stateVersion)).isSome then
      Reply.value (some .unavailable)
    else Reply.wrote [.insertStateEvent transferId stateVersion ⟨previous, newState⟩] none

def openTransferLifecycle (transferId : Id) : Job RepositoryError Unit := do
  insertStateEvent transferId none .canonical 1
  orViolation fun _ newest _ =>
    if (newest.transferStates.row transferId).isSome then Reply.value (some .unavailable)
    else Reply.wrote [.insertTransferState transferId canonicalState] none
  orViolation fun _ newest _ =>
    if (newest.processing.row transferId).isSome then Reply.value (some .unavailable)
    else Reply.wrote [.insertProcessing transferId pendingProcessing] none

def Db.observation (db : Db) (id : Id) : Option ObservationRow :=
  (db.observations.row id).filter (!·.purged)

def Db.sourceOf (db : Db) (observationId : Id) : Option SourceRow :=
  (db.observation observationId).bind fun row => db.catalog.sources row.sourceId

/-- `INSERT INTO chain_transfer_attestations ... SELECT ... ON CONFLICT DO NOTHING`; the
    foreign key finds out that the reading was deleted meanwhile. -/
def insertAttestation (transferId observationId : Id) : Exec (Option RepositoryError) :=
  fun seen newest _ =>
    match seen.sourceOf observationId, newest.attestations.row observationId with
    | some source, none =>
      if (newest.observation observationId).isNone then Reply.value (some .unavailable)
      else Reply.wrote
        [.insertAttestation observationId
          { transferId
            providerGroup := source.providerGroup
            ownNode := decide (source.kind = .ownNode) }] none
    | _, _ => Reply.value none

def insertAttestations (transferId : Id) : List (Id × AttestationRole) → Job RepositoryError Unit
  | [] => pure ()
  | (observation, _) :: rest => do
    match ← Proc.stmt (some (.attesting observation)) (insertAttestation transferId observation)
      .done with
    | some error => .fail error
    | none => insertAttestations transferId rest

def swapState (transferId : Id) (current : StateRow) (next : TransferState) : Exec Nat :=
  updateOne (.transferState transferId)
    (fun db => (db.transferStates.row transferId).filter (· = current))
    fun row => [.setTransferState transferId
      { state := next, stateVersion := row.stateVersion + 1 }]

/-- The loop of `advance_state`. Each round moves the state one step towards
    finality, of which there are two, or leaves. -/
def advanceState (transferId : Id) (target : TransferState) : Nat → Job RepositoryError Unit
  | 0 => pure ()
  | rounds + 1 => do
    let current ← select (·.transferStates.row transferId)
    let current ← orFail (.corruptData "a canonical transfer has no current state") current
    match nextStep current.state target with
    | none => pure ()
    | some next => do
      let swapped ← execute (swapState transferId current next)
      if swapped ≠ 1 then pure ()
      else do
        insertStateEvent transferId (some current.state) next (current.stateVersion + 1)
        advanceState transferId target rounds

/-- The upsert into `chain_event_verdicts`: a verdict without a transfer keeps the
    one that an earlier verdict named. -/
def verdictRow (event : ChainEventKey) (verdict : VerdictKind) (reason : Text)
    (transferId : Option Id) (at_ : Int) (db : Db) : VerdictRow where
  verdict := verdict
  reason := reason
  transferId := transferId.or ((db.verdicts.row event).bind (·.transferId))
  decidedAt := at_

def recordVerdict (event : ChainEventKey) (verdict : VerdictKind) (reason : Text)
    (transferId : Option Id) (at_ : Int) : Job RepositoryError Unit :=
  execute fun _ newest _ =>
    Reply.wrote [.putVerdict event (verdictRow event verdict reason transferId at_ newest)] ()

def commitVerified (event : ChainEventKey) (verified : VerifiedTransfer) (at_ : Int) :
    Job RepositoryError VerdictOutcome := do
  let fresh ← uuid
  match ← execute (insertTransfer fresh verified.transfer.row) with
  | .invalid => .fail .unavailable
  | .created => do
    openTransferLifecycle fresh
    insertAttestations fresh verified.attestations
    advanceState fresh verified.state 3
    recordVerdict event .verified verified.state.asStr (some fresh) at_
    pure (.transferCreated fresh)
  | .conflict => do
    let existing ← select (·.transferOf verified.transfer.event)
    let existing ← orFail
      (.corruptData "a canonical transfer vanished between insert and read") existing
    insertAttestations existing verified.attestations
    advanceState existing verified.state 3
    recordVerdict event .verified verified.state.asStr (some existing) at_
    pure (.transferAdvanced existing)

/-- The conflict rows are read by nothing here; their foreign keys still take locks. -/
def commitConflicts (conflicts : List FieldConflict) : Job RepositoryError Unit :=
  execute fun _ _ _ => Reply.locked
    (conflicts.flatMap fun conflict => conflict.items.map fun item =>
      (.observation item.1, .keyShare)) ()

def conflictFields (conflicts : List FieldConflict) : Text :=
  (conflicts.map (·.field.asStr)).intersperse [','] |>.flatten

def applyVerdict (event : ChainEventKey) (verdict : Verdict) (at_ : Int) :
    Job RepositoryError VerdictOutcome :=
  match verdict with
  | .verified verified => commitVerified event verified at_
  | .conflicted conflicts _ => do
    commitConflicts conflicts
    recordVerdict event .conflicted (conflictFields conflicts) none at_
    pure .conflictRecorded
  | .insufficient reason _ => do
    recordVerdict event .insufficient reason.asStr none at_
    pure .pending
  | .rejected reason _ => do
    recordVerdict event .rejected reason.asStr none at_
    pure .refused

def commitVerdict (lease : ComponentLease) (event : ChainEventKey) (verdict : Verdict)
    (at_ : Int) : Job RepositoryError VerdictOutcome :=
  Proc.transaction do
    holdLease lease
    let outcome ← applyVerdict event verdict at_
    commit
    pure outcome

def findFinalityPolicy (event : ChainEventKey) : Job RepositoryError (Option FinalityPolicy) :=
  select fun db => (db.catalog.finalityPolicies.find? fun row =>
    row.chain = event.chain && row.network = event.network &&
      row.chainEnvironment = event.chainEnvironment && row.active).map (·.policy)

def Db.observationsOf (db : Db) (event : ChainEventKey) : List (Id × ObservationRow) :=
  db.observations.entries.filter fun e => e.2.transfer.event = event && !e.2.purged

def Db.observedAt (db : Db) (event : ChainEventKey) : List Int :=
  (db.observationsOf event).map (·.2.observedAt)

/-- An event without a verdict waits since its first observation; so does one whose
    verdict still waits for evidence and is older than its newest observation. -/
def Db.freshSince (db : Db) (event : ChainEventKey) : Option Int :=
  match (db.observedAt event).min?, db.verdicts.row event with
  | none, _ => none
  | some since, none => some since
  | some since, some row =>
    if (row.verdict = .insufficient ∨ row.verdict = .verified) ∧
        row.decidedAt < maxOr row.decidedAt (db.observedAt event) then some since
    else none

/-- A verified event whose transfer is not final waits since its last verdict. -/
def Db.shallowSince (db : Db) (deepenDecidedBefore : Int) (event : ChainEventKey) : Option Int := do
  let row ← db.verdicts.row event
  let state ← row.transferId.bind db.transferStates.row
  if row.verdict = .verified ∧ (state.state = .canonical ∨ state.state = .confirmed) ∧
      row.decidedAt < deepenDecidedBefore then some row.decidedAt
  else none

def Db.waitingSince (db : Db) (deepenDecidedBefore : Int) (event : ChainEventKey) : Option Int :=
  match db.freshSince event, db.shallowSince deepenDecidedBefore event with
  | some fresh, some shallow => some (min fresh shallow)
  | some fresh, none => some fresh
  | none, shallow => shallow

def Db.knownEvents (db : Db) : List ChainEventKey :=
  ((db.observations.entries.filter (!·.2.purged)).map (·.2.transfer.event) ++
    db.verdicts.keys).eraseDups

def Db.dueEvents (db : Db) (order : RowOrder ChainEventKey) (deepenDecidedBefore : Int) :
    List (ChainEventKey × Int) :=
  ((db.knownEvents.filterMap fun event =>
      (db.waitingSince deepenDecidedBefore event).map fun since => (event, since)).insertionSort
        fun a b => order a.1 b.1).insertionSort fun a b => a.2 ≤ b.2

def eventsAwaitingVerdict (order : RowOrder ChainEventKey) (limit : Nat)
    (deepenDecidedBefore : Int) : Job RepositoryError (List ChainEventKey) :=
  select fun db => ((db.dueEvents order deepenDecidedBefore).take limit).map (·.1)

def evidenceBefore (a b : Id × ObservationRow) : Bool :=
  decide (a.2.observedAt < b.2.observedAt) ||
    (decide (a.2.observedAt = b.2.observedAt) && decide (a.1 ≤ b.1))

def evidenceReading (db : Db) (e : Id × ObservationRow) : Option EvidenceReading :=
  (db.catalog.sources e.2.sourceId).map fun source =>
    { observationId := e.1
      sourceId := e.2.sourceId
      providerGroup := source.providerGroup
      sourceKind := source.kind
      sourcePrincipal := e.2.sourcePrincipal
      declaredPrincipal := source.dbPrincipal
      kind := e.2.kind
      assetId := e.2.assetId
      collectorAddressId := e.2.collectorAddressId
      transfer := e.2.transfer
      observedAt := e.2.observedAt }

def Db.evidenceFor (db : Db) (event : ChainEventKey) : List EvidenceReading :=
  ((db.observationsOf event).insertionSort
    fun a b => evidenceBefore a b).filterMap (evidenceReading db)

def evidenceFor (event : ChainEventKey) : Job RepositoryError (List EvidenceReading) :=
  watch (.evidence event) (·.evidenceFor event)

structure CollectorWatch where
  collectorAddressId : Id
  addressKey : AddressKey
  assetId : Id
  tokenKey : AddressKey
  state : CollectorState
deriving DecidableEq, Repr

def collectorWatch (chain network chainEnvironment : Text) (db : Db) (e : Id × CollectorRow) :
    Option CollectorWatch := do
  let asset ← db.catalog.assets e.2.assetId
  if asset.chain = chain ∧ asset.network = network ∧ asset.chainEnvironment = chainEnvironment ∧
      asset.active ∧ (e.2.state = .active ∨ e.2.state = .receivingOnly) then
    some
      { collectorAddressId := e.1
        addressKey := e.2.addressKey
        assetId := e.2.assetId
        tokenKey := asset.contractAddressKey
        state := e.2.state }
  else none

def watchedCollectors (chain network chainEnvironment : Text) :
    Job RepositoryError (List CollectorWatch) :=
  select fun db =>
    (db.collectors.entries.insertionSort fun a b => a.2.validFrom < b.2.validFrom ∨
      (a.2.validFrom = b.2.validFrom ∧ a.1 ≤ b.1)).filterMap
        (collectorWatch chain network chainEnvironment db)

/-- One reading, resolved against the watched addresses and ready to store. -/
structure ResolvedObservation where
  transfer : ObservedTransfer
  kind : ObservationKind
  collectorAddressId : Id
  assetId : Option Id
  observedAt : Int
deriving DecidableEq, Repr

structure ChainSource extends SourceRow where
  id : Id
deriving DecidableEq, Repr

structure IntakeReport where
  recorded : Nat
  duplicates : Nat
  refused : Nat := 0
  cursorAdvanced : Bool := false
deriving DecidableEq, Repr

/-- A cast to NUMERIC. A text that is not all digits fails it; no source builds one
    with a sign, a point or an exponent. -/
def Text.asNumeric (text : Text) : Option Nat :=
  if !text.isEmpty && text.all Char.isDigit then some (Nat.ofDigitChars 10 text 0) else none

/-- What `CursorPosition::new` makes sure of. -/
structure CursorPosition extends CursorRow where
  short : value ≠ [] ∧ Text.byteLength value ≤ 200
  digits : kind.isNumeric = true → value.all Char.isDigit = true

inductive ObservationInsert where
  | recorded | duplicate | invalid
deriving DecidableEq, Repr

def ResolvedObservation.row (observation : ResolvedObservation) (source : ChainSource)
    (principal : Text) : ObservationTerms where
  sourceId := source.id
  sourcePrincipal := principal
  assetId := observation.assetId
  collectorAddressId := some observation.collectorAddressId
  kind := observation.kind
  transfer := observation.transfer
  observedAt := observation.observedAt

def ObservationTerms.valid (row : ObservationTerms) : Bool :=
  decide (row.transfer.amountRaw ≠ 0) && row.transfer.blockNumber.all (decide <| 0 ≤ ·) &&
    row.transfer.sourceHead.all (decide <| 0 ≤ ·)

def ObservationTerms.refers (row : ObservationTerms) (db : Db) : Bool :=
  (db.catalog.sources row.sourceId).isSome &&
    row.assetId.all (fun id => (db.catalog.assets id).isSome) &&
    row.collectorAddressId.all fun id => (db.collectors.row id).isSome

/-- `INSERT INTO chain_observations ... ON CONFLICT (source_id, semantic_hash) DO
    NOTHING`: an exact repeat of a claim is one row. -/
def insertObservation (id : Id) (row : ObservationTerms) : Exec ObservationInsert :=
  fun _ newest _ =>
    if !row.valid then Reply.value .invalid
    else if newest.observations.entries.any fun e => !e.2.purged &&
        e.2.transfer.semanticHash e.2.sourceId e.2.kind =
          row.transfer.semanticHash row.sourceId row.kind then Reply.value .duplicate
    else if (newest.observations.row id).isSome || !row.refers newest then Reply.value .invalid
    else Reply.wrote [.insertObservation id row] .recorded

def insertObservations (source : ChainSource) (principal : Text) :
    List ResolvedObservation → IntakeReport → Job RepositoryError IntakeReport
  | [], report => pure report
  | observation :: rest, report => do
    let id ← uuid
    match ← execute (insertObservation id (observation.row source principal)) with
    | .invalid => .fail .unavailable
    | .recorded =>
      insertObservations source principal rest { report with recorded := report.recorded + 1 }
    | .duplicate =>
      insertObservations source principal rest { report with duplicates := report.duplicates + 1 }

/-- Whether the upsert's WHERE lets a position replace the stored one: its token is not
    older and, where it is numeric, it does not move back. Nothing when a cast fails. -/
def CursorRow.admits (stored position : CursorRow) : Option Bool :=
  if position.fenceToken < stored.fenceToken then some false
  else if !position.kind.isNumeric then some true
  else
    match stored.value.asNumeric, position.value.asNumeric with
    | some old, some new => some (decide (old ≤ new))
    | _, _ => none

/-- `INSERT INTO chain_cursors ... ON CONFLICT DO UPDATE ... WHERE`, with the CHECK on
    the token and the foreign keys. -/
def cursorUpsert (key : CursorKey) (position : CursorPosition) :
    Exec (Except RepositoryError Bool) :=
  fun _ newest _ =>
    if position.fenceToken = 0 then Reply.value (.error .unavailable)
    else
      match newest.cursors.row key with
      | none =>
        if (newest.catalog.sources key.1).isSome && (newest.collectors.row key.2.2).isSome then
          Reply.wrote [.putCursor key position.toCursorRow] (.ok true)
        else Reply.value (.error .unavailable)
      | some stored =>
        match stored.admits position.toCursorRow with
        | none => Reply.value (.error .unavailable)
        | some false => Reply.locked [(.cursor key, .noKeyUpdate)] (.ok false)
        | some true => Reply.wrote [.putCursor key position.toCursorRow] (.ok true)

/-- A refused position was written under a lost lease, or it does not move the cursor
    forward. -/
def advanceCursor (key : CursorKey) (position : CursorPosition) : Job RepositoryError Bool := do
  match ← execute (cursorUpsert key position) with
  | .error error => .fail error
  | .ok true => pure true
  | .ok false => do
    let holderToken ← select fun db => (db.cursors.row key).map (·.fenceToken)
    if holderToken.any (position.fenceToken < ·) then .fail .leaseLost else pure false

/-- The lane's cursor moves with the readings, if there is one. -/
def moveCursor (source : ChainSource) :
    Option (Id × ObservationKind × CursorPosition) → Job RepositoryError Bool
  | some (collectorAddressId, kind, position) =>
    advanceCursor (source.id, kind, collectorAddressId) position
  | none => pure false

/-- `principal` is the database role of the session, which the column default
    records. -/
def recordObservations (source : ChainSource) (principal : Text) (lease : ComponentLease)
    (observations : List ResolvedObservation)
    (cursor : Option (Id × ObservationKind × CursorPosition)) :
    Job RepositoryError IntakeReport :=
  Proc.transaction do
    holdLease lease
    let report ← insertObservations source principal observations { recorded := 0, duplicates := 0 }
    let cursorAdvanced ← moveCursor source cursor
    commit
    pure { report with cursorAdvanced }

/-- What retention may delete: an old reading of a final event that attests nothing and
    is in no dispute. The conflict tables are behind `disputed`. -/
def Db.purgeable (db : Db) (olderThan : Int) (disputed : Id → Bool) (e : Id × ObservationRow) :
    Bool :=
  !e.2.purged && decide (e.2.observedAt < olderThan) && (db.attestations.row e.1).isNone &&
    !disputed e.1 && db.transfers.entries.any fun t => t.2.event = e.2.transfer.event &&
      (db.transferStates.row t.1).any (·.state.closed)

def Db.purgeBatch (db : Db) (olderThan : Int) (limit : Nat) (disputed : Id → Bool) : List Id :=
  (((db.observations.entries.filter (db.purgeable olderThan disputed)).insertionSort
    fun a b => evidenceBefore a b).take limit).map (·.1)

/-- Deletes the rows; one that was attested meanwhile fails the batch. -/
def deleteRows (newest : Db) (ids : List Id) : Reply Write Row (Except RepositoryError Nat) :=
  if ids.any fun id => (newest.attestations.row id).isSome then Reply.value (.error .unavailable)
  else Reply.wrote (ids.map .purgeObservation) (.ok ids.length)

/-- `DELETE FROM chain_observations` of the chosen rows that are still there. -/
def deleteObservations (olderThan : Int) (limit : Nat) (disputed : Id → Bool) :
    Exec (Except RepositoryError Nat) :=
  fun seen newest _ => deleteRows newest
  ((seen.purgeBatch olderThan limit disputed).filter fun id =>
    (newest.observation id).isSome)

def purgeObservations (olderThan : Int) (limit : Nat) (disputed : Id → Bool) :
    Job RepositoryError Nat :=
  Proc.transaction do
    match ← execute (deleteObservations olderThan limit disputed) with
    | .error error => .fail error
    | .ok deleted => do
      commit
      pure deleted

/-- Renewal keeps the token; a takeover increments it. -/
def leaseUpsert (component holder : Text) (leaseUntil at_ : Int) :
    Exec (Option ComponentLeaseRow) :=
  fun _ newest _ =>
    match newest.componentLeases.row component with
    | none =>
      let row := { holder, fenceToken := 1, leaseUntil : ComponentLeaseRow }
      Reply.wrote [.putComponentLease component row] (some row)
    | some held =>
      if held.holder = holder ∨ held.leaseUntil < at_ then
        let fenceToken := if held.holder = holder then held.fenceToken else held.fenceToken + 1
        let row := { holder, fenceToken, leaseUntil : ComponentLeaseRow }
        Reply.wrote [.putComponentLease component row] (some row)
      else Reply.value none

def acquireComponentLease (component holder : Text) (ttlSeconds at_ : Int) :
    Job RepositoryError (Option ComponentLeaseRow) :=
  if ttlSeconds ≤ 0 then .fail (.corruptData "a component lease needs a positive duration")
  else
    match Instant.checkedAddSeconds at_ ttlSeconds with
    | none => .fail (.corruptData "component lease duration overflowed")
    | some leaseUntil => do
      let row ← execute (leaseUpsert component holder leaseUntil at_)
      commit
      pure row

end CryptoGateway
