import CryptoGateway.Domain.Digest
import CryptoGateway.Properties.Verdicts
import CryptoGateway.Verification

/-!
How a reading is taken in: which address and asset it is resolved to, and when one that says
something new is stored as a row of its own.
-/
namespace CryptoGateway
open Engine

def assetOf (collectors : List CollectorWatch) (address token : AddressKey) : Option Id :=
  (collectors.find? fun watch => watch.addressKey = address && watch.tokenKey = token).map
    (·.assetId)

def ChainSource.Reads (source : ChainSource) (transfer : ObservedTransfer) : Prop :=
  transfer.event.chain = source.chain ∧ transfer.event.network = source.network ∧
    transfer.event.chainEnvironment = source.chainEnvironment

section Resolvers
variable {source : ChainSource} {collectors : List CollectorWatch} {transfer : ObservedTransfer}

theorem Verifier.resolve_eq (transfer : ObservedTransfer) (collectors : List CollectorWatch) :
    Verifier.resolve transfer collectors =
      (collectors.find? (·.addressKey = transfer.toAddress)).map fun collector =>
        (collector.collectorAddressId,
          assetOf collectors transfer.toAddress transfer.tokenKey) := rfl

theorem find?_watches (collectors : List CollectorWatch) (address token : AddressKey) :
    (((collectors.filter (·.addressKey = address)).find? (·.tokenKey = token)).map (·.assetId)) =
      assetOf collectors address token := by
  rw [assetOf, List.find?_filter]
  congr 2
  funext watch
  simp

theorem ChainSource.resolve_eq (reads : source.Reads transfer) {collector : CollectorWatch}
    (found : collectors.find? (·.addressKey = transfer.toAddress) = some collector)
    (watched : collector.state.isWatched = true) :
    source.resolve collectors transfer = .ok (collector.collectorAddressId,
      assetOf collectors transfer.toAddress transfer.tokenKey) := by
  obtain ⟨chain, network, environment⟩ := reads
  rw [← find?_watches]
  rw [← List.head?_filter] at found
  unfold ChainSource.resolve
  rw [if_neg (by simp [chain, network]), if_neg (by simp [environment])]
  cases watches : collectors.filter (·.addressKey = transfer.toAddress) with
  | nil => simp [watches] at found
  | cons first others =>
    rw [watches, List.head?_cons, Option.some.injEq] at found
    subst found
    simp [watched]

def Db.watches (db : Db) (chain network chainEnvironment : Text) : List CollectorWatch :=
  (db.collectors.entries.insertionSort fun a b => a.2.validFrom < b.2.validFrom ∨
    (a.2.validFrom = b.2.validFrom ∧ a.1 ≤ b.1)).filterMap
      (collectorWatch chain network chainEnvironment db)

theorem mem_watches {db : Db} {chain network chainEnvironment : Text} {watch : CollectorWatch}
    (mem : watch ∈ db.watches chain network chainEnvironment) :
    (db.collectors.row watch.collectorAddressId).map (·.assetId) = some watch.assetId := by
  obtain ⟨⟨id, row⟩, entry, read⟩ := List.mem_filterMap.mp mem
  have stored := Table.mem_entries.mp ((List.perm_insertionSort _ _).mem_iff.mp entry)
  simp only [collectorWatch, bind, Option.bind_eq_some_iff] at read
  obtain ⟨asset, -, read⟩ := read
  split at read
  · cases read
    rw [stored]
    rfl
  · cases read

/-- The first watch of the recipient's address is in the asset that the token stands for
    there, if it stands for one. -/
def FirstInAsset (collectors : List CollectorWatch) (transfer : ObservedTransfer) : Prop :=
  ∀ first ∈ (collectors.filter (·.addressKey = transfer.toAddress)).head?,
    ∀ asset ∈ assetOf collectors transfer.toAddress transfer.tokenKey, first.assetId = asset

/-- Both resolvers give a transfer the same address and asset. The address is registered with
    the asset just when its first watch is: enough in every list, needed where no two watches
    are of one row. -/
theorem resolvers_consistent (reads : source.Reads transfer)
    (watched : ∀ watch ∈ collectors, watch.state.isWatched = true)
    (recipient : ∃ watch ∈ collectors, watch.addressKey = transfer.toAddress) :
    ∃ collector asset, source.resolve collectors transfer = .ok (collector, asset) ∧
      Verifier.resolve transfer collectors = some (collector, asset) ∧
      (FirstInAsset collectors transfer → ∀ id, asset = some id →
        (∃ watch ∈ collectors, watch.collectorAddressId = collector ∧
          watch.addressKey = transfer.toAddress ∧ watch.assetId = id) ∧
        ∀ db : Db, collectors = db.watches source.chain source.network source.chainEnvironment →
          (db.collectors.row collector).map (·.assetId) = some id) ∧
      ((∀ a ∈ collectors, ∀ b ∈ collectors, a.collectorAddressId = b.collectorAddressId →
          a = b) →
        (∀ id, asset = some id → ∃ watch ∈ collectors, watch.collectorAddressId = collector ∧
          watch.addressKey = transfer.toAddress ∧ watch.assetId = id) →
        FirstInAsset collectors transfer) := by
  obtain ⟨any, there, address⟩ := recipient
  obtain ⟨first, found⟩ : ∃ first,
      collectors.find? (·.addressKey = transfer.toAddress) = some first := by
    rw [← Option.isSome_iff_exists, List.find?_isSome]
    exact ⟨any, there, by simpa using address⟩
  have mem := List.mem_of_find?_eq_some found
  have own : first.addressKey = transfer.toAddress := by simpa using List.find?_some found
  refine ⟨first.collectorAddressId, assetOf collectors transfer.toAddress transfer.tokenKey,
    ChainSource.resolve_eq reads found (watched first mem), ?_, ?_, ?_⟩
  · rw [Verifier.resolve_eq, found]
    rfl
  · intro inAsset id allowed
    have same := inAsset first (by rwa [List.head?_filter]) id allowed
    refine ⟨⟨first, mem, rfl, own, same⟩, ?_⟩
    rintro db rfl
    rw [← same]
    exact mem_watches mem
  · intro single registered head isHead asset allowed
    rw [List.head?_filter, found, Option.mem_some_iff] at isHead
    obtain ⟨watch, listed, row, -, rfl⟩ := registered asset allowed
    rw [← isHead, single watch listed first mem row]

end Resolvers

namespace Sample

def sharedAddress : List CollectorWatch :=
  [⟨10, [1], 1, [2], .active⟩, ⟨11, [1], 2, [3], .active⟩]

def sharedDb : Db where
  catalog := { assets := fun id => some ⟨true, ['c'], ['n'], ['e'], [UInt8.ofNat id + 1]⟩ }
  collectors := (Table.empty.insert 10 ⟨1, [1], ['t'], 0, none, .active⟩).insert 11
    ⟨2, [1], ['t'], 1, none, .active⟩

def soleWatch : List CollectorWatch := [⟨10, [1], 1, [2], .active⟩]

def tronSource : ChainSource := ⟨⟨['c'], ['n'], ['e'], ['g'], .ownNode, ['p']⟩, 1⟩

def transferOf (token : UInt8) : ObservedTransfer :=
  ⟨⟨['c'], ['n'], ['e'], ['x'], 0⟩, some 1, some ['h'], some 0, [token], [3], ['f'],
    [1], ['t'], 100,
    6, none, .success, .finalized, some 9⟩

/-- A transfer of the second asset is booked on the first registration of its address, which
    is in the other asset: the foreign key refuses the canonical transfer. -/
theorem resolvers_inconsistent :
    sharedDb.watches ['c'] ['n'] ['e'] = sharedAddress ∧
    tronSource.Reads (transferOf 3) ∧
    tronSource.resolve sharedAddress (transferOf 3) = .ok (10, some 2) ∧
    Verifier.resolve (transferOf 3) sharedAddress = some (10, some 2) ∧
    (∀ watch ∈ sharedAddress, ¬ (watch.collectorAddressId = 10 ∧ watch.assetId = 2)) ∧
    (sharedDb.collectors.row 10).map (·.assetId) ≠ some 2 :=
  ⟨by decide, ⟨rfl, rfl, rfl⟩, by decide, by decide, by decide, by decide⟩

/-- A transfer of the first asset to the same address is booked well. -/
theorem resolvers_consistent_first : ∃ collector asset,
    tronSource.resolve sharedAddress (transferOf 2) = .ok (collector, asset) ∧
    Verifier.resolve (transferOf 2) sharedAddress = some (collector, asset) ∧
    ∀ id, asset = some id → ∃ watch ∈ sharedAddress, watch.collectorAddressId = collector ∧
      watch.assetId = id := by
  obtain ⟨collector, asset, observer, verifier, consistent, -⟩ :=
    resolvers_consistent (show tronSource.Reads (transferOf 2) from ⟨rfl, rfl, rfl⟩)
      (show ∀ watch ∈ sharedAddress, watch.state.isWatched = true by decide) (by decide)
  refine ⟨collector, asset, observer, verifier, fun id same => ?_⟩
  obtain ⟨⟨watch, mem, row, -, inAsset⟩, -⟩ :=
    consistent (by unfold FirstInAsset; decide) id same
  exact ⟨watch, mem, row, inAsset⟩

end Sample

section Deduplication

def EvidenceReading.terms (reading : EvidenceReading) : ObservationTerms where
  sourceId := reading.sourceId
  sourcePrincipal := reading.sourcePrincipal
  assetId := reading.assetId
  collectorAddressId := reading.collectorAddressId
  kind := reading.kind
  transfer := reading.transfer
  observedAt := reading.observedAt

def EvidenceReading.hash (reading : EvidenceReading) : SemanticHash :=
  reading.transfer.semanticHash reading.sourceId reading.kind

def EvidenceReading.digest {δ : Type} (sha256 : List UInt8 → δ) (reading : EvidenceReading) : δ :=
  sha256 (reading.transfer.digestInput reading.sourceId reading.kind)

def Db.Holds (db : Db) (id : Id) (reading : EvidenceReading) : Prop :=
  ∃ row, db.observations.row id = some row ∧ row.purged = false ∧
    row.transfer.semanticHash row.sourceId row.kind = reading.hash

variable {db seen newest : Db} {grant : Lock Row → Bool} {id : Id} {a b : EvidenceReading}

theorem insertObservation_holds
    (accepted : (insertObservation id a.terms seen newest grant).value ≠ .invalid) :
    ∃ k, (applyAll (insertObservation id a.terms seen newest grant).writes newest).Holds k a := by
  unfold insertObservation at accepted ⊢
  split at accepted
  · exact absurd rfl accepted
  rename_i valid
  rw [if_neg valid]
  split at accepted
  · rename_i known
    rw [if_pos known]
    simp only [List.any_eq_true, Bool.and_eq_true, Bool.not_eq_true', decide_eq_true_eq] at known
    obtain ⟨⟨k, row⟩, entry, kept, same⟩ := known
    exact ⟨k, row, Table.mem_entries.mp entry, kept, same⟩
  · rename_i unknown
    rw [if_neg unknown]
    split at accepted
    · exact absurd rfl accepted
    · rename_i free
      rw [if_neg free]
      simp only [Bool.or_eq_true, not_or, Option.not_isSome_iff_eq_none] at free
      refine ⟨id, { toObservationTerms := a.terms }, ?_, rfl, rfl⟩
      exact (Table.row_insert_fresh free.1 id _).trans (if_pos rfl)

theorem Db.Holds.insert {k : Id} (holds : newest.Holds k b) (id : Id) (a : EvidenceReading)
    (seen : Db) (grant : Lock Row → Bool) :
    (applyAll (insertObservation id a.terms seen newest grant).writes newest).Holds k b := by
  obtain ⟨row, stored, kept, same⟩ := holds
  unfold insertObservation
  repeat' split
  all_goals first
    | exact ⟨row, stored, kept, same⟩
    | exact ⟨row, Table.row_insert_stored stored id _, kept, same⟩

/-- The readings agree in all that is hashed. An absent block hash counts as an empty one, and
    only the verifier's own readings are told apart by the head. -/
structure EvidenceReading.Alike (a b : EvidenceReading) : Prop where
  blockHash : a.transfer.blockHash.getD [] = b.transfer.blockHash.getD []
  executionStatus : a.transfer.executionStatus = b.transfer.executionStatus
  sourceFinality : a.transfer.sourceFinality = b.transfer.sourceFinality
  tokenKey : a.transfer.tokenKey = b.transfer.tokenKey
  toAddress : a.transfer.toAddress = b.transfer.toAddress
  amountRaw : a.transfer.amountRaw = b.transfer.amountRaw
  memo : a.transfer.memo = b.transfer.memo
  head : a.kind = .targetedLookup →
    a.transfer.sourceHead.getD (-1) = b.transfer.sourceHead.getD (-1)

theorem hash_eq_iff (source : a.sourceId = b.sourceId) (kind : a.kind = b.kind)
    (event : a.transfer.event = b.transfer.event) : a.hash = b.hash ↔ a.Alike b := by
  simp only [EvidenceReading.hash, ObservedTransfer.semanticHash, SemanticHash.mk.injEq, source,
    kind, event, true_and, memoText_injective.eq_iff]
  constructor
  · rintro ⟨hash, status, finality, token, recipient, amount, memo, head⟩
    exact ⟨hash, status, finality, token, recipient, amount, memo, fun own => by
      simpa [kind ▸ own] using head⟩
  · rintro ⟨hash, status, finality, token, recipient, amount, memo, head⟩
    refine ⟨hash, status, finality, token, recipient, amount, memo, ?_⟩
    split
    · rename_i own
      rw [head (kind.trans own)]
    · rfl

/-- What find_conflicts compares and the hash leaves out is the asset, the block number, and
    an empty block hash against none. -/
theorem EvidenceReading.Alike.compared_iff (alike : a.Alike b) :
    (∀ compared ∈ comparedFields, compared.2 a = compared.2 b) ↔ a.assetId = b.assetId ∧
      a.transfer.blockNumber = b.transfer.blockNumber ∧
      a.transfer.blockHash = b.transfer.blockHash := by
  have number := (Option.map_injective signedDigits_injective).eq_iff
    (a := a.transfer.blockNumber) (b := b.transfer.blockNumber)
  have asset := assetText_injective.eq_iff (a := a.assetId) (b := b.assetId)
  simp only [comparedFields, List.forall_mem_cons, List.not_mem_nil, IsEmpty.forall_iff,
    implies_true, alike.amountRaw, alike.toAddress, alike.tokenKey, alike.executionStatus,
    alike.memo, number, asset, Option.some.injEq, true_and, and_true]
  exact and_congr_right fun _ => and_comm

/-- Readings of one event in one lane that differ in a compared field have different digests
    just when they differ in one that is hashed or in none of the three that are not; then
    each has a row of its own. -/
theorem disagreement_stored {δ : Type} {sha256 : List UInt8 → δ}
    (collisionFree : Function.Injective sha256) (source : a.sourceId = b.sourceId)
    (kind : a.kind = b.kind) (event : a.transfer.event = b.transfer.event)
    (boundedA : a.transfer.Bounded) (boundedB : b.transfer.Bounded) :
    (((∃ compared ∈ comparedFields, compared.2 a ≠ compared.2 b) →
        a.digest sha256 ≠ b.digest sha256) ↔
      (a.Alike b → a.assetId = b.assetId ∧
        a.transfer.blockNumber = b.transfer.blockNumber ∧
        a.transfer.blockHash = b.transfer.blockHash)) ∧
    (a.digest sha256 ≠ b.digest sha256 → ∀ i j seen seen' grant grant' db,
      (insertObservation i a.terms seen db grant).value ≠ .invalid →
      ∀ db', db' = applyAll (insertObservation i a.terms seen db grant).writes db →
      (insertObservation j b.terms seen' db' grant').value ≠ .invalid →
      ∃ k l, k ≠ l ∧
        (applyAll (insertObservation j b.terms seen' db' grant').writes db').Holds k a ∧
        (applyAll (insertObservation j b.terms seen' db' grant').writes db').Holds l b) := by
  have digests : a.digest sha256 = b.digest sha256 ↔ a.hash = b.hash := by
    rw [EvidenceReading.hash, EvidenceReading.digest, source, kind]
    exact collisionFree.eq_iff.trans (ObservedTransfer.digestInput_eq_iff boundedA boundedB event)
  constructor
  · rw [ne_eq, digests, hash_eq_iff source kind event]
    constructor
    · intro told alike
      refine alike.compared_iff.mp fun compared listed => ?_
      by_contra apart
      exact told ⟨compared, listed, apart⟩ alike
    · rintro agree ⟨compared, listed, apart⟩ alike
      exact apart (alike.compared_iff.mpr (agree alike) compared listed)
  · rintro apart i j seen seen' grant grant' db acceptedA db' rfl acceptedB
    obtain ⟨k, holdsA⟩ := insertObservation_holds acceptedA
    obtain ⟨l, holdsB⟩ := insertObservation_holds acceptedB
    have keptA := holdsA.insert j b seen' grant'
    refine ⟨k, l, ?_, keptA, holdsB⟩
    rintro rfl
    obtain ⟨row, stored, -, hash⟩ := keptA
    obtain ⟨row', stored', -, hash'⟩ := holdsB
    cases stored.symm.trans stored'
    exact apart (digests.mpr (hash.symm.trans hash'))

end Deduplication

namespace Sample

def scannedReading (asset : Option Id) (transfer : ObservedTransfer) : EvidenceReading where
  observationId := 1
  sourceId := 1
  providerGroup := ['g']
  sourceKind := .ownNode
  sourcePrincipal := ['p']
  declaredPrincipal := ['p']
  kind := .cursorScan
  assetId := asset
  collectorAddressId := some 10
  transfer := transfer
  observedAt := 0

def unnamedBlock (number : Int) : EvidenceReading :=
  scannedReading (some 1) { transferOf 2 with blockHash := none, blockNumber := some number }

/-- A token that was allowlisted between two scans, and a block that was renumbered without
    a hash: the second reading counts as a repeat of the first. -/
theorem disagreement_hidden :
    (tronSource.resolve soleWatch (transferOf 3) = .ok (10, none) ∧
      tronSource.resolve sharedAddress (transferOf 3) = .ok (10, some 2) ∧
      ConflictField.asset ∈ (findConflicts [scannedReading none (transferOf 3),
        scannedReading (some 2) (transferOf 3)]).map (·.field) ∧
      ∀ {δ : Type} (sha256 : List UInt8 → δ), (scannedReading none (transferOf 3)).digest sha256 =
        (scannedReading (some 2) (transferOf 3)).digest sha256) ∧
    ConflictField.blockNumber ∈ (findConflicts [unnamedBlock 1, unnamedBlock 2]).map (·.field) ∧
    ∀ {δ : Type} (sha256 : List UInt8 → δ), (unnamedBlock 1).digest sha256 =
      (unnamedBlock 2).digest sha256 :=
  ⟨⟨by decide, by decide, by decide, fun _ => rfl⟩, by decide, fun _ => rfl⟩

theorem transferOf_bounded (token : UInt8) : (transferOf token).Bounded where
  tokenKey := by simp [transferOf]
  toAddress := by simp [transferOf]
  amountRaw := by simp [transferOf, rawLimit]
  sourceHead := by simp [transferOf]
  blockHash := by
    show Text.byteLength ['h'] < 2 ^ 32
    decide

/-- The same transfer to the same address, of the other token. -/
theorem disagreement_stored_tokens : (scannedReading (some 1) (transferOf 2)).digest id ≠
    (scannedReading (some 2) (transferOf 3)).digest id := by
  have told := disagreement_stored (a := scannedReading (some 1) (transferOf 2))
    (b := scannedReading (some 2) (transferOf 3)) Function.injective_id rfl rfl rfl
    (transferOf_bounded 2) (transferOf_bounded 3)
  refine told.1.mpr (fun alike => ?_) ⟨_, List.mem_of_getElem? (i := 2) rfl, by decide⟩
  exact absurd alike.tokenKey (by decide)

end Sample
end CryptoGateway
