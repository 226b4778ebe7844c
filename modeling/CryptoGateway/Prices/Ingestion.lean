import CryptoGateway.Application
import CryptoGateway.Domain.Price

/-!
Ingestion of prices: a submission becomes a snapshot or is refused, and its readings are
stored either way, one row for each source and time.
-/
namespace CryptoGateway.Prices
open Engine

inductive RefusalCode where
  | policyDemandsTooFewSources | noReadings | notEnoughSources | diverged | overflow
deriving DecidableEq, Repr

def refusalCode : PriceAggregationError → RefusalCode
  | .policyDemandsTooFewSources => .policyDemandsTooFewSources
  | .noReadings => .noReadings
  | .notEnoughSources _ _ => .notEnoughSources
  | .diverged _ _ => .diverged
  | .overflow => .overflow

/-- `discard_reason`: the reading was left out, or the whole submission was refused. -/
inductive DiscardCode where
  | reading (reason : PriceDiscardReason)
  | submission (code : RefusalCode)
deriving DecidableEq, Repr

/-- A row of `price_readings`; asset, currency, source and time are its key. -/
structure ReadingRow where
  providerGroup : Text
  rateNumerator : Nat
  rateDenominator : Nat
  receivedAt : Int
  ingestedBy : Id
  snapshotId : Option Id
  discardReason : Option DiscardCode
deriving DecidableEq, Repr

abbrev ReadingKey := Id × CurrencyCode × Text × Int

/-- An entry of the snapshot's `sources`; its time is in whole seconds. -/
structure SourceEntry where
  sourceKey : Text
  providerGroup : Text
  rateNumerator : Nat
  rateDenominator : Nat
  observedAt : Int
deriving DecidableEq, Repr

structure SnapshotRow where
  assetId : Id
  currency : CurrencyCode
  rateNumerator : Nat
  rateDenominator : Nat
  sources : List SourceEntry
  observedAt : Int
  ingestedBy : Id
  sourceGroupCount : Nat
  deviationBps : Nat
deriving DecidableEq, Repr

structure PriceStore where
  snapshots : Table Id SnapshotRow := .empty
  readings : Table ReadingKey ReadingRow := .empty
  /-- The active quote policy of an asset and a currency. -/
  policies : Id → CurrencyCode → Option PriceAggregationPolicy := fun _ _ => none
  nextId : Id := 0

inductive PriceOutcome where
  | aggregated (price : AggregatedPrice)
  | refused (reason : RefusalCode)
deriving DecidableEq, Repr

structure PriceIngestion where
  assetId : Id
  currency : CurrencyCode
  readings : List PriceReading
  outcome : PriceOutcome
  ingestedBy : Id
  receivedAt : Int
deriving DecidableEq, Repr

structure RecordedPrice where
  snapshotId : Id
  rateNumerator : Nat
  rateDenominator : Nat
  groupCount : Nat
  deviationBps : Nat
  observedAt : Int
deriving DecidableEq, Repr

def PriceIngestion.key (ingestion : PriceIngestion) (reading : PriceReading) : ReadingKey :=
  (ingestion.assetId, ingestion.currency, reading.sourceKey, reading.observedAt)

def PriceIngestion.row (ingestion : PriceIngestion) (reading : PriceReading)
    (snapshotId : Option Id) (discardReason : Option DiscardCode) : ReadingRow :=
  ⟨reading.providerGroup, reading.rateNumerator, reading.rateDenominator, ingestion.receivedAt,
    ingestion.ingestedBy, snapshotId, discardReason⟩

/-- The `CHECK` constraints of `price_readings`. -/
def readingFits (reading : PriceReading) : Bool :=
  decide (1 ≤ reading.sourceKey.length) && decide (reading.sourceKey.length ≤ 100) &&
    decide (1 ≤ reading.providerGroup.length) && decide (reading.providerGroup.length ≤ 100) &&
    decide (0 < reading.rateNumerator) && decide (0 < reading.rateDenominator)

/-- `ON CONFLICT (asset_id, fiat_currency, source_key, observed_at) DO NOTHING`: checks
    come first, then the row that is there stays. -/
def insertReading (ingestion : PriceIngestion) (reading : PriceReading) (snapshotId : Option Id)
    (discardReason : Option DiscardCode) (store : PriceStore) : Except RepositoryError PriceStore :=
  if readingFits reading then
    .ok { store with
      readings := store.readings.insert (ingestion.key reading)
        (ingestion.row reading snapshotId discardReason) }
  else .error .unavailable

/-- `unix_timestamp` -/
def unixTimestamp (t : Int) : Int := t.fdiv 1000000

def sourceEntry (reading : PriceReading) : SourceEntry :=
  ⟨reading.sourceKey, reading.providerGroup, reading.rateNumerator, reading.rateDenominator,
    unixTimestamp reading.observedAt⟩

def sourcesJson (ingestion : PriceIngestion) (used : List Nat) :
    Except RepositoryError (List SourceEntry) :=
  used.mapM fun index =>
    match ingestion.readings[index]? with
    | some reading => .ok (sourceEntry reading)
    | none => .error (.corruptData "an aggregated price named a reading that was not submitted")

/-- `bind(i32::try_from(count).unwrap_or(i32::MAX))` -/
def asI32 (n : Nat) : Nat := min n (2 ^ 31 - 1)

def discardOf (price : AggregatedPrice) (index : Nat) : Option PriceDiscardReason :=
  (price.discarded.find? (·.1 = index)).map (·.2)

def insertReadings (ingestion : PriceIngestion) (price : AggregatedPrice) (snapshotId : Id) :
    List (PriceReading × Nat) → PriceStore → Except RepositoryError PriceStore
  | [], store => .ok store
  | (reading, index) :: rest, store => do
      let discard := discardOf price index
      let snapshot := if discard.isNone then some snapshotId else none
      let store ← insertReading ingestion reading snapshot (discard.map .reading) store
      insertReadings ingestion price snapshotId rest store

def recordPriceIngestion (ingestion : PriceIngestion) (store : PriceStore) :
    Except RepositoryError (PriceStore × Option RecordedPrice) :=
  match ingestion.outcome with
  | .aggregated price => do
      let sources ← sourcesJson ingestion price.used
      let times : List Int := (price.used.filterMap (ingestion.readings[·]?)).map (·.observedAt)
      match times.min? with
      | none => .error (.corruptData "an aggregated price used no reading")
      | some observedAt =>
        let snapshotId := store.nextId
        -- `jsonb_array_length(sources) >= 2` and positive rates
        if sources.length < 2 ∨ price.rateNumerator = 0 ∨ price.rateDenominator = 0 then
          .error .unavailable
        else do
          let row := ⟨ingestion.assetId, ingestion.currency, price.rateNumerator,
            price.rateDenominator, sources, observedAt, ingestion.ingestedBy,
            asI32 price.groupCount, asI32 price.deviationBps⟩
          let store ← insertReadings ingestion price snapshotId ingestion.readings.zipIdx
            { store with snapshots := store.snapshots.insert snapshotId row
                         nextId := store.nextId + 1 }
          pure (store, some ⟨snapshotId, price.rateNumerator, price.rateDenominator,
            price.groupCount, price.deviationBps, observedAt⟩)
  | .refused reason => do
      let store ← ingestion.readings.foldlM (fun store reading =>
        insertReading ingestion reading none (some (.submission reason)) store) store
      pure (store, none)

inductive SubmitError where
  | missingScope (scope : OperatorScope)
  | noReadings
  | noPricePolicy
  | snapshotNotRecorded
  | price (error : PriceAggregationError)
  | repository (error : RepositoryError)
deriving DecidableEq, Repr

/-- What a caller hands to `submit_price`, and the time it is handled at. -/
structure Submission where
  credential : OperatorCredential
  assetId : Id
  currency : CurrencyCode
  readings : List PriceReading
  now : Int
deriving DecidableEq, Repr

def Submission.ingestion (submission : Submission) (outcome : PriceOutcome) : PriceIngestion :=
  ⟨submission.assetId, submission.currency, submission.readings, outcome,
    submission.credential.keyId, submission.now⟩

def submitPrice [Price.SliceSort] (submission : Submission) (store : PriceStore) :
    PriceStore × Except SubmitError RecordedPrice :=
  if !submission.credential.allows .ingest then (store, .error (.missingScope .ingest))
  else if submission.readings.isEmpty then (store, .error .noReadings)
  else
    match store.policies submission.assetId submission.currency with
    | none => (store, .error .noPricePolicy)
    | some policy =>
      match aggregate submission.readings policy submission.now with
      | .ok price =>
        match recordPriceIngestion (submission.ingestion (.aggregated price)) store with
        | .error error => (store, .error (.repository error))
        | .ok (store', none) => (store', .error .snapshotNotRecorded)
        | .ok (store', some recorded) => (store', .ok recorded)
      | .error error =>
        match recordPriceIngestion (submission.ingestion (.refused (refusalCode error))) store with
        | .error error => (store, .error (.repository error))
        | .ok (store', _) => (store', .error (.price error))

def Submission.used [Price.SliceSort] (submission : Submission) (store : PriceStore) :
    List PriceReading :=
  match store.policies submission.assetId submission.currency with
  | none => []
  | some policy =>
    match aggregate submission.readings policy submission.now with
    | .ok price => price.used.filterMap (submission.readings[·]?)
    | .error _ => []

structure Trail where
  store : PriceStore := {}
  used : List (Id × PriceReading) := []

inductive Input where
  | submit (submission : Submission)
  | setPolicies (policies : Id → CurrencyCode → Option PriceAggregationPolicy)

def Trail.step [Price.SliceSort] (w : Trail) : Input → Trail
  | .submit submission =>
      match submitPrice submission w.store with
      | (store, .ok recorded) =>
        ⟨store, w.used ++ (submission.used w.store).map (recorded.snapshotId, ·)⟩
      | (store, .error _) => { w with store }
  | .setPolicies policies => { w with store := { w.store with policies } }

def readingKey (reading : PriceReading) : Text × Int := (reading.sourceKey, reading.observedAt)

def Trail.fresh (w : Trail) : Input → Bool
  | .submit submission =>
      decide (submission.readings.map readingKey).Nodup &&
        submission.readings.all fun reading =>
          (w.store.readings.row (submission.assetId, submission.currency,
            readingKey reading)).isNone
  | .setPolicies _ => true

inductive Trail.Reach [Price.SliceSort] (ok : Trail → Input → Bool) : Trail → Prop where
  | start : Trail.Reach ok {}
  | step {w : Trail} (before : Trail.Reach ok w) (input : Input) (allowed : ok w input = true) :
      Trail.Reach ok (w.step input)

section
variable {ingestion : PriceIngestion} {price : AggregatedPrice} {snapshotId : Id}
  {store store' : PriceStore} {submission : Submission}

structure Keeps (store store' : PriceStore) : Prop where
  snapshots : store'.snapshots = store.snapshots
  nextId : store'.nextId = store.nextId
  readings : ∀ {k row}, store.readings.row k = some row → store'.readings.row k = some row

theorem Keeps.trans {store'' : PriceStore} (first : Keeps store store')
    (second : Keeps store' store'') : Keeps store store'' :=
  ⟨second.snapshots.trans first.snapshots, second.nextId.trans first.nextId,
    fun stored => second.readings (first.readings stored)⟩

theorem insertReading_ok {reading : PriceReading} {snapshot : Option Id}
    {discard : Option DiscardCode}
    (ok : insertReading ingestion reading snapshot discard store = .ok store') :
    Keeps store store' ∧ store'.readings = store.readings.insert (ingestion.key reading)
      (ingestion.row reading snapshot discard) := by
  unfold insertReading at ok
  split at ok
  · cases ok
    exact ⟨⟨rfl, rfl, fun stored => Table.row_insert_stored stored _ _⟩, rfl⟩
  · cases ok

def PriceIngestion.evidence (ingestion : PriceIngestion) (price : AggregatedPrice) (snapshotId : Id)
    (entry : PriceReading × Nat) : ReadingRow :=
  ingestion.row entry.1 (if (discardOf price entry.2).isNone then some snapshotId else none)
    ((discardOf price entry.2).map .reading)

theorem insertReadings_ok {entries : List (PriceReading × Nat)}
    (ok : insertReadings ingestion price snapshotId entries store = .ok store')
    (distinct : (entries.map fun e => ingestion.key e.1).Nodup)
    (absent : ∀ e ∈ entries, store.readings.row (ingestion.key e.1) = none) :
    Keeps store store' ∧ ∀ e ∈ entries, store'.readings.row (ingestion.key e.1) =
      some (ingestion.evidence price snapshotId e) := by
  induction entries generalizing store with
  | nil =>
    cases ok
    exact ⟨⟨rfl, rfl, fun stored => stored⟩, nofun⟩
  | cons entry rest ih =>
    obtain ⟨between, inserted, ok⟩ := Price.except_bind ok
    obtain ⟨kept, readings⟩ := insertReading_ok inserted
    obtain ⟨new, distinct⟩ := List.nodup_cons.mp distinct
    have here : between.readings.row (ingestion.key entry.1) =
        some (ingestion.evidence price snapshotId entry) := by
      rw [readings, Table.row_insert_fresh (absent entry List.mem_cons_self), if_pos rfl]
      rfl
    have absent' : ∀ e ∈ rest, between.readings.row (ingestion.key e.1) = none := by
      intro e mem
      have other : ingestion.key e.1 ≠ ingestion.key entry.1 := by
        intro same
        exact new (List.mem_map.mpr ⟨e, mem, same⟩)
      rw [readings, Table.row_insert_ne other]
      exact absent e (List.mem_cons_of_mem _ mem)
    obtain ⟨kept', stored⟩ := ih ok distinct absent'
    refine ⟨kept.trans kept', fun e mem => ?_⟩
    rcases List.mem_cons.mp mem with rfl | behind
    · exact kept'.readings here
    · exact stored e behind

theorem refuseReadings_ok {reason : RefusalCode} {readings : List PriceReading}
    (ok : readings.foldlM (fun store reading =>
      insertReading ingestion reading none (some (.submission reason)) store) store = .ok store') :
    Keeps store store' := by
  induction readings generalizing store with
  | nil =>
    cases ok
    exact ⟨rfl, rfl, fun stored => stored⟩
  | cons reading rest ih =>
    obtain ⟨between, inserted, ok⟩ := Price.except_bind ok
    exact (insertReading_ok inserted).1.trans (ih ok)

theorem recordPriceIngestion_refused {reason : RefusalCode} {recorded : Option RecordedPrice}
    (refused : ingestion.outcome = .refused reason)
    (ok : recordPriceIngestion ingestion store = .ok (store', recorded)) : Keeps store store' := by
  unfold recordPriceIngestion at ok
  rw [refused] at ok
  obtain ⟨after, folded, ok⟩ := Price.except_bind ok
  cases ok
  exact refuseReadings_ok folded

theorem sourcesJson_ok {used : List Nat} {sources : List SourceEntry}
    (ok : sourcesJson ingestion used = .ok sources) :
    sources = (used.filterMap (ingestion.readings[·]?)).map sourceEntry := by
  unfold sourcesJson at ok
  induction used generalizing sources with
  | nil => cases ok; rfl
  | cons index rest ih =>
    rw [List.mapM_cons] at ok
    obtain ⟨entry, first, ok⟩ := Price.except_bind ok
    obtain ⟨entries, others, ok⟩ := Price.except_bind ok
    cases ok
    split at first
    · rename_i reading found
      cases first
      simp [found, ih others]
    · cases first

theorem recordPriceIngestion_aggregated {recorded : Option RecordedPrice}
    (aggregated : ingestion.outcome = .aggregated price)
    (ok : recordPriceIngestion ingestion store = .ok (store', recorded)) :
    ∃ row answer, recorded = some answer ∧ answer.snapshotId = store.nextId ∧
      row.assetId = ingestion.assetId ∧ row.currency = ingestion.currency ∧
      row.sources = (price.used.filterMap (ingestion.readings[·]?)).map sourceEntry ∧
      insertReadings ingestion price store.nextId ingestion.readings.zipIdx
        { store with snapshots := store.snapshots.insert store.nextId row
                     nextId := store.nextId + 1 } = .ok store' := by
  unfold recordPriceIngestion at ok
  rw [aggregated] at ok
  obtain ⟨sources, listed, ok⟩ := Price.except_bind ok
  simp only at ok
  split at ok
  · cases ok
  split at ok
  · cases ok
  obtain ⟨after, inserted, ok⟩ := Price.except_bind ok
  cases ok
  exact ⟨_, _, rfl, rfl, rfl, rfl, sourcesJson_ok listed, inserted⟩

theorem insertReadings_new
    (ok : insertReadings ingestion price snapshotId ingestion.readings.zipIdx store = .ok store')
    (distinct : (ingestion.readings.map ingestion.key).Nodup)
    (absent : ∀ reading ∈ ingestion.readings, store.readings.row (ingestion.key reading) = none) :
    Keeps store store' ∧ ∀ index reading, ingestion.readings[index]? = some reading →
      store'.readings.row (ingestion.key reading) =
        some (ingestion.evidence price snapshotId (reading, index)) := by
  have keys : (ingestion.readings.zipIdx.map fun e => ingestion.key e.1) =
      ingestion.readings.map ingestion.key := by
    have first := congrArg (List.map ingestion.key) (List.zipIdx_map_fst 0 ingestion.readings)
    rwa [List.map_map] at first
  obtain ⟨kept, stored⟩ := insertReadings_ok ok (keys ▸ distinct) fun e mem =>
    absent e.1 (List.fst_mem_of_mem_zipIdx mem)
  exact ⟨kept, fun index reading found =>
    stored (reading, index) (List.mem_zipIdx_iff_getElem?.mpr found)⟩

variable [Price.SliceSort]

inductive Submitted (submission : Submission) (store store' : PriceStore) :
    Except SubmitError RecordedPrice → Prop where
  | refused {error : SubmitError} (kept : Keeps store store') :
      Submitted submission store store' (.error error)
  | accepted {row : SnapshotRow} {answer : RecordedPrice}
      (id : answer.snapshotId = store.nextId) (asset : row.assetId = submission.assetId)
      (currency : row.currency = submission.currency)
      (sources : row.sources = (submission.used store).map sourceEntry)
      (snapshots : store'.snapshots = store.snapshots.insert store.nextId row)
      (nextId : store'.nextId = store.nextId + 1)
      (readings : ∀ {k old}, store.readings.row k = some old → store'.readings.row k = some old)
      (evidence : ∀ reading ∈ submission.used store, ∃ stored,
        store'.readings.row (submission.assetId, submission.currency, readingKey reading) =
          some stored ∧ stored.rateNumerator = reading.rateNumerator ∧
        stored.rateDenominator = reading.rateDenominator ∧ stored.snapshotId = some store.nextId) :
      Submitted submission store store' (.ok answer)

theorem discardOf_used {readings : List PriceReading} {policy : PriceAggregationPolicy} {now : Int}
    (ok : aggregate readings policy now = .ok price) {index : Nat} (used : index ∈ price.used) :
    discardOf price index = none := by
  have kept := Price.used_not_discarded ok used
  unfold discardOf
  rw [Option.map_eq_none_iff, List.find?_eq_none]
  intro e mem
  have : e.1 ≠ index := by
    rintro rfl
    exact kept (List.mem_map_of_mem mem)
  simpa using this

theorem submitPrice_cases {w : Trail} (fresh : w.fresh (.submit submission) = true) :
    Submitted submission w.store (submitPrice submission w.store).1
      (submitPrice submission w.store).2 := by
  have same : ∀ store : PriceStore, Keeps store store :=
    fun store => ⟨rfl, rfl, fun stored => stored⟩
  simp only [Trail.fresh, Bool.and_eq_true, decide_eq_true_eq, List.all_eq_true,
    Option.isNone_iff_eq_none] at fresh
  unfold submitPrice
  split
  · exact .refused (same _)
  split
  · exact .refused (same _)
  split
  · exact .refused (same _)
  rename_i policy active
  split
  · rename_i price accepted
    have used : submission.used w.store = price.used.filterMap (submission.readings[·]?) := by
      simp only [Submission.used, active, accepted]
    have distinct : (submission.readings.map
        (submission.ingestion (.aggregated price)).key).Nodup := by
      refine List.Nodup.of_map (fun k => k.2.2) ?_
      rw [List.map_map]
      exact fresh.1
    split
    · exact .refused (same _)
    · rename_i recorded
      obtain ⟨_, _, none_, _⟩ := recordPriceIngestion_aggregated rfl recorded
      cases none_
    · rename_i recorded
      obtain ⟨row, answer, some_, id, asset, currency, sources, inserted⟩ :=
        recordPriceIngestion_aggregated rfl recorded
      cases some_
      obtain ⟨kept, evidence⟩ := insertReadings_new inserted distinct fresh.2
      refine .accepted id asset currency (by rw [used]; exact sources) kept.snapshots kept.nextId
        kept.readings fun reading mem => ?_
      rw [used] at mem
      obtain ⟨index, listed, found⟩ := List.mem_filterMap.mp mem
      refine ⟨_, evidence index reading found, rfl, rfl, ?_⟩
      simp [PriceIngestion.evidence, PriceIngestion.row, discardOf_used accepted listed]
  · split
    · exact .refused (same _)
    · rename_i recorded
      exact .refused (recordPriceIngestion_refused rfl recorded)

end

structure Trail.Complete (w : Trail) : Prop where
  below : ∀ {id row}, w.store.snapshots.row id = some row → id < w.store.nextId
  named : ∀ {id reading}, (id, reading) ∈ w.used → id < w.store.nextId
  sources : ∀ {id row}, w.store.snapshots.row id = some row →
    row.sources = ((w.used.filter (·.1 = id)).map (·.2)).map sourceEntry
  evidence : ∀ {id row reading}, w.store.snapshots.row id = some row → (id, reading) ∈ w.used →
    ∃ stored, w.store.readings.row (row.assetId, row.currency, readingKey reading) = some stored ∧
      stored.rateNumerator = reading.rateNumerator ∧
      stored.rateDenominator = reading.rateDenominator ∧ stored.snapshotId = some id

variable {w : Trail}

theorem Trail.Complete.keep {store' : PriceStore} (complete : w.Complete)
    (kept : Keeps w.store store') : Trail.Complete { w with store := store' } := by
  constructor
  · intro id row stored
    rw [kept.nextId]
    exact complete.below (kept.snapshots ▸ stored)
  · intro id reading used
    rw [kept.nextId]
    exact complete.named used
  · intro id row stored
    exact complete.sources (kept.snapshots ▸ stored)
  · intro id row reading stored used
    obtain ⟨old, found, rest⟩ := complete.evidence (kept.snapshots ▸ stored) used
    exact ⟨old, kept.readings found, rest⟩

theorem Trail.Complete.filter_used (complete : w.Complete) (new : List PriceReading)
    (id : Id) : ((w.used ++ new.map (w.store.nextId, ·)).filter (·.1 = id)).map (·.2) =
      if id = w.store.nextId then new else (w.used.filter (·.1 = id)).map (·.2) := by
  rw [List.filter_append]
  split
  · rename_i same
    have before : w.used.filter (·.1 = id) = [] := by
      rw [List.filter_eq_nil_iff]
      intro e mem
      rw [decide_eq_true_eq, same]
      exact (complete.named mem).ne
    have after : (new.map (w.store.nextId, ·)).filter (·.1 = id) = new.map (w.store.nextId, ·) := by
      rw [List.filter_eq_self]
      simp [same]
    rw [before, after]
    simp [Function.comp_def]
  · rename_i other
    have after : (new.map (w.store.nextId, ·)).filter (·.1 = id) = [] := by
      rw [List.filter_eq_nil_iff]
      simp [Ne.symm other]
    rw [after, List.append_nil]

theorem Trail.Complete.accept [Price.SliceSort] {store' : PriceStore} {submission : Submission}
    {answer : RecordedPrice} (complete : w.Complete)
    (submitted : Submitted submission w.store store' (.ok answer)) :
    Trail.Complete ⟨store', w.used ++ (submission.used w.store).map (answer.snapshotId, ·)⟩ := by
  obtain _ | @⟨new, _, same, asset, currency, sources, snapshots, nextId, readings, evidence⟩ :=
    submitted
  rw [same]
  -- an old snapshot is not the new one, whose id nobody had before
  have origin : ∀ {id row}, store'.snapshots.row id = some row →
      (w.store.snapshots.row id = some row ∧ id ≠ w.store.nextId) ∨
        (id = w.store.nextId ∧ row = new) := by
    intro id row stored
    rw [snapshots] at stored
    rcases Table.row_insert_cases stored with old | ⟨_, eq, eq'⟩
    · exact .inl ⟨old, (complete.below old).ne⟩
    · exact .inr ⟨eq, eq'⟩
  constructor
  · intro id row stored
    rcases origin stored with ⟨old, _⟩ | ⟨rfl, _⟩
    · simp only [nextId]
      exact Nat.lt_succ_of_lt (complete.below old)
    · simp only [nextId]
      exact Nat.lt_succ_self _
  · intro id reading used
    simp only [nextId]
    rcases List.mem_append.mp used with old | new
    · exact Nat.lt_succ_of_lt (complete.named old)
    · obtain ⟨_, _, eq⟩ := List.mem_map.mp new
      cases eq
      exact Nat.lt_succ_self _
  · intro id row stored
    rw [complete.filter_used]
    rcases origin stored with ⟨old, other⟩ | ⟨rfl, rfl⟩
    · rw [if_neg other]
      exact complete.sources old
    · rw [if_pos rfl]
      exact sources
  · intro id row reading stored used
    rcases origin stored with ⟨old, other⟩ | ⟨rfl, rfl⟩ <;>
      rcases List.mem_append.mp used with before | mem
    · obtain ⟨row', found, rest⟩ := complete.evidence old before
      exact ⟨row', readings found, rest⟩
    · obtain ⟨_, _, eq⟩ := List.mem_map.mp mem
      cases eq
      exact absurd rfl other
    · exact absurd (complete.named before) (lt_irrefl _)
    · obtain ⟨_, mem, eq⟩ := List.mem_map.mp mem
      cases eq
      rw [asset, currency]
      exact evidence reading mem

theorem Trail.Complete.step [Price.SliceSort] {input : Input} (complete : w.Complete)
    (fresh : w.fresh input = true) : (w.step input).Complete := by
  cases input with
  | setPolicies policies =>
    exact ⟨complete.below, complete.named, complete.sources, complete.evidence⟩
  | submit submission =>
    have submitted := submitPrice_cases fresh
    unfold Trail.step
    simp only
    generalize submitPrice submission w.store = result at submitted ⊢
    obtain ⟨store', _ | answer⟩ := result
    · cases submitted with
      | refused kept => exact complete.keep kept
    · exact complete.accept submitted

/-- In every run whose submissions bring new readings only, each reading that an aggregate used has
    its row, with its rate and the snapshot's id. -/
theorem price_evidence_complete [Price.SliceSort] (reached : Trail.Reach Trail.fresh w) {id : Id}
    {row : SnapshotRow} (stored : w.store.snapshots.row id = some row) :
    row.sources = ((w.used.filter (·.1 = id)).map (·.2)).map sourceEntry ∧
    ∀ reading, (id, reading) ∈ w.used → ∃ evidence,
      w.store.readings.row (row.assetId, row.currency, reading.sourceKey, reading.observedAt) =
        some evidence ∧
      evidence.rateNumerator = reading.rateNumerator ∧
      evidence.rateDenominator = reading.rateDenominator ∧ evidence.snapshotId = some id := by
  have complete : w.Complete := by
    clear stored
    induction reached with
    | start => exact ⟨nofun, nofun, nofun, nofun⟩
    | step before input allowed ih => exact ih.step allowed
  exact ⟨complete.sources stored, fun reading used => complete.evidence stored used⟩

namespace Sample

def policies : Id → CurrencyCode → Option PriceAggregationPolicy := fun _ _ => some ⟨2, 60, 100⟩

def reading (source : Char) (numerator : Nat) :
    PriceReading := ⟨[source], [source], numerator, 1, 0⟩

def submission (readings : List PriceReading) : Submission :=
  ⟨⟨1, ['o'], [.ingest]⟩, 1, ['U', 'S', 'D'], readings, 10⟩

end Sample

open scoped Price.Sample

theorem price_evidence_complete_pair :
    ∃ w : Trail, Trail.Reach Trail.fresh w ∧ (0, Sample.reading 'a' 1000) ∈ w.used ∧
      ∃ evidence, w.store.readings.row (1, ['U', 'S', 'D'], ['a'], 0) = some evidence ∧
        evidence.rateNumerator = 1000 ∧ evidence.snapshotId = some 0 := by
  have first : Trail.Reach Trail.fresh (Trail.step {} (.setPolicies Sample.policies)) :=
    .step .start _ rfl
  have second := first.step
    (.submit (Sample.submission [Sample.reading 'a' 1000, Sample.reading 'b' 1000]))
    (by decide +kernel)
  obtain ⟨row, stored, place⟩ := Option.map_eq_some_iff.mp (by decide +kernel :
    (((Trail.step {} (.setPolicies Sample.policies)).step (.submit (Sample.submission
      [Sample.reading 'a' 1000, Sample.reading 'b' 1000]))).store.snapshots.row 0).map
        (fun row => (row.assetId, row.currency)) = some (1, ['U', 'S', 'D']))
  obtain ⟨asset, currency⟩ := Prod.mk.inj place
  have used : (0, Sample.reading 'a' 1000) ∈ ((Trail.step {} (.setPolicies Sample.policies)).step
      (.submit (Sample.submission [Sample.reading 'a' 1000, Sample.reading 'b' 1000]))).used := by
    decide +kernel
  obtain ⟨evidence, found, rate, _, named⟩ := (price_evidence_complete second stored).2 _ used
  rw [asset, currency] at found
  exact ⟨_, second, used, evidence, found, rate, named⟩

/-- Source `a` alone is refused; with `b` it is accepted, at another rate, and its first row
    stays. -/
theorem refused_reading_kept :
    ∃ w : Trail, Trail.Reach (fun _ _ => true) w ∧
      (w.store.snapshots.row 0).isSome = true ∧ (0, Sample.reading 'a' 1000) ∈ w.used ∧
      (w.store.readings.row (1, ['U', 'S', 'D'], ['a'], 0)).map
        (fun row => (row.rateNumerator, row.snapshotId)) = some (1001, none) := by
  have first : Trail.Reach (fun _ _ => true) (Trail.step {} (.setPolicies Sample.policies)) :=
    .step .start _ rfl
  have second := first.step (.submit (Sample.submission [Sample.reading 'a' 1001])) rfl
  have third := second.step
    (.submit (Sample.submission [Sample.reading 'a' 1000, Sample.reading 'b' 1000])) rfl
  exact ⟨_, third, by decide +kernel, by decide +kernel, by decide +kernel⟩

end CryptoGateway.Prices
