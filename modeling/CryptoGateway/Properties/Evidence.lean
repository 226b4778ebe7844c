import CryptoGateway.Runs

/-!
What the attested readings say: the same as the stored transfer, although attestations are added
later, from evidence read at other times.
-/
namespace CryptoGateway
open Engine

def Db.principalOf (db : Db) (sourceId : Id) : Option Text :=
  (db.catalog.sources sourceId).map (·.dbPrincipal)

def Db.accepted (db : Db) (event : ChainEventKey) : List (Id × ObservationRow) :=
  (db.observationsOf event).filter fun e =>
    db.principalOf e.2.sourceId = some e.2.sourcePrincipal

structure ObservationTerms.Agrees (reading : ObservationTerms) (row : TransferRow) : Prop where
  event : reading.transfer.event = row.event
  amountRaw : reading.transfer.amountRaw = row.amountRaw
  toAddress : reading.transfer.toAddress = row.toAddress
  tokenKey : reading.transfer.tokenKey = row.tokenKey
  memo : reading.transfer.memo = row.memo
  assetId : reading.assetId = some row.assetId
  blockHash : ∀ hash, reading.transfer.blockHash = some hash → hash = row.blockHash
  blockNumber : ∀ number, reading.transfer.blockNumber = some number → number = row.blockNumber
  succeeded : reading.transfer.executionStatus = .success

structure ObservationTerms.Builds (reading : ObservationTerms) (row : TransferRow) : Prop
    extends reading.Agrees row where
  hasHash : reading.transfer.blockHash = some row.blockHash
  hasNumber : reading.transfer.blockNumber = some row.blockNumber

section
variable {db : Db} {event : ChainEventKey} {e : Id × ObservationRow}

theorem mem_observationsOf : e ∈ db.observationsOf event ↔
    db.observations.row e.1 = some e.2 ∧ e.2.transfer.event = event ∧ e.2.purged = false := by
  obtain ⟨o, row⟩ := e
  simp [Db.observationsOf, Table.mem_entries]

theorem mem_accepted : e ∈ db.accepted event ↔
    e ∈ db.observationsOf event ∧ db.principalOf e.2.sourceId = some e.2.sourcePrincipal := by
  simp [Db.accepted]

theorem observation_eq_some {o : Id} {row : ObservationRow} : db.observation o = some row ↔
    db.observations.row o = some row ∧ row.purged = false := by
  simp [Db.observation, Option.filter_eq_some_iff]

structure EvidenceReading.From (reading : EvidenceReading) (e : Id × ObservationRow) : Prop where
  id : reading.observationId = e.1
  transfer : reading.transfer = e.2.transfer
  assetId : reading.assetId = e.2.assetId

theorem evidenceReading_from {r : EvidenceReading} (read : evidenceReading db e = some r) :
    r.From e ∧ (r.genuine = true ↔ db.principalOf e.2.sourceId = some e.2.sourcePrincipal) := by
  obtain ⟨source, found, rfl⟩ := Option.map_eq_some_iff.mp read
  refine ⟨⟨rfl, rfl, rfl⟩, ?_⟩
  simp [EvidenceReading.genuine, Db.principalOf, found, eq_comm]

theorem accepted_of_reading {r : EvidenceReading}
    (mem : r ∈ (db.evidenceFor event).filter (·.genuine)) : ∃ e ∈ db.accepted event, r.From e := by
  obtain ⟨listed, genuine⟩ := List.mem_filter.mp mem
  obtain ⟨e, stored, read⟩ := List.mem_filterMap.mp listed
  obtain ⟨source, same⟩ := evidenceReading_from read
  exact ⟨e, mem_accepted.mpr ⟨(List.mem_insertionSort _).mp stored, same.mp genuine⟩, source⟩

theorem reading_of_accepted (mem : e ∈ db.accepted event) :
    ∃ r ∈ (db.evidenceFor event).filter (·.genuine), r.From e := by
  obtain ⟨stored, principal⟩ := mem_accepted.mp mem
  obtain ⟨source, found, _⟩ := Option.map_eq_some_iff.mp principal
  obtain ⟨r, read⟩ : ∃ r, evidenceReading db e = some r := by simp [evidenceReading, found]
  obtain ⟨from_, genuine⟩ := evidenceReading_from read
  exact ⟨r, List.mem_filter.mpr ⟨List.mem_filterMap.mpr
    ⟨e, (List.mem_insertionSort _).mpr stored, read⟩, genuine.mpr principal⟩, from_⟩

variable {policy : FinalityPolicy} {fact : VerifiedTransfer} {row : TransferRow}

theorem Proven.agrees (proven : Proven ((db.evidenceFor event).filter (·.genuine)) policy fact)
    {b : Id × ObservationRow} (builder : b ∈ db.accepted event) (builds : b.2.Builds row)
    (mem : e ∈ db.accepted event) : e.2.Agrees row := by
  obtain ⟨r, hr, ofB⟩ := reading_of_accepted builder
  obtain ⟨r', hr', ofE⟩ := reading_of_accepted mem
  have same := matches_of_unconflicted proven.unconflicted hr' hr
  obtain ⟨_, hasAsset, _⟩ := rejection_eq_none proven.unrefused hr
  obtain ⟨status, hasAsset', _⟩ := rejection_eq_none proven.unrefused hr'
  have ofEvent : e.2.transfer.event = b.2.transfer.event :=
    (mem_observationsOf.mp (mem_accepted.mp mem).1).2.1.trans
      (mem_observationsOf.mp (mem_accepted.mp builder).1).2.1.symm
  rw [ofE.transfer] at status
  constructor
  · exact ofEvent.trans builds.event
  · rw [← ofE.transfer, same.amountRaw, ofB.transfer]; exact builds.amountRaw
  · rw [← ofE.transfer, same.toAddress, ofB.transfer]; exact builds.toAddress
  · rw [← ofE.transfer, same.tokenKey, ofB.transfer]; exact builds.tokenKey
  · rw [← ofE.transfer, same.memo, ofB.transfer]; exact builds.memo
  · rw [← ofE.assetId, same.assetId hasAsset' hasAsset, ofB.assetId]; exact builds.assetId
  · intro hash reported
    exact same.blockHash _ _ (by rw [ofE.transfer]; exact reported)
      (by rw [ofB.transfer]; exact builds.hasHash)
  · intro number reported
    exact same.blockNumber _ _ (by rw [ofE.transfer]; exact reported)
      (by rw [ofB.transfer]; exact builds.hasNumber)
  · exact status

theorem Proven.builder (proven : Proven ((db.evidenceFor event).filter (·.genuine)) policy fact) :
    ∃ b ∈ db.accepted event, b.2.Builds fact.transfer.row := by
  obtain ⟨r, mem, gives⟩ := canonicalTransfer_given proven.transfer
  obtain ⟨b, accepted, ofB⟩ := accepted_of_reading mem
  obtain ⟨status, _⟩ := rejection_eq_none proven.unrefused mem
  have same := ofB.transfer
  refine ⟨b, accepted, ⟨?_, ?_, ?_, ?_, ?_, ?_, ?_, ?_, ?_⟩, ?_, ?_⟩
  · rw [← same]; exact gives.event
  · rw [← same]; exact gives.amountRaw
  · rw [← same]; exact gives.toAddress
  · rw [← same]; exact gives.tokenKey
  · rw [← same]; exact gives.memo
  · rw [← ofB.assetId]; exact gives.assetId
  · intro hash reported
    rw [← same, gives.blockHash] at reported
    exact (Option.some.inj reported).symm
  · intro number reported
    rw [← same, gives.blockNumber] at reported
    exact (Option.some.inj reported).symm
  · rw [← same]; exact status
  · rw [← same]; exact gives.blockHash
  · rw [← same]; exact gives.blockNumber

theorem Proven.named (proven : Proven ((db.evidenceFor event).filter (·.genuine)) policy fact)
    {o : Id} : o ∈ fact.attestations.map (·.1) ↔ ∃ e ∈ db.accepted event, e.1 = o := by
  rw [proven.attestations, attestationRoles, Dictionary.mem_collect_keys]
  simp only [List.mem_map, exists_exists_and_eq_and]
  constructor
  · rintro ⟨r, mem, rfl⟩
    obtain ⟨e, accepted, from_⟩ := accepted_of_reading mem
    exact ⟨e, accepted, from_.id.symm⟩
  · rintro ⟨e, accepted, rfl⟩
    obtain ⟨r, mem, from_⟩ := reading_of_accepted accepted
    exact ⟨r, mem, from_.id⟩

end

structure Sees (d db : Db) : Prop where
  stored : ∀ {o row}, d.observations.row o = some row →
    ∃ now, db.observations.row o = some now ∧ now.toObservationTerms = row.toObservationTerms
  live : ∀ {o row now}, d.observations.row o = some row → db.observations.row o = some now →
    now.purged = false → row.purged = false ∧ d.principalOf row.sourceId =
    db.principalOf row.sourceId
  open_ : ∀ {e}, (∀ t row, db.transfers.row t = some row → row.event ≠ e) →
    d.observationsOf e <:+ db.observationsOf e
  settled : ∀ {t row}, db.transfers.row t = some row →
    (∃ b ∈ d.accepted row.event, b.2.Builds row) ∨ ∀ e ∈ d.accepted row.event, e.2.Agrees row

structure Grounded (db : Db) : Prop where
  built : ∀ {t row}, db.transfers.row t = some row → ∃ b ∈ db.accepted row.event,
    b.2.Builds row ∧ (db.attestations.row b.1).isSome
  attested : ∀ {o a}, db.attestations.row o = some a → ∃ reading row,
    db.observation o = some reading ∧ db.transfers.row a.transferId = some row ∧ reading.Agrees row

theorem Grounded.sees {db : Db} (grounded : Grounded db) : Sees db db where
  stored found := ⟨_, found, rfl⟩
  live found again unpurged := by
    cases found.symm.trans again
    exact ⟨unpurged, rfl⟩
  open_ _ := List.suffix_refl _
  settled found := by
    obtain ⟨b, accepted, builds, _⟩ := grounded.built found
    exact .inl ⟨b, accepted, builds⟩

theorem Sees.accepted {d db : Db} (sees : Sees d db) {event : ChainEventKey}
    {e : Id × ObservationRow} (mem : e ∈ d.accepted event)
    (stays : e ∈ db.observationsOf event) : e ∈ db.accepted event := by
  obtain ⟨listed, principal⟩ := mem_accepted.mp mem
  obtain ⟨now, _, unpurged⟩ := mem_observationsOf.mp stays
  obtain ⟨then_, _, _⟩ := mem_observationsOf.mp listed
  refine mem_accepted.mpr ⟨stays, ?_⟩
  rw [← (sees.live then_ now unpurged).2]
  exact principal

structure Kept (db db' : Db) : Prop where
  transfers : db'.transfers = db.transfers
  attestations : db'.attestations = db.attestations
  stored : ∀ {o row}, db.observations.row o = some row →
    ∃ now, db'.observations.row o = some now ∧ now.toObservationTerms = row.toObservationTerms
  live : ∀ {o row now}, db.observations.row o = some row → db'.observations.row o = some now →
    now.purged = false → row.purged = false ∧
      db.principalOf row.sourceId = db'.principalOf row.sourceId
  attested : ∀ {o row}, db.observation o = some row → (db.attestations.row o).isSome →
    db'.observation o = some row
  open_ : ∀ {e}, (∀ t row, db.transfers.row t = some row → row.event ≠ e) →
    db.observationsOf e <:+ db'.observationsOf e

section
variable {db db' db'' : Db}

theorem Kept.refl : Kept db db where
  transfers := rfl
  attestations := rfl
  stored found := ⟨_, found, rfl⟩
  live found again unpurged := by
    cases found.symm.trans again
    exact ⟨unpurged, rfl⟩
  attested found _ := found
  open_ _ := List.suffix_refl _

theorem Kept.trans (first : Kept db db') (second : Kept db' db'') : Kept db db'' where
  transfers := second.transfers.trans first.transfers
  attestations := second.attestations.trans first.attestations
  stored found := by
    obtain ⟨mid, found', same⟩ := first.stored found
    obtain ⟨now, found'', same'⟩ := second.stored found'
    exact ⟨now, found'', same'.trans same⟩
  live {o row now} found later unpurged := by
    obtain ⟨mid, found', same⟩ := first.stored found
    obtain ⟨unpurged', principal⟩ := second.live found' later unpurged
    obtain ⟨unpurged'', principal'⟩ := first.live found found' unpurged'
    have source : mid.sourceId = row.sourceId := congrArg ObservationTerms.sourceId same
    rw [source] at principal
    exact ⟨unpurged'', principal'.trans principal⟩
  attested found attested := by
    refine second.attested (first.attested found attested) ?_
    rw [first.attestations]
    exact attested
  open_ none_ := by
    refine (first.open_ none_).trans (second.open_ fun t row found => ?_)
    rw [first.transfers] at found
    exact none_ t row found

theorem Kept.grounded (kept : Kept db db') (grounded : Grounded db) : Grounded db' where
  built {t row} found := by
    rw [kept.transfers] at found
    obtain ⟨b, accepted, builds, attested⟩ := grounded.built found
    obtain ⟨listed, principal⟩ := mem_accepted.mp accepted
    obtain ⟨stored, event, unpurged⟩ := mem_observationsOf.mp listed
    have now := observation_eq_some.mp
      (kept.attested (observation_eq_some.mpr ⟨stored, unpurged⟩) attested)
    refine ⟨b, mem_accepted.mpr ⟨mem_observationsOf.mpr ⟨now.1, event, unpurged⟩, ?_⟩, builds, ?_⟩
    · rw [← (kept.live stored now.1 unpurged).2]
      exact principal
    · rw [kept.attestations]
      exact attested
  attested {o a} found := by
    rw [kept.attestations] at found
    obtain ⟨reading, row, stored, ofTransfer, agrees⟩ := grounded.attested found
    refine ⟨reading, row, kept.attested stored (by rw [found]; rfl), ?_, agrees⟩
    rw [kept.transfers]
    exact ofTransfer

theorem Kept.sees (kept : Kept db db') {d : Db} (sees : Sees d db) : Sees d db' where
  stored found := by
    obtain ⟨mid, found', same⟩ := sees.stored found
    obtain ⟨now, found'', same'⟩ := kept.stored found'
    exact ⟨now, found'', same'.trans same⟩
  live {o row now} found later unpurged := by
    obtain ⟨mid, found', same⟩ := sees.stored found
    obtain ⟨unpurged', principal⟩ := kept.live found' later unpurged
    obtain ⟨unpurged'', principal'⟩ := sees.live found found' unpurged'
    have source : mid.sourceId = row.sourceId := congrArg ObservationTerms.sourceId same
    rw [source] at principal
    exact ⟨unpurged'', principal'.trans principal⟩
  open_ {e} none_ := by
    have before : ∀ t row, db.transfers.row t = some row → row.event ≠ e := by
      rw [← kept.transfers]
      exact none_
    exact (sees.open_ before).trans (kept.open_ before)
  settled found := by
    rw [kept.transfers] at found
    exact sees.settled found

theorem Kept.insertObservation (id : Id) (terms : ObservationTerms) :
    Kept db (Store.apply (.insertObservation id terms) db) where
  transfers := rfl
  attestations := rfl
  stored found := ⟨_, Table.row_insert_stored found id _, rfl⟩
  live found later unpurged := by
    cases (Table.row_insert_stored found id _).symm.trans later
    exact ⟨unpurged, rfl⟩
  attested found _ := by
    obtain ⟨stored, unpurged⟩ := observation_eq_some.mp found
    exact observation_eq_some.mpr ⟨Table.row_insert_stored stored id _, unpurged⟩
  open_ _ := (Table.entries_insert_suffix _ _ _).filter _

theorem observationsOf_purge {id : Id} {e : ChainEventKey}
    (other : ∀ row, db.observations.row id = some row → row.transfer.event ≠ e) :
    (Store.apply (.purgeObservation id) db).observationsOf e = db.observationsOf e := by
  have entries : (Store.apply (.purgeObservation id) db).observations.entries =
      db.observations.entries.map fun x =>
        if x.1 = id then (x.1, { x.2 with purged := true }) else x :=
    Table.entries_modify _ _ _
  rw [Db.observationsOf, Db.observationsOf, entries, List.filter_map]
  have same : ∀ x ∈ db.observations.entries,
      ((fun x : Id × ObservationRow => decide (x.2.transfer.event = e) && !x.2.purged) ∘
        fun x => if x.1 = id then (x.1, { x.2 with purged := true }) else x) x =
      (decide (x.2.transfer.event = e) && !x.2.purged) := by
    intro x mem
    by_cases mine : x.1 = id
    · have ne := other x.2 (by rw [← mine]; exact Table.mem_entries.mp mem)
      simp [mine, ne]
    · simp [mine]
  rw [List.filter_congr same]
  refine (List.map_congr_left fun x mem => ?_).trans (List.map_id _)
  obtain ⟨stored, holds⟩ := List.mem_filter.mp mem
  by_cases mine : x.1 = id
  · have ne := other x.2 (by rw [← mine]; exact Table.mem_entries.mp stored)
    simp [ne] at holds
  · simp [mine]

theorem Kept.purgeObservation {id : Id} (unattested : db.attestations.row id = none)
    (final : ∀ row, db.observations.row id = some row →
      ∃ t transfer, db.transfers.row t = some transfer ∧ transfer.event = row.transfer.event) :
    Kept db (Store.apply (.purgeObservation id) db) where
  transfers := rfl
  attestations := rfl
  stored {o row} found := by
    by_cases same : o = id
    · subst same
      refine ⟨{ row with purged := true }, ?_, rfl⟩
      simp [Write.observations, found]
    · exact ⟨row, (Table.row_modify_ne same _).trans found, rfl⟩
  live {o row now} found later unpurged := by
    by_cases same : o = id
    · subst same
      simp [Write.observations, found] at later
      subst later
      cases unpurged
    · cases ((Table.row_modify_ne same _).trans found).symm.trans later
      exact ⟨unpurged, rfl⟩
  attested {o row} found attested := by
    have other : o ≠ id := by
      rintro rfl
      rw [unattested] at attested
      cases attested
    obtain ⟨stored, unpurged⟩ := observation_eq_some.mp found
    exact observation_eq_some.mpr ⟨(Table.row_modify_ne other _).trans stored, unpurged⟩
  open_ {e} none_ := by
    have other : ∀ row, db.observations.row id = some row → row.transfer.event ≠ e := by
      intro row found same
      obtain ⟨t, transfer, stored, event⟩ := final row found
      exact none_ t transfer stored (event.trans same)
    exact (observationsOf_purge other).symm ▸ List.suffix_refl _

theorem Kept.putCursor (key : CursorKey) (position : CursorRow) :
    Kept db (Store.apply (.putCursor key position) db) where
  transfers := rfl
  attestations := rfl
  stored := Kept.refl.stored
  live := Kept.refl.live
  attested := Kept.refl.attested
  open_ _ := List.suffix_refl _

theorem Kept.record (rows : List (Id × ObservationTerms)) (moved : Option (CursorKey × CursorRow)) :
    Kept db (applyAll (recordWrites rows moved) db) := by
  refine applyAll_induct (P := Kept db) .refl fun w mem mid kept => ?_
  rcases mem_recordWrites.mp mem with ⟨e, _, rfl⟩ | ⟨e, _, rfl⟩
  · exact kept.trans (.insertObservation e.1 e.2)
  · exact kept.trans (.putCursor e.1 e.2)

theorem Kept.purge {ids : List Id} (purges : ∀ id ∈ ids, Purges db id) :
    Kept db (applyAll (ids.map Write.purgeObservation) db) := by
  refine applyAll_induct (P := Kept db) .refl fun w mem mid kept => ?_
  obtain ⟨id, listed, rfl⟩ := List.mem_map.mp mem
  refine kept.trans (.purgeObservation ?_ fun row found => ?_)
  · rw [kept.attestations]
    exact (purges id listed).unattested
  · obtain ⟨old, t, transfer, stored, known, event, _⟩ := (purges id listed).final
    obtain ⟨now, found', same⟩ := kept.stored stored
    cases found.symm.trans found'
    refine ⟨t, transfer, by rw [kept.transfers]; exact known, event.trans ?_⟩
    exact (congrArg (·.transfer.event) same).symm

end

def Watch.isDictated : Watch → Bool
  | .dictated _ => true
  | _ => false

structure FromEvidence (log : Log Db Watch) (db : Db) (ws : List Write) : Prop where
  evidence : ∀ x ∈ log, x.1.isDictated = false
  principals : ∀ e ∈ db.observations.entries, e.2.purged = false →
    (applyAll ws db).principalOf e.2.sourceId = db.principalOf e.2.sourceId

instance (log : Log Db Watch) (db : Db) (ws : List Write) : Decidable (FromEvidence log db ws) :=
  decidable_of_iff
    ((∀ x ∈ log, x.1.isDictated = false) ∧ ∀ e ∈ db.observations.entries, e.2.purged = false →
      (applyAll ws db).principalOf e.2.sourceId = db.principalOf e.2.sourceId)
    ⟨fun ⟨evidence, principals⟩ => ⟨evidence, principals⟩, fun h => ⟨h.evidence, h.principals⟩⟩

theorem Kept.aside {log : Log Db Watch} {db : Db} {ws : List Write} (ok : FromEvidence log db ws)
    (other : ∀ w ∈ ws, w.table ∉ .observations :: verifiedTables) : Kept db (applyAll ws db) := by
  have transfers : (applyAll ws db).transfers = db.transfers :=
    transfers_same fun w mem eq => other w mem (by rw [eq]; decide)
  have attestations : (applyAll ws db).attestations = db.attestations :=
    attestations_same fun w mem eq => other w mem (by rw [eq]; decide)
  have observations : (applyAll ws db).observations = db.observations :=
    observations_same fun w mem eq => other w mem (by rw [eq]; decide)
  constructor
  · exact transfers
  · exact attestations
  · intro o row found
    exact ⟨row, by rw [observations]; exact found, rfl⟩
  · intro o row now found later unpurged
    rw [observations] at later
    cases found.symm.trans later
    exact ⟨unpurged, (ok.principals (o, row) (Table.mem_entries.mpr found) unpurged).symm⟩
  · intro o row found _
    rw [Db.observation, observations]
    exact found
  · intro e _
    unfold Db.observationsOf
    exact observations.symm ▸ List.suffix_refl _

section
variable {v : Verification} {log : Log Db Watch} {db : Db}

theorem Verification.writes_table {w : Write} (mem : w ∈ v.writes) : w.table ∈ observeTables := by
  unfold Verification.writes Verification.opening at mem
  split at mem
  · exact List.mem_append_right _ (advance_table (by simpa using mem))
  · exact observe_table mem

theorem Verification.transfers_after {t : Id} {row : TransferRow}
    (after : (applyAll v.writes db).transfers.row t = some row) :
    db.transfers.row t = some row ∨ (v.known = none ∧ t = v.id ∧ row = v.fact.transfer.row) := by
  refine (transfers_inserts.origin after).imp_right fun mem => ?_
  simp [Verification.writes, Verification.opening, attestationWrites, StateStep.writes] at mem
  split at mem
  · cases mem
  · rename_i opens
    simp at mem
    exact ⟨opens, mem⟩

theorem Verification.attestations_after {o : Id} {a : AttestationRow}
    (after : (applyAll v.writes db).attestations.row o = some a) :
    db.attestations.row o = some a ∨ (o, a) ∈ v.attested := by
  refine (attestations_inserts.origin after).imp_right fun mem => ?_
  simp [Verification.writes, Verification.opening, attestationWrites, StateStep.writes] at mem
  rcases mem with mem | mem
  · split at mem <;> simp at mem
  · exact mem

theorem Verification.attested_after {o : Id} (mem : o ∈ v.attested.map (·.1)) :
    ((applyAll v.writes db).attestations.row o).isSome := by
  obtain ⟨e, listed, rfl⟩ := List.mem_map.mp mem
  have written : Write.insertAttestation e.1 e.2 ∈ v.writes := by
    simp only [Verification.writes, List.mem_append]
    exact .inl (.inl (.inr (List.mem_map.mpr ⟨e, listed, rfl⟩)))
  have put := ((attestations_inserts.persists e.1).map fun _ => ()).applyAll_mem (v := ())
    written (fun db => by
    simp [Write.attestations, Table.row_insert]) db
  simpa [Option.map_eq_some_iff, Option.isSome_iff_exists] using put

theorem Judged.proven {fact : VerifiedTransfer} (judged : Judged log fact)
    (evidence : ∀ x ∈ log, x.1.isDictated = false) :
    ∃ m policy, (Watch.evidence fact.transfer.event, m) ∈ log ∧
      Proven ((m.db.evidenceFor fact.transfer.event).filter (·.genuine)) policy fact := by
  rcases judged with ⟨m, mem⟩ | ⟨m, policy, at_, mem, decided⟩
  · cases evidence _ mem
  · exact ⟨m, policy, mem, verify_verified decided⟩

variable {m : Moment Db} {policy : FinalityPolicy}

theorem Verification.Sound.reads (sound : v.Sound log db) (sees : Sees m.db db)
    (proven : Proven ((m.db.evidenceFor v.fact.transfer.event).filter (·.genuine)) policy v.fact)
    {e : Id × AttestationRow} (mem : e ∈ v.attested) :
    ∃ x ∈ m.db.accepted v.fact.transfer.event, ∃ reading, db.observation e.1 = some reading ∧
      reading.toObservationTerms = x.2.toObservationTerms := by
  have attests := sound.attests e mem
  obtain ⟨x, accepted, same⟩ := proven.named.mp attests.named
  obtain ⟨reading, stored⟩ := Option.isSome_iff_exists.mp attests.stored
  obtain ⟨then_, _, _⟩ := mem_observationsOf.mp (mem_accepted.mp accepted).1
  obtain ⟨now, found, terms⟩ := sees.stored then_
  rw [same] at found
  cases found.symm.trans (observation_eq_some.mp stored).1
  exact ⟨x, accepted, reading, stored, terms⟩

theorem Verification.observations_after : (applyAll v.writes db).observations = db.observations :=
  observations_same fun _ mem eq =>
    absurd (eq ▸ v.writes_table mem) (by decide)

theorem Verification.catalog_after : (applyAll v.writes db).catalog = db.catalog :=
  catalog_same fun _ mem eq => absurd (eq ▸ v.writes_table mem) (by decide)

theorem Verification.accepted_after (event : ChainEventKey) :
    (applyAll v.writes db).accepted event = db.accepted event := by
  unfold Db.accepted Db.observationsOf Db.principalOf
  rw [v.observations_after, v.catalog_after]

theorem Verification.observation_after (o : Id) :
    (applyAll v.writes db).observation o = db.observation o := by
  simp only [Db.observation, v.observations_after]

theorem Sees.verified {d : Db} (sees : Sees d db)
    (settled : ∀ {t row}, (applyAll v.writes db).transfers.row t = some row →
      (∃ b ∈ d.accepted row.event, b.2.Builds row) ∨ ∀ e ∈ d.accepted row.event, e.2.Agrees row) :
    Sees d (applyAll v.writes db) where
  stored := by rw [v.observations_after]; exact sees.stored
  live := by
    simp only [v.observations_after, Db.principalOf, v.catalog_after]
    exact sees.live
  open_ none_ := by
    simp only [Db.observationsOf, v.observations_after]
    exact sees.open_ fun t row found => none_ t row
      ((transfers_inserts.persists t).applyAll found _)
  settled := settled

theorem Grounded.attest (grounded : Grounded db) (sound : v.Sound log db) (sees : Sees m.db db)
    (proven : Proven ((m.db.evidenceFor v.fact.transfer.event).filter (·.genuine)) policy v.fact)
    {row : TransferRow} (transfer : (applyAll v.writes db).transfers.row v.id = some row)
    (agree : ∀ x ∈ m.db.accepted v.fact.transfer.event, x.2.Agrees row) {o : Id}
    {a : AttestationRow} (found : (applyAll v.writes db).attestations.row o = some a) :
    ∃ reading row, (applyAll v.writes db).observation o = some reading ∧
      (applyAll v.writes db).transfers.row a.transferId = some row ∧ reading.Agrees row := by
  rw [v.observation_after]
  rcases v.attestations_after found with old | new
  · obtain ⟨reading, row, stored, ofTransfer, agrees⟩ := grounded.attested old
    exact ⟨reading, row, stored, (transfers_inserts.persists _).applyAll ofTransfer _, agrees⟩
  · obtain ⟨x, accepted, reading, stored, terms⟩ := sound.reads sees proven new
    refine ⟨reading, row, stored, ?_, ?_⟩
    · rw [(sound.attests _ new).ofTransfer]
      exact transfer
    · rw [terms]
      exact agree x accepted

theorem Verification.builder_attested {latest before : Log Db Watch}
    (past : ∀ x ∈ log, Sees x.2.db db)
    (order : log.Pairwise fun newer older => Sees older.2.db newer.2.db)
    (split : log = latest ++ before) (read : (Watch.evidence v.fact.transfer.event, m) ∈ before)
    (proven : Proven ((m.db.evidenceFor v.fact.transfer.event).filter (·.genuine)) policy v.fact)
    (covered : ∀ o ∈ v.fact.attestations.map (·.1), Covered latest db v.attested o)
    (first : ∀ t row, db.transfers.row t = some row → row.event ≠ v.fact.transfer.event) :
    ∃ b ∈ m.db.accepted v.fact.transfer.event, b.2.Builds v.fact.transfer.row ∧
      b ∈ db.accepted v.fact.transfer.event ∧
      ((applyAll v.writes db).attestations.row b.1).isSome := by
  obtain ⟨b, accepted, builds⟩ := proven.builder
  have sees : Sees m.db db := past _ (by rw [split]; exact List.mem_append_right _ read)
  have listed := (mem_accepted.mp accepted).1
  have stays : b ∈ db.observationsOf v.fact.transfer.event := (sees.open_ first).subset listed
  have accepted' := sees.accepted accepted stays
  refine ⟨b, accepted, builds, accepted', ?_⟩
  rcases covered b.1 (proven.named.mpr ⟨b, accepted, rfl⟩) with mem | stored | ⟨m', mem, gone⟩
  · exact v.attested_after mem
  · obtain ⟨a, found⟩ := Option.isSome_iff_exists.mp stored
    rw [(attestations_inserts.persists b.1).applyAll found]
    rfl
  · -- the session looked for the reading after it had read it as evidence
    have later : Sees m.db m'.db := by
      rw [split] at order
      exact (List.pairwise_append.mp order).2.2 _ mem _ read
    have sees' : Sees m'.db db := past _ (by rw [split]; exact List.mem_append_left _ mem)
    obtain ⟨now, _, unpurged⟩ := mem_observationsOf.mp stays
    obtain ⟨mid, found, terms⟩ := later.stored (mem_observationsOf.mp listed).1
    obtain ⟨unpurged', principal⟩ := sees'.live found now unpurged
    have source : mid.sourceId = b.2.sourceId := congrArg ObservationTerms.sourceId terms
    rw [source, (mem_accepted.mp accepted').2] at principal
    obtain ⟨registered, here, _⟩ := Option.map_eq_some_iff.mp principal
    simp [Db.sourceOf, observation_eq_some.mpr ⟨found, unpurged'⟩, source, here] at gone

theorem Sees.opened {d : Db} (sees : Sees d db) {fact : VerifiedTransfer} (sees' : Sees m.db db)
    (proven : Proven ((m.db.evidenceFor fact.transfer.event).filter (·.genuine)) policy fact)
    (first : ∀ t row, db.transfers.row t = some row → row.event ≠ fact.transfer.event) :
    (∃ b ∈ d.accepted fact.transfer.event, b.2.Builds fact.transfer.row) ∨
      ∀ e ∈ d.accepted fact.transfer.event, e.2.Agrees fact.transfer.row := by
  obtain ⟨b, accepted, builds⟩ := proven.builder
  have mine := sees.open_ first
  have theirs := sees'.open_ first
  -- a reading that both saw is accepted by both
  have shared : ∀ {d₁ d₂ : Db}, Sees d₁ db → Sees d₂ db → ∀ {e},
      e ∈ d₁.accepted fact.transfer.event → e ∈ d₂.observationsOf fact.transfer.event →
      e ∈ db.observationsOf fact.transfer.event → e ∈ d₂.accepted fact.transfer.event := by
    intro d₁ d₂ sees₁ sees₂ e accepted there now
    obtain ⟨stored, _, unpurged⟩ := mem_observationsOf.mp now
    refine mem_accepted.mpr ⟨there, ?_⟩
    rw [(sees₂.live (mem_observationsOf.mp there).1 stored unpurged).2]
    exact (mem_accepted.mp (sees₁.accepted accepted now)).2
  rcases List.suffix_or_suffix_of_suffix mine theirs with fewer | more
  · refine .inr fun e mem => ?_
    have listed := (mem_accepted.mp mem).1
    exact proven.agrees accepted builds
      (shared sees sees' mem (fewer.subset listed) (mine.subset listed))
  · have listed := (mem_accepted.mp accepted).1
    exact .inl ⟨b, shared sees' sees accepted (more.subset listed) (theirs.subset listed), builds⟩

theorem Grounded.verify (grounded : Grounded db) (sound : v.Sound log db)
    (evidence : ∀ x ∈ log, x.1.isDictated = false) (past : ∀ x ∈ log, Sees x.2.db db)
    (order : log.Pairwise fun newer older => Sees older.2.db newer.2.db) :
    Grounded (applyAll v.writes db) ∧ ∀ d, Sees d db → Sees d (applyAll v.writes db) := by
  cases sound.starts with
  | @on row known transfer _ ofEvent =>
    obtain ⟨m, policy, read, proven⟩ := sound.judged.proven evidence
    have sees := past _ read
    have still : ∀ {t row}, (applyAll v.writes db).transfers.row t = some row →
        db.transfers.row t = some row := by
      intro t row after
      rcases v.transfers_after after with old | ⟨opens, _⟩
      · exact old
      · rw [known] at opens
        cases opens
    have agree : ∀ x ∈ m.db.accepted v.fact.transfer.event, x.2.Agrees row := by
      rcases sees.settled transfer with ⟨b, accepted, builds⟩ | all
      · rw [ofEvent] at accepted
        exact fun x mem => proven.agrees accepted builds mem
      · rw [ofEvent] at all
        exact all
    refine ⟨⟨fun found => ?_, fun found => ?_⟩, fun d sees => sees.verified fun found => ?_⟩
    · obtain ⟨b, accepted, builds, attested⟩ := grounded.built (still found)
      obtain ⟨a, stored⟩ := Option.isSome_iff_exists.mp attested
      refine ⟨b, by rw [v.accepted_after]; exact accepted, builds, ?_⟩
      rw [(attestations_inserts.persists b.1).applyAll stored]
      rfl
    · exact grounded.attest sound sees proven
        ((transfers_inserts.persists _).applyAll transfer _) agree found
    · exact sees.settled (still found)
  | new opens transfer _ _ first _ covered =>
    obtain ⟨latest, before, split, judged, covered⟩ := covered
    obtain ⟨m, policy, read, proven⟩ := judged.proven fun x mem =>
      evidence x (by rw [split]; exact List.mem_append_right _ mem)
    have sees : Sees m.db db := past _ (by rw [split]; exact List.mem_append_right _ read)
    obtain ⟨b, accepted, builds, accepted', attested⟩ :=
      v.builder_attested past order split read proven covered first
    have opened : (applyAll v.writes db).transfers.row v.id = some v.fact.transfer.row := by
      have put : (Store.apply (Write.insertTransfer v.id v.fact.transfer.row)
        db).transfers.row v.id =
          some v.fact.transfer.row := by simp [Write.transfers, Table.row_insert, transfer]
      obtain ⟨rest, shape⟩ : ∃ rest,
          v.writes = .insertTransfer v.id v.fact.transfer.row :: rest := by
        simp [Verification.writes, Verification.opening, opens]
      rw [shape]
      exact (transfers_inserts.persists v.id).applyAll put rest
    refine ⟨⟨fun found => ?_, fun found => ?_⟩, fun d sees' => sees'.verified fun found => ?_⟩
    · rcases v.transfers_after found with old | ⟨_, rfl, rfl⟩
      · obtain ⟨c, accepted, builds, attested⟩ := grounded.built old
        obtain ⟨a, stored⟩ := Option.isSome_iff_exists.mp attested
        refine ⟨c, by rw [v.accepted_after]; exact accepted, builds, ?_⟩
        rw [(attestations_inserts.persists c.1).applyAll stored]
        rfl
      · exact ⟨b, by rw [v.accepted_after]; exact accepted', builds, attested⟩
    · exact grounded.attest sound sees proven opened
        (fun x mem => proven.agrees accepted builds mem) found
    · rcases v.transfers_after found with old | ⟨_, rfl, rfl⟩
      · exact sees'.settled old
      · exact sees'.opened sees proven first

end

section
variable {config : Config} {s : Gateway}

theorem Reached.grounded (reached : Reached config (OnCommit FromEvidence) s) : Grounded s.db := by
  have seen : ∀ db, Grounded db → Sees db db := fun _ grounded => grounded.sees
  refine (reached.keeps_ordered ⟨nofun, nofun⟩ seen ?_).1
  intro s e log ws _ allowed commits _ eff grounded past order
  have ok := allowed log ws commits
  have quiet : Kept s.db (applyAll ws s.db) →
      Grounded (applyAll ws s.db) ∧ ∀ d, Sees d s.db → Sees d (applyAll ws s.db) :=
    fun kept => ⟨kept.grounded grounded, fun _ => kept.sees⟩
  rcases eff.evidence_or with ⟨v, sound, rfl⟩ | ⟨rows, moved, rfl⟩ | ⟨ids, purges, rfl⟩ | other
  · exact grounded.verify sound ok.evidence past order
  · exact quiet (.record rows moved)
  · exact quiet (.purge purges)
  · exact quiet (.aside ok other)

/-- In every run that decides on evidence and never changes a source's principal, an
    attestation names a reading that is still stored and says what the transfer says. -/
theorem attested_evidence_agrees (reached : Reached config (OnCommit FromEvidence) s) {o : Id}
    {a : AttestationRow} (found : s.db.attestations.row o = some a) :
    ∃ reading row, s.db.observation o = some reading ∧
      s.db.transfers.row a.transferId = some row ∧ reading.Agrees row :=
  reached.grounded.attested found

end

namespace Sample

theorem attested_evidence_agrees_verified :
    ∃ s a reading row, Reached config (OnCommit FromEvidence) s ∧
      s.db.attestations.row 2 = some a ∧ a.transferId = 3 ∧ s.db.observation 2 = some reading ∧
      s.db.transfers.row 3 = some row ∧ reading.Agrees row := by
  have reached := Gateway.after_reached config (OnCommit FromEvidence) verified
  obtain ⟨a, found, transfer⟩ := Option.map_eq_some_iff.mp (by decide +kernel :
    ((Gateway.after config (OnCommit FromEvidence) verified).db.attestations.row 2).map
      (·.transferId) = some 3)
  obtain ⟨reading, row, stored, ofTransfer, agrees⟩ := attested_evidence_agrees reached found
  rw [transfer] at ofTransfer
  exact ⟨_, a, reading, row, reached, found, transfer, stored, ofTransfer, agrees⟩

end Sample
end CryptoGateway
