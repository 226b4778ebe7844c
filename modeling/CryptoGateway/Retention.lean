import CryptoGateway.Engine.Pruning
import CryptoGateway.Storage.Statements
import Mathlib.Data.Finset.Max
import Mathlib.Data.Prod.Lex

/-!
Retention: bounded deletes of delivery attempts, observations and health events. A `DELETE`
chooses its rows on a snapshot that may be outdated when the rows go.
-/
namespace CryptoGateway.Retention
open Engine

structure DeliveryRow where
  eventId : Id
  endpointId : Id
  attempt : Nat
  deliveredAt : Int
deriving DecidableEq, Repr

structure ObservationRow where
  event : ChainEventKey
  observedAt : Int
deriving DecidableEq, Repr

structure ConflictRow where
  event : ChainEventKey
  resolved : Bool
deriving DecidableEq, Repr

structure TransferRow where
  event : ChainEventKey
  state : Option TransferState
deriving DecidableEq, Repr

structure HealthRow where
  component : Text
  createdAt : Int
deriving DecidableEq, Repr

inductive PurgedTable where
  | webhookDeliveries | chainObservations | componentHealthEvents
deriving DecidableEq, Repr

structure PurgeRecord where
  table : PurgedTable
  deleted : Nat
  olderThan : Int
  keptLatestPerEndpoint : Option Nat
deriving DecidableEq, Repr

structure Records where
  deliveries : Table Id DeliveryRow := .empty
  /-- `domain_events.delivered_at` -/
  events : Table Id (Option Int) := .empty
  observations : Table Id ObservationRow := .empty
  /-- The observations that attestations and conflict items reference. -/
  attested : List Id := []
  conflictItems : List Id := []
  conflicts : Table Id ConflictRow := .empty
  transfers : Table Id TransferRow := .empty
  health : Table Id HealthRow := .empty
  audit : List PurgeRecord := []

def newerAttempt (newer attempt : Id × DeliveryRow) : Bool :=
  newer.2.eventId = attempt.2.eventId && newer.2.endpointId = attempt.2.endpointId &&
    attempt.2.attempt < newer.2.attempt

/-- `(newer.created_at, newer.id) > (event.created_at, event.id)` within a component. -/
def newerHealth (newer event : Id × HealthRow) : Bool :=
  newer.2.component = event.2.component &&
    (decide (event.2.createdAt < newer.2.createdAt) ||
      (decide (event.2.createdAt = newer.2.createdAt) && decide (event.1 < newer.1)))

namespace Records

def deliveryDue (seen : Records) (olderThan : Int) (keepLatest : Nat) (e : Id × DeliveryRow) :
    Bool :=
  decide (e.2.deliveredAt < olderThan) &&
    ((seen.events.row e.2.eventId).any fun delivered => delivered.any (· < olderThan)) &&
    decide (keepLatest ≤ seen.deliveries.outranked newerAttempt e)

def observationDue (seen : Records) (olderThan : Int) (e : Id × ObservationRow) : Bool :=
  decide (e.2.observedAt < olderThan) && !seen.attested.contains e.1 &&
    !seen.conflictItems.contains e.1 &&
    !(seen.conflicts.entries.any fun c => c.2.event = e.2.event && !c.2.resolved) &&
    seen.transfers.entries.any fun t => t.2.event = e.2.event &&
      (t.2.state = some .finalized || t.2.state = some .invalidated)

def healthDue (seen : Records) (olderThan : Int) (e : Id × HealthRow) : Bool :=
  decide (e.2.createdAt < olderThan) && seen.health.entries.any (newerHealth · e)

end Records

/-- `ORDER BY time, id LIMIT limit` -/
def oldest {ρ : Type} (time : ρ → Int) (limit : Nat) (rows : List (Id × ρ)) : List Id :=
  ((rows.insertionSort fun a b => time a.2 < time b.2 ∨ (time a.2 = time b.2 ∧ a.1 ≤ b.1)).take
    limit).map (·.1)

inductive Purge where
  | deliveries (olderThan : Int) (keepLatest limit : Nat)
  | observations (olderThan : Int) (limit : Nat)
  | health (olderThan : Int) (limit : Nat)
deriving DecidableEq, Repr

/-- `record`: a batch that deleted nothing leaves no audit row. -/
def record (entry : PurgeRecord) (db : Records) : Records :=
  if entry.deleted = 0 then db else { db with audit := entry :: db.audit }

def still {ρ : Type} (t : Table Id ρ) (ids : List Id) : List Id :=
  ids.filter fun id => (t.row id).isSome

def purgeWebhookDeliveries (olderThan : Int) (keepLatest limit : Nat) (seen db : Records) :
    Except RepositoryError (Records × Nat) :=
  let due := seen.deliveries.entries.filter (seen.deliveryDue olderThan keepLatest)
  let ids := still db.deliveries (oldest (·.deliveredAt) limit due)
  .ok (record ⟨.webhookDeliveries, ids.length, olderThan, some keepLatest⟩
    { db with deliveries := db.deliveries.eraseAll ids }, ids.length)

def purgeObservations (olderThan : Int) (limit : Nat) (seen db : Records) :
    Except RepositoryError (Records × Nat) :=
  let due := seen.observations.entries.filter (seen.observationDue olderThan)
  let ids := still db.observations (oldest (·.observedAt) limit due)
  if ids.any fun id => db.attested.contains id || db.conflictItems.contains id then
    .error .unavailable
  else
    .ok (record ⟨.chainObservations, ids.length, olderThan, none⟩
      { db with observations := db.observations.eraseAll ids }, ids.length)

def purgeHealthEvents (olderThan : Int) (limit : Nat) (seen db : Records) :
    Except RepositoryError (Records × Nat) :=
  let due := seen.health.entries.filter (seen.healthDue olderThan)
  let ids := still db.health (oldest (·.createdAt) limit due)
  .ok (record ⟨.componentHealthEvents, ids.length, olderThan, none⟩
    { db with health := db.health.eraseAll ids }, ids.length)

def Purge.run (seen db : Records) : Purge → Except RepositoryError (Records × Nat)
  | .deliveries olderThan keepLatest limit =>
      purgeWebhookDeliveries olderThan keepLatest limit seen db
  | .observations olderThan limit => purgeObservations olderThan limit seen db
  | .health olderThan limit => purgeHealthEvents olderThan limit seen db

/-! The service: which statements one batch of a policy issues. -/

/-- Ages in microseconds. -/
structure RetentionPolicy where
  webhookDeliveries : Option Int
  keepDeliveryAttempts : Nat
  observations : Option Int
  healthEvents : Option Int
deriving DecidableEq, Repr

inductive RetentionError where
  | disabled | tooShort | keepAtLeastOne | invalidBatchLimit
  | repository (error : RepositoryError)
deriving DecidableEq, Repr

structure RetentionReport where
  webhookDeliveries : Nat := 0
  observations : Nat := 0
  healthEvents : Nat := 0
  drained : Bool := true
deriving DecidableEq, Repr

def minRetentionDays : Nat := 30

def ageOfDays : Option Nat → Except RetentionError (Option Int)
  | none => .ok none
  | some days => if days < minRetentionDays then .error .tooShort
      else .ok (some (days * 86400 * 1000000))

def RetentionPolicy.fromDays (webhookDeliveries : Option Nat) (keepDeliveryAttempts : Nat)
    (observations healthEvents : Option Nat) : Except RetentionError RetentionPolicy := do
  if keepDeliveryAttempts = 0 then .error .keepAtLeastOne
  else do
    let webhookDeliveries ← ageOfDays webhookDeliveries
    let observations ← ageOfDays observations
    let healthEvents ← ageOfDays healthEvents
    pure ⟨webhookDeliveries, keepDeliveryAttempts, observations, healthEvents⟩

def RetentionPolicy.isDisabled (policy : RetentionPolicy) : Bool :=
  policy.webhookDeliveries.isNone && policy.observations.isNone && policy.healthEvents.isNone

/-- `RetentionService::new`: the policies a service runs with. -/
structure RetentionService where
  policy : RetentionPolicy
  enabled : policy.isDisabled = false
  keepsOne : policy.keepDeliveryAttempts ≠ 0

def RetentionService.new (policy : RetentionPolicy) : Except RetentionError RetentionService :=
  if enabled : policy.isDisabled = false then
    if keepsOne : policy.keepDeliveryAttempts ≠ 0 then .ok ⟨policy, enabled, keepsOne⟩
    else .error .keepAtLeastOne
  else .error .disabled

def RetentionService.issue (purge : Option Purge) (report : Nat → RetentionReport → RetentionReport)
    (state : Records × Except RetentionError RetentionReport) :
    Records × Except RetentionError RetentionReport :=
  match purge, state with
  | some purge, (db, .ok so) =>
      match purge.run db db with
      | .ok (db', deleted) => (db', .ok (report deleted so))
      | .error error => (db, .error (.repository error))
  | _, state => state

/-- `purge_batch`: each statement is a transaction of its own. -/
def RetentionService.purgeBatch (service : RetentionService) (now : Int) (limit : Nat)
    (db : Records) : Records × Except RetentionError RetentionReport :=
  if limit = 0 ∨ 10000 < limit then (db, .error .invalidBatchLimit)
  else
    let policy := service.policy
    let drained (deleted : Nat) (so : RetentionReport) : Bool :=
      so.drained && decide (deleted < limit)
    let deliveries := policy.webhookDeliveries.map fun age =>
      .deliveries (now - age) policy.keepDeliveryAttempts limit
    let observations := policy.observations.map fun age => .observations (now - age) limit
    let health := policy.healthEvents.map fun age => .health (now - age) limit
    issue health (fun n so => { so with healthEvents := n, drained := drained n so })
      (issue observations (fun n so => { so with observations := n, drained := drained n so })
        (issue deliveries (fun n so => { so with webhookDeliveries := n, drained := drained n so })
          (db, .ok {})))

/-! Runs: batches among everything else that is written. -/

inductive Change where
  | addDelivery (id : Id) (row : DeliveryRow)
  | setEvent (id : Id) (deliveredAt : Option Int)
  | addObservation (id : Id) (row : ObservationRow)
  | attest (observation : Id)
  | addConflictItem (observation : Id)
  | setConflict (id : Id) (row : ConflictRow)
  | setTransfer (id : Id) (row : TransferRow)
  | addHealth (id : Id) (row : HealthRow)

structure World where
  db : Records
  past : List Records := []
  deliveries : Table Id DeliveryRow
  observations : Table Id ObservationRow
  health : Table Id HealthRow

def World.start (db : Records) : World where
  db
  deliveries := db.deliveries
  observations := db.observations
  health := db.health

def World.becomes (w : World) (db : Records) : World := { w with db, past := w.db :: w.past }

def World.change (w : World) : Change → World
  | .addDelivery id row =>
      if (w.deliveries.row id).isNone then
        { w.becomes { w.db with deliveries := w.db.deliveries.insert id row } with
          deliveries := w.deliveries.insert id row }
      else w
  | .addObservation id row =>
      if (w.observations.row id).isNone then
        { w.becomes { w.db with observations := w.db.observations.insert id row } with
          observations := w.observations.insert id row }
      else w
  | .addHealth id row =>
      if (w.health.row id).isNone then
        { w.becomes { w.db with health := w.db.health.insert id row } with
          health := w.health.insert id row }
      else w
  | .setEvent id deliveredAt => w.becomes { w.db with events := w.db.events.put id deliveredAt }
  | .attest id =>
      if (w.db.observations.row id).isSome then
        w.becomes { w.db with attested := id :: w.db.attested }
      else w
  | .addConflictItem id =>
      if (w.db.observations.row id).isSome then
        w.becomes { w.db with conflictItems := id :: w.db.conflictItems }
      else w
  | .setConflict id row => w.becomes { w.db with conflicts := w.db.conflicts.put id row }
  | .setTransfer id row => w.becomes { w.db with transfers := w.db.transfers.put id row }

def Purge.limit : Purge → Nat
  | .deliveries _ _ limit => limit
  | .observations _ limit => limit
  | .health _ limit => limit

structure Justified (batch : Purge) (seen db db' : Records) (deleted : Nat) : Prop where
  deliveries : ∀ id row, db.deliveries.row id = some row → db'.deliveries.row id = none →
    ∃ olderThan keepLatest limit, batch = .deliveries olderThan keepLatest limit ∧
      seen.deliveries.row id = some row ∧ row.deliveredAt < olderThan ∧
      (∃ delivered, seen.events.row row.eventId = some (some delivered) ∧ delivered < olderThan) ∧
      keepLatest ≤ seen.deliveries.outranked newerAttempt (id, row)
  observations : ∀ id row, db.observations.row id = some row → db'.observations.row id = none →
    ∃ olderThan limit, batch = .observations olderThan limit ∧
      seen.observations.row id = some row ∧ row.observedAt < olderThan ∧
      (id ∉ seen.attested ∧ id ∉ db.attested) ∧ (id ∉ seen.conflictItems ∧ id ∉ db.conflictItems) ∧
      (∀ c conflict, seen.conflicts.row c = some conflict → conflict.event = row.event →
        conflict.resolved = true) ∧
      ∃ t transfer, seen.transfers.row t = some transfer ∧ transfer.event = row.event ∧
        (transfer.state = some .finalized ∨ transfer.state = some .invalidated)
  health : ∀ id row, db.health.row id = some row → db'.health.row id = none →
    ∃ olderThan limit, batch = .health olderThan limit ∧ seen.health.row id = some row ∧
      row.createdAt < olderThan ∧ ∃ other newer, seen.health.row other = some newer ∧
        newerHealth (other, newer) (id, row) = true
  /-- The rows that stay are as they were, and nothing else is touched. -/
  kept : db'.deliveries.Within db.deliveries ∧ db'.observations.Within db.observations ∧
    db'.health.Within db.health
  others : db'.events = db.events ∧ db'.attested = db.attested ∧
    db'.conflictItems = db.conflictItems ∧ db'.conflicts = db.conflicts ∧
    db'.transfers = db.transfers
  bounded : deleted ≤ batch.limit

section
variable {ρ : Type} {t : Table Id ρ} {time : ρ → Int} {limit : Nat} {due : Id × ρ → Bool}

theorem mem_oldest {seen : Table Id ρ} {id : Id}
    (mem : id ∈ oldest time limit (seen.entries.filter due)) :
    ∃ row, seen.row id = some row ∧ due (id, row) = true := by
  obtain ⟨⟨_, row⟩, taken, rfl⟩ := List.mem_map.mp mem
  have listed := List.mem_of_mem_take taken
  rw [List.mem_insertionSort, List.mem_filter, Table.mem_entries] at listed
  exact ⟨row, listed⟩

theorem oldest_length (rows : List (Id × ρ)) : (oldest time limit rows).length ≤ limit := by
  rw [oldest, List.length_map]
  exact List.length_take_le _ _

theorem erased {ids : List Id} {id : Id} {row : ρ} (found : t.row id = some row)
    (gone : (t.eraseAll ids).row id = none) : id ∈ ids := by
  rw [Table.row_eraseAll] at gone
  split at gone
  · assumption
  · cases found.symm.trans gone

theorem erased_due {seen ever : Table Id ρ} (reads : seen.Within ever) (there : t.Within ever)
    {id : Id} {row : ρ} (found : t.row id = some row)
    (gone : (t.eraseAll (still t (oldest time limit (seen.entries.filter due)))).row id = none) :
    seen.row id = some row ∧ due (id, row) = true := by
  obtain ⟨mem, _⟩ := List.mem_filter.mp (erased found gone)
  obtain ⟨row', seen_, isDue⟩ := mem_oldest mem
  cases (reads id row' seen_).symm.trans (there id row found)
  exact ⟨seen_, isDue⟩

theorem still_length {rows : List (Id × ρ)} : (still t (oldest time limit rows)).length ≤ limit :=
  (List.length_filter_le _ _).trans (oldest_length rows)

end

section
variable {seen db db' : Records} {deleted : Nat} {entry : PurgeRecord}

@[simp] theorem record_deliveries : (record entry db).deliveries = db.deliveries := by
  unfold record
  split <;> rfl

@[simp] theorem record_observations : (record entry db).observations = db.observations := by
  unfold record
  split <;> rfl

@[simp] theorem record_health : (record entry db).health = db.health := by
  unfold record
  split <;> rfl

theorem record_others : (record entry db).events = db.events ∧
    (record entry db).attested = db.attested ∧ (record entry db).conflictItems = db.conflictItems ∧
    (record entry db).conflicts = db.conflicts ∧ (record entry db).transfers = db.transfers := by
  unfold record
  split <;> simp

structure Within (w : World) (db : Records) : Prop where
  deliveries : db.deliveries.Within w.deliveries
  observations : db.observations.Within w.observations
  health : db.health.Within w.health

theorem Purge.justified {w : World} {batch : Purge} (reads : Within w seen) (there : Within w db)
    (done : batch.run seen db = .ok (db', deleted)) : Justified batch seen db db' deleted := by
  have lost : ∀ {ρ : Type} {t : Table Id ρ} {id : Id} {row : ρ}, t.row id = some row →
      ¬t.row id = none := fun found none_ => by cases found.symm.trans none_
  cases batch with
  | deliveries olderThan keepLatest limit =>
    cases done
    refine ⟨fun id row found gone => ?_, ?_, ?_, ?_, record_others, still_length⟩
    · rw [record_deliveries] at gone
      obtain ⟨stored, isDue⟩ := erased_due reads.deliveries there.deliveries found gone
      simp only [Records.deliveryDue, Bool.and_eq_true, decide_eq_true_eq,
        Option.any_eq_true] at isDue
      obtain ⟨⟨old, _, event, delivered, rfl, before⟩, many⟩ := isDue
      exact ⟨_, _, _, rfl, stored, old, ⟨delivered, event, by simpa using before⟩, many⟩
    · intro id row found gone
      rw [record_observations] at gone
      exact absurd gone (lost found)
    · intro id row found gone
      rw [record_health] at gone
      exact absurd gone (lost found)
    · simp only [record_deliveries, record_observations, record_health]
      exact ⟨.eraseAll _ _, .refl _, .refl _⟩
  | observations olderThan limit =>
    unfold Purge.run purgeObservations at done
    simp only at done
    split at done
    · cases done
    rename_i unreferenced
    cases done
    refine ⟨?_, fun id row found gone => ?_, ?_, ?_, record_others, still_length⟩
    · intro id row found gone
      rw [record_deliveries] at gone
      exact absurd gone (lost found)
    · rw [record_observations] at gone
      have named := erased found gone
      obtain ⟨stored, isDue⟩ := erased_due reads.observations there.observations found gone
      simp only [Records.observationDue, Bool.and_eq_true, decide_eq_true_eq] at isDue
      obtain ⟨⟨⟨⟨old, attested⟩, items⟩, resolved⟩, final⟩ := isDue
      have now_ : id ∉ db.attested ∧ id ∉ db.conflictItems := by
        constructor <;> intro mem <;> exact unreferenced
          (List.any_eq_true.mpr ⟨id, named, by simp [mem]⟩)
      have closed : ∀ c conflict, (c, conflict) ∈ seen.conflicts.entries →
          conflict.event = row.event → conflict.resolved = true := by simpa using resolved
      refine ⟨_, _, rfl, stored, old, ⟨by simpa using attested, now_.1⟩,
        ⟨by simpa using items, now_.2⟩, fun c conflict found same => ?_, ?_⟩
      · exact closed c conflict (Table.mem_entries.mpr found) same
      · obtain ⟨⟨t, transfer⟩, listed, matches_⟩ := List.any_eq_true.mp final
        simp only [Bool.and_eq_true, Bool.or_eq_true, decide_eq_true_eq] at matches_
        exact ⟨t, transfer, Table.mem_entries.mp listed, matches_⟩
    · intro id row found gone
      rw [record_health] at gone
      exact absurd gone (lost found)
    · simp only [record_deliveries, record_observations, record_health]
      exact ⟨.refl _, .eraseAll _ _, .refl _⟩
  | health olderThan limit =>
    cases done
    refine ⟨?_, ?_, fun id row found gone => ?_, ?_, record_others, still_length⟩
    · intro id row found gone
      rw [record_deliveries] at gone
      exact absurd gone (lost found)
    · intro id row found gone
      rw [record_observations] at gone
      exact absurd gone (lost found)
    · rw [record_health] at gone
      obtain ⟨stored, isDue⟩ := erased_due reads.health there.health found gone
      simp only [Records.healthDue, Bool.and_eq_true, decide_eq_true_eq] at isDue
      obtain ⟨old, newer⟩ := isDue
      obtain ⟨⟨other, row'⟩, listed, above⟩ := List.any_eq_true.mp newer
      exact ⟨_, _, rfl, stored, old, other, row', Table.mem_entries.mp listed, above⟩
    · simp only [record_deliveries, record_observations, record_health]
      exact ⟨.refl _, .refl _, .eraseAll _ _⟩

end

/-- Every batch keeps at least the `k` newest attempts. -/
def Purge.keeps (k : Nat) : Purge → Prop
  | .deliveries _ keepLatest _ => k ≤ keepLatest
  | _ => True

/-- The runs in which every batch keeps at least the `k` newest attempts. A batch may act
    on any state that was there before. -/
inductive World.Reach (k : Nat) (start : Records) : World → Prop where
  | start : World.Reach k start (World.start start)
  | change {w : World} (before : World.Reach k start w) (c : Change) :
      World.Reach k start (w.change c)
  | purge {w : World} (before : World.Reach k start w) {seen : Records}
      (reads : seen ∈ w.db :: w.past) {batch : Purge} (keeps : batch.keeps k) {db : Records}
      {deleted : Nat} (done : batch.run seen w.db = .ok (db, deleted)) :
      World.Reach k start (w.becomes db)

structure World.Sound (k : Nat) (w : World) : Prop where
  within : ∀ db ∈ w.db :: w.past, Within w db
  deliveries : Table.Retains newerAttempt k w.deliveries w.db.deliveries
  health : Table.Retains newerHealth 1 w.health w.db.health

section
variable {k : Nat} {w : World}

theorem Within.grow {w' : World} {db : Records} (within : Within w db)
    (deliveries : w.deliveries.Within w'.deliveries)
    (observations : w.observations.Within w'.observations) (health : w.health.Within w'.health) :
    Within w' db :=
  ⟨within.deliveries.trans deliveries, within.observations.trans observations,
    within.health.trans health⟩

theorem World.Sound.becomes (sound : w.Sound k) {w' : World}
    (past : w'.past = w.db :: w.past) (deliveries : w.deliveries.Within w'.deliveries)
    (observations : w.observations.Within w'.observations) (health : w.health.Within w'.health)
    (here : w'.db.observations.Within w'.observations)
    (kept : Table.Retains newerAttempt k w'.deliveries w'.db.deliveries)
    (newest : Table.Retains newerHealth 1 w'.health w'.db.health) : w'.Sound k := by
  refine ⟨fun db mem => ?_, kept, newest⟩
  rw [past] at mem
  rcases List.mem_cons.mp mem with rfl | old
  · exact ⟨kept.within, here, newest.within⟩
  · exact (sound.within db old).grow deliveries observations health

theorem World.Sound.change (sound : w.Sound k) (c : Change) : (w.change c).Sound k := by
  have here := sound.within w.db List.mem_cons_self
  -- a write outside the three tables
  have aside : ∀ db : Records, db.deliveries = w.db.deliveries →
      db.observations = w.db.observations → db.health = w.db.health → (w.becomes db).Sound k := by
    intro db deliveries observations health
    refine sound.becomes rfl (.refl _) (.refl _) (.refl _) ?_ ?_ ?_
    · exact observations ▸ here.observations
    · exact deliveries ▸ sound.deliveries
    · exact health ▸ sound.health
  cases c with
  | addDelivery id row =>
    unfold World.change
    simp only
    split
    · rename_i unused
      exact sound.becomes rfl (.insert _ _ _) (.refl _) (.refl _) here.observations
        (sound.deliveries.insert (Option.isNone_iff_eq_none.mp unused) row) sound.health
    · exact sound
  | addObservation id row =>
    unfold World.change
    simp only
    split
    · rename_i unused
      refine sound.becomes rfl (.refl _) (.insert _ _ _) (.refl _) ?_ sound.deliveries sound.health
      intro j found stored
      show (w.observations.insert id row).row j = some found
      rcases Table.row_insert_cases stored with old | ⟨_, rfl, rfl⟩
      · exact Table.row_insert_stored (here.observations j found old) _ _
      · rw [Table.row_insert_fresh (Option.isNone_iff_eq_none.mp unused), if_pos rfl]
    · exact sound
  | addHealth id row =>
    unfold World.change
    simp only
    split
    · rename_i unused
      exact sound.becomes rfl (.refl _) (.refl _) (.insert _ _ _) here.observations sound.deliveries
        (sound.health.insert (Option.isNone_iff_eq_none.mp unused) row)
    · exact sound
  | setEvent id deliveredAt => exact aside _ rfl rfl rfl
  | setConflict id row => exact aside _ rfl rfl rfl
  | setTransfer id row => exact aside _ rfl rfl rfl
  | attest id =>
    unfold World.change
    simp only
    split
    · exact aside _ rfl rfl rfl
    · exact sound
  | addConflictItem id =>
    unfold World.change
    simp only
    split
    · exact aside _ rfl rfl rfl
    · exact sound

theorem World.Sound.purge (sound : w.Sound k) {seen : Records} (reads : seen ∈ w.db :: w.past)
    {batch : Purge} (keeps : batch.keeps k) {db : Records} {deleted : Nat}
    (done : batch.run seen w.db = .ok (db, deleted)) : (w.becomes db).Sound k := by
  have here := sound.within w.db List.mem_cons_self
  have read := sound.within seen reads
  cases batch with
  | deliveries olderThan keepLatest limit =>
    cases done
    refine sound.becomes rfl (.refl _) (.refl _) (.refl _) ?_ ?_ ?_
    · simpa [World.becomes] using here.observations
    · simp only [World.becomes, record_deliveries]
      refine sound.deliveries.eraseAll read.deliveries fun id mem => ?_
      obtain ⟨row, stored, isDue⟩ := mem_oldest (List.mem_filter.mp mem).1
      simp only [Records.deliveryDue, Bool.and_eq_true, decide_eq_true_eq] at isDue
      exact ⟨row, stored, keeps.trans isDue.2⟩
    · simpa [World.becomes] using sound.health
  | observations olderThan limit =>
    unfold Purge.run purgeObservations at done
    simp only at done
    split at done
    · cases done
    cases done
    refine sound.becomes rfl (.refl _) (.refl _) (.refl _) ?_ ?_ ?_
    · simp only [World.becomes, record_observations]
      exact (Table.Within.eraseAll _ _).trans here.observations
    · simpa [World.becomes] using sound.deliveries
    · simpa [World.becomes] using sound.health
  | health olderThan limit =>
    cases done
    refine sound.becomes rfl (.refl _) (.refl _) (.refl _) ?_ ?_ ?_
    · simpa [World.becomes] using here.observations
    · simpa [World.becomes] using sound.deliveries
    · simp only [World.becomes, record_health]
      refine sound.health.eraseAll read.health fun id mem => ?_
      obtain ⟨row, stored, isDue⟩ := mem_oldest (List.mem_filter.mp mem).1
      simp only [Records.healthDue, Bool.and_eq_true] at isDue
      exact ⟨row, stored, List.countP_pos_iff.mpr (List.any_eq_true.mp isDue.2)⟩

variable {start : Records}

theorem World.Reach.sound (reached : World.Reach k start w) : w.Sound k := by
  induction reached with
  | start =>
    refine ⟨fun db mem => ?_, .refl _, .refl _⟩
    cases List.mem_singleton.mp mem
    exact ⟨.refl _, .refl _, .refl _⟩
  | change before c ih => exact ih.change c
  | purge before reads keeps done ih => exact ih.purge reads keeps done

theorem World.Sound.newest (sound : w.Sound k) {component : Text}
    (had : ∃ id row, w.health.row id = some row ∧ row.component = component) :
    ∃ id row, w.db.health.row id = some row ∧ row.component = component ∧
      ∀ other newer, w.health.row other = some newer →
        newerHealth (other, newer) (id, row) = false := by
  obtain ⟨first, row, found, same⟩ := had
  let ofComponent := (w.health.entries.filter (·.2.component = component)).toFinset
  have nonempty : ofComponent.Nonempty :=
    ⟨(first, row), by simp [ofComponent, Table.mem_entries, found, same]⟩
  obtain ⟨⟨id, latest⟩, mem, largest⟩ :=
    ofComponent.exists_max_image (fun e => toLex (e.2.createdAt, e.1)) nonempty
  simp only [ofComponent, List.mem_toFinset, List.mem_filter, Table.mem_entries,
    decide_eq_true_eq] at mem largest
  have unsurpassed : ∀ other newer, w.health.row other = some newer →
      newerHealth (other, newer) (id, latest) = false := by
    intro other newer stored
    by_cases ours : newer.component = latest.component
    · have below := largest (other, newer) ⟨Table.mem_entries.mpr stored, ours.trans mem.2⟩
      rw [Prod.Lex.le_iff] at below
      simp only [ofLex_toLex] at below
      simp only [newerHealth, Bool.and_eq_false_iff, Bool.or_eq_false_iff, decide_eq_false_iff_not,
        ours, not_true_eq_false, false_or]
      rcases below with earlier | ⟨equal, notLater⟩
      · exact ⟨by omega, .inl (by omega)⟩
      · exact ⟨by omega, .inr (Nat.not_lt.mpr notLater)⟩
    · simp [newerHealth, ours]
  refine ⟨id, latest, sound.health.kept mem.1 ?_, mem.2, unsurpassed⟩
  have none_ : w.health.outranked newerHealth (id, latest) = 0 := by
    refine List.countP_eq_zero.mpr fun ⟨other, newer⟩ listed => ?_
    simp [unsurpassed other newer (Table.mem_entries.mp listed)]
  omega

theorem World.Reach.issue {purge : Option Purge}
    (keeps : ∀ batch, purge = some batch → batch.keeps k)
    (report : Nat → RetentionReport → RetentionReport)
    {state : Records × Except RetentionError RetentionReport}
    (reached : ∃ w, World.Reach k start w ∧ w.db = state.1) :
    ∃ w, World.Reach k start w ∧ w.db = (RetentionService.issue purge report state).1 := by
  obtain ⟨w, before, same⟩ := reached
  obtain ⟨db, so⟩ := state
  subst same
  unfold RetentionService.issue
  split
  · rename_i batch db so here
    cases here
    split
    · rename_i done
      exact ⟨_, before.purge List.mem_cons_self (keeps batch rfl) done, rfl⟩
    · exact ⟨w, before, rfl⟩
  · exact ⟨w, before, rfl⟩

theorem World.Reach.purgeBatch (reached : World.Reach k start w)
    (service : RetentionService) (keeps : k ≤ service.policy.keepDeliveryAttempts) (now : Int)
    (limit : Nat) :
    ∃ w', World.Reach k start w' ∧ w'.db = (service.purgeBatch now limit w.db).1 := by
  unfold RetentionService.purgeBatch
  split
  · exact ⟨w, reached, rfl⟩
  refine World.Reach.issue ?_ _ (World.Reach.issue ?_ _ (World.Reach.issue ?_ _ ⟨w, reached, rfl⟩))
  · rintro batch issued
    obtain ⟨_, _, rfl⟩ := Option.map_eq_some_iff.mp issued
    trivial
  · rintro batch issued
    obtain ⟨_, _, rfl⟩ := Option.map_eq_some_iff.mp issued
    trivial
  · rintro batch issued
    obtain ⟨_, _, rfl⟩ := Option.map_eq_some_iff.mp issued
    exact keeps

/-- In every run of batches and other writes, a batch deletes only what its snapshot shows to be
    due, the `k` newest attempts for an event and an endpoint are still there, and so is the newest
    health event of every component. The batches of a service are among those. -/
theorem retention_keeps_evidence (reached : World.Reach k start w) :
    (∀ seen ∈ w.db :: w.past, ∀ (batch : Purge) (db : Records) (deleted : Nat),
      batch.run seen w.db = .ok (db, deleted) → Justified batch seen w.db db deleted) ∧
    (∀ id row, w.deliveries.row id = some row →
      w.deliveries.outranked newerAttempt (id, row) < k → w.db.deliveries.row id = some row) ∧
    (∀ component, (∃ id row, w.health.row id = some row ∧ row.component = component) →
      ∃ id row, w.db.health.row id = some row ∧ row.component = component ∧
        ∀ other newer, w.health.row other = some newer →
          newerHealth (other, newer) (id, row) = false) ∧
    ∀ service : RetentionService, k ≤ service.policy.keepDeliveryAttempts → ∀ now limit,
      ∃ w', World.Reach k start w' ∧ w'.db = (service.purgeBatch now limit w.db).1 := by
  have sound := reached.sound
  refine ⟨fun seen reads batch db deleted done => ?_, fun id row stored few => ?_,
    fun component had => sound.newest had, fun service keeps now limit => ?_⟩
  · exact batch.justified (sound.within seen reads) (sound.within w.db List.mem_cons_self) done
  · exact sound.deliveries.kept stored few
  · exact reached.purgeBatch service keeps now limit

end

namespace Sample

def records : Records where
  deliveries := (((Table.empty.insert 1 ⟨7, 8, 1, 1⟩).insert 2 ⟨7, 8, 2, 2⟩).insert 3 ⟨7, 8, 3, 3⟩)
  events := Table.empty.insert 7 (some 3)
  health := Table.empty.insert 4 ⟨['s'], 1⟩

end Sample

/-- Two batches that both read the first state, and keep two attempts. -/
theorem retention_keeps_evidence_twice :
    ∃ w, World.Reach 2 Sample.records w ∧ w.db.deliveries.row 1 = none ∧
      w.db.deliveries.row 2 = some ⟨7, 8, 2, 2⟩ ∧
      ∃ id row, w.db.health.row id = some row ∧ row.component = ['s'] := by
  have batches : ∃ db db', (Purge.deliveries 10 2 1).run Sample.records
    Sample.records = .ok (db, 1) ∧
      (Purge.deliveries 10 2 1).run Sample.records db = .ok (db', 0) ∧
      db'.deliveries.row 1 = none := ⟨_, _, rfl, rfl, by decide +kernel⟩
  obtain ⟨db, db', done, again, gone⟩ := batches
  have once : World.Reach 2 Sample.records ((World.start Sample.records).becomes db) :=
    .purge .start List.mem_cons_self le_rfl done
  have twice : World.Reach 2 Sample.records
    (((World.start Sample.records).becomes db).becomes db') :=
    .purge once (List.mem_cons_of_mem _ List.mem_cons_self) le_rfl again
  obtain ⟨_, kept, newest, _⟩ := retention_keeps_evidence twice
  have second : Sample.records.deliveries.outranked newerAttempt (2, ⟨7, 8, 2, 2⟩) < 2 := by
    decide +kernel
  obtain ⟨id, row, stored, component, _⟩ := newest ['s'] ⟨4, ⟨['s'], 1⟩, rfl, rfl⟩
  exact ⟨_, twice, gone, kept 2 _ rfl second, id, row, stored, component⟩

end CryptoGateway.Retention
