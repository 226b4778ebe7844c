import CryptoGateway.Webhooks.Lifecycle

/-!
The records of attempts, kept under the event, the endpoint and the number of the attempt. Where a
claim finds nobody with the event and no record under that number, every record is new.
-/
namespace CryptoGateway.Webhooks
open Engine

def FreshClaims (s : Outbox) (e : Event Request) : Prop :=
  ∀ c ∈ s.committing e, ∀ event ∈ c.2.filterMap Write.claimed, ∀ key ∈ s.db.deliveries.keys,
    key.eventId = event.id → key.attempt ≠ event.attempts + 1

instance (s : Outbox) (e : Event Request) : Decidable (FreshClaims s e) :=
  inferInstanceAs (Decidable (∀ c ∈ s.committing e, ∀ event ∈ c.2.filterMap Write.claimed,
    ∀ key ∈ s.db.deliveries.keys, key.eventId = event.id → key.attempt ≠ event.attempts + 1))

abbrev OutboxEvent.attemptAt (event : OutboxEvent) (endpointId : Id) : DeliveryKey :=
  ⟨event.id, endpointId, event.attempts + 1⟩

structure Noted (log : Log Db Watch) (ws : List Write) (event : OutboxEvent) (endpointId : Id) :
    Prop where
  recorded : (event, endpointId) ∈ recordings log
  final : ∀ row, .putDelivery (event.attemptAt endpointId) row ∉ ws

def Recorded (s : Outbox) : Prop :=
  ∀ (i : Nat) (c : Worker) (event : OutboxEvent) (endpointId : Id), s.sessions[i]? = some c →
    event ∈ owed c → (s.db.deliveries.row (event.attemptAt endpointId)).isSome = true →
    Noted c.log c.writes event endpointId

section Recording
variable {config : Config} {log : Log Db Watch} {ws new : List Write} {tag : Option Watch}
  {m : Moment Db} {event : OutboxEvent} {endpointId : Id}

theorem recordings_record (mem : (event, endpointId) ∈ recordings log) :
    (event, endpointId) ∈ recordings (record tag m log) :=
  ((record_suffix tag m log).sublist.filterMap _).subset mem

theorem Noted.move (noted : Noted log ws event endpointId) (may : Move config tag log ws new)
    (only : ∀ other, Owing (record tag m log) (ws ++ new) other → other.id = event.id →
      other = event) : Noted (record tag m log) (ws ++ new) event endpointId := by
  refine ⟨recordings_record noted.recorded, fun row mem => ?_⟩
  rcases List.mem_append.mp mem with old | fresh
  · exact noted.final row old
  cases may with
  | aside other => cases other _ mem
  | claim => simp at fresh
  | claimed => simp at fresh
  | share merchant move =>
    cases move with
    | @recording log current place _ pending first =>
      obtain ⟨claimed, own, unclosed⟩ := pending.open_
      obtain ⟨key, _⟩ := Write.putDelivery.inj (List.mem_singleton.mp fresh)
      obtain ⟨ids, rfl, _⟩ := DeliveryKey.mk.inj key
      have same : current = event := by
        refine only current ⟨by simp [Write.isClaim], ?_, .inl unclosed⟩ ids.symm
        simpa [record, claimedEvents, Watch.batch] using claimed
      cases same
      exact first ((mem_recordings_shareOf own).mpr noted.recorded)
    | _ => simp at fresh

end Recording

section Runs
variable {config : Config} {db : Db} {allow : Outbox → Event Request → Prop} {s s' : Outbox}
  {e : Event Request} {log : Log Db Watch} {ws : List Write}

theorem deliveries_kept {key : DeliveryKey} (db : Db) (other : ∀ row, .putDelivery key row ∉ ws) :
    (applyAll ws db).deliveries.row key = db.deliveries.row key := by
  rw [deliveries_applyAll]
  generalize db.deliveries.row key = row
  induction ws generalizing row with
  | nil => rfl
  | cons w rest ih =>
    rw [List.foldl_cons, ih fun row mem => other row (List.mem_cons_of_mem _ mem)]
    cases w with
    | putDelivery k row' =>
      have ne : k ≠ key := by
        rintro rfl
        exact other row' List.mem_cons_self
      simp [Write.onDelivery, ne]
    | _ => rfl

theorem Noted.origin (held : Held s') {i : Nat} {c' : Worker} {event : OutboxEvent}
    {endpointId : Id}
    (origin : Session.Origin (Move config) (Commit config) (program config) s e i c')
    (found : s'.sessions[i]? = some c') (mem : event ∈ owed c')
    (noted : ∀ c, s.sessions[i]? = some c → Noted c.log c.writes event endpointId) :
    Noted c'.log c'.writes event endpointId := by
  obtain ⟨running, owing⟩ := mem_owed.mp mem
  cases origin with
  | new absent q fresh => exact absurd owing.claimed (by simp [fresh, claimedEvents])
  | same stored => exact noted _ stored
  | committed stored alive own commits may log writes =>
    rw [log, writes]
    exact ⟨(noted _ stored).recorded, by simp⟩
  | turned stored ended turn =>
    have old := noted _ stored
    cases turn with
    | still log writes => rwa [log, writes]
    | dropped may log writes =>
      rw [log, writes]
      exact ⟨old.recorded, by simp⟩
    | moved may log writes =>
      rw [log, writes]
      refine old.move may fun other owes same => ?_
      rw [← log, ← writes] at owes
      exact (held.sole found found (mem_owed.mpr ⟨running, owes⟩) mem same).2

theorem Recorded.step (recorded : Recorded s) (held : Held s) (held' : Held s')
    (reached : (outbox config db).Reached allow s) (fresh : FreshClaims s e)
    (taken : s.step (program config) e = some s') : Recorded s' := by
  intro i c' event endpointId found mem present
  have origin := outbox_origin reached taken found
  rcases owed_origin origin mem with ⟨c, stored, had⟩ | ⟨rfl, log, ws, call, commits, claims⟩
  · have old : (s.db.deliveries.row (event.attemptAt endpointId)).isSome = true →
        Noted c'.log c'.writes event endpointId := by
      intro before
      refine Noted.origin held' origin found mem fun d there => ?_
      cases there.symm.trans stored
      exact recorded i _ event endpointId stored had before
    rcases System.step_db taken with ⟨_, unchanged⟩ | ⟨log, ws, commits, moved⟩
    · rw [unchanged] at present
      exact old present
    · by_cases writes : ∃ row, .putDelivery (event.attemptAt endpointId) row ∈ ws
      · -- the record is the holder's own
        obtain ⟨row, puts⟩ := writes
        obtain ⟨j, d, rfl, there, rfl, rfl, alive, writing⟩ := outbox_writing reached
          commits puts rfl
        obtain ⟨other, place, m, before, key, _, head, _, owing⟩ := writing.recording puts
        obtain ⟨ids, rfl, _⟩ := DeliveryKey.mk.inj key
        obtain ⟨rfl, rfl⟩ := held.sole stored there had (mem_owed.mpr ⟨alive, owing⟩) ids
        obtain ⟨_, d', ⟨⟩, after, log', writes'⟩ :=
          (System.step_turn (reached.acting (program_acts config) rfl) taken).after_commit commits
        cases after.symm.trans found
        rw [log', writes', head]
        exact ⟨List.mem_cons_self, by simp⟩
      · rw [moved, deliveries_kept s.db fun row puts => writes ⟨row, puts⟩] at present
        exact old present
  · -- the claim found no such record, and adds none
    rcases System.step_db taken with ⟨none, _⟩ | ⟨_, _, commits', moved⟩
    · cases none.symm.trans commits
    · cases commits'.symm.trans commits
      obtain ⟨batch, m, _, rfl⟩ := (outbox_commits reached commits).1.claims claims
      rw [moved, deliveries_kept s.db fun row => by simp] at present
      refine absurd rfl (fresh _ commits event (List.mem_filterMap.mpr ⟨_, claims, rfl⟩)
        (event.attemptAt endpointId) ?_ rfl)
      exact (s.db.deliveries.stored _).mpr present

theorem outbox_recorded (sole : ∀ s e, allow s e → SoleClaims s e)
    (fresh : ∀ s e, allow s e → FreshClaims s e) (reached : (outbox config db).Reached allow s) :
    Recorded s := by
  induction reached with
  | refl => simp [Recorded, outbox]
  | step before taken allowed ih =>
    have held := outbox_held sole before
    exact ih.step held (held.step before (sole _ _ allowed) taken) before (fresh _ _ allowed) taken

theorem record_new (sole : ∀ s e, allow s e → SoleClaims s e)
    (fresh : ∀ s e, allow s e → FreshClaims s e) (reached : (outbox config db).Reached allow s)
    (commits : s.committing e = some (log, ws)) {key : DeliveryKey} {row : DeliveryRow}
    (puts : .putDelivery key row ∈ ws) : s.db.deliveries.row key = none := by
  obtain ⟨i, c, rfl, found, rfl, rfl, running, writing⟩ := outbox_writing reached commits puts rfl
  obtain ⟨event, endpointId, _, _, rfl, _, _, _, owing⟩ := writing.recording puts
  by_contra present
  have noted := outbox_recorded sole fresh reached i c event endpointId found
    (mem_owed.mpr ⟨running, owing⟩) (Option.isSome_iff_ne_none.mpr present)
  exact noted.final row puts

/-- In a run in which every claim finds nobody with the event and no record under the
    number of the attempt, every record gets a row of its own, which nothing changes. -/
theorem records_kept (config : Config) (db : Db) {allow : Outbox → Event Request → Prop}
    (sole : ∀ s e, allow s e → SoleClaims s e) (fresh : ∀ s e, allow s e → FreshClaims s e)
    {s : Outbox} (reached : (outbox config db).Reached allow s) :
    (∀ e log ws key row, s.committing (Q := Request) e = some (log, ws) →
      .putDelivery key row ∈ ws → s.db.deliveries.row key = none ∧
        (applyAll ws s.db).deliveries.row key = some row) ∧
    ∀ s' key row, System.Reach (program config) allow s s' → s.db.deliveries.row key = some row →
      s'.db.deliveries.row key = some row := by
  constructor
  · intro e log ws key row commits puts
    refine ⟨record_new sole fresh reached commits puts, ?_⟩
    obtain ⟨_, _, _, _, _, _, _, writing⟩ := outbox_writing reached commits puts rfl
    obtain ⟨_, _, _, _, _, rfl, _⟩ := writing.recording puts
    rw [deliveries_applyAll]
    simp [Write.onDelivery]
  · intro s' key row later stored
    refine (outbox config db).keeps_later (P := fun db => db.deliveries.row key = some row) reached
      stored ?_ later
    intro s e log ws before allowed commits _ kept
    rw [deliveries_kept s.db ?_]
    · exact kept
    · intro row' puts
      cases (record_new sole fresh before commits puts).symm.trans kept

end Runs

namespace Sample

def failing : Circumstances where
  sender _ _ := .refused 500 7 ['x']
  storage call := if call = .close claimed.id then some .refused else none

def unclosed : List (Slice Request) := prepared ++ whole 2 0 (.deliverDue 1 failing)

/-- The claim runs out, and the next pass records its attempt over that of the first one. -/
theorem record_overwritten : ∃ (s s' : Outbox) (key : DeliveryKey) (row row' : DeliveryRow),
    (outbox config).Reached anyStep s ∧ System.Reach (program config) anyStep s s' ∧
    s.db.deliveries.row key = some row ∧ s'.db.deliveries.row key = some row' ∧
    row.responseStatus ≠ row'.responseStatus := by
  have first : ((outbox config).after anyStep unclosed).db.deliveries.row ⟨0, 1, 1⟩ =
      some ⟨some 500, some ['x'], 7, 0⟩ := by decide +kernel
  have second : ((outbox config).after anyStep (unclosed ++
      whole 3 (seconds 301) (.deliverDue 1))).db.deliveries.row ⟨0, 1, 1⟩ =
      some ⟨some 200, none, 0, seconds 301⟩ := by decide +kernel
  exact ⟨_, _, _, _, _, (outbox config).after_reached anyStep unclosed,
    (outbox config).after_later anyStep unclosed _, first, second, by decide⟩

def freshStep (s : Outbox) (e : Event Request) : Prop := SoleClaims s e ∧ FreshClaims s e

instance (s : Outbox) (e : Event Request) : Decidable (freshStep s e) :=
  inferInstanceAs (Decidable (SoleClaims s e ∧ FreshClaims s e))

def recording : List (Slice Request) := prepared ++ [.start (.deliverDue 1), .work 2 0 12]

theorem records_kept_first : ((outbox config).after freshStep
    recording).db.deliveries.row ⟨0, 1, 1⟩ =
    none := by
  obtain ⟨log, ws, commits, puts⟩ := System.committing_any
    (s := (outbox config).after freshStep recording) (e := Event.run (Q := Request) 2)
    (p := fun c => decide (.putDelivery ⟨0, 1, 1⟩ ⟨some 200, none, 0, 0⟩ ∈ c.2)) (by decide +kernel)
  exact ((records_kept config {} (fun _ _ both => both.1) (fun _ _ both => both.2)
    ((outbox config).after_reached freshStep recording)).1 _ log ws _ _ commits
    (of_decide_eq_true puts)).1

end Sample
end CryptoGateway.Webhooks
