import CryptoGateway.Webhooks.Refinement

/-!
What a delivery pass does with the events it claimed: it attempts each merchant's in the order it
was handed them, and closes an event once, for a reason it remembers.
-/
namespace CryptoGateway.Webhooks
open Engine

namespace Watch

def merchant : Watch → Option (Option Id)
  | .claimed _ => none
  | .asOf merchantId => some (some merchantId)
  | .endpoints merchantId _ => some (some merchantId)
  | .signing event _ => some event.merchantId
  | .called call => some call.event.merchantId
  | .recording event _ => some event.merchantId
  | .ending event => some event.merchantId
  | .closing event => some event.merchantId
  | .stopped merchantId => some merchantId

def batch : Watch → List OutboxEvent
  | .claimed batch => batch
  | _ => []

def closed : Watch → Option OutboxEvent
  | .closing event => some event
  | _ => none

def recorded : Watch → Option (OutboxEvent × Id)
  | .recording event endpointId => some (event, endpointId)
  | _ => none

def call : Watch → Option Call
  | .called call => some call
  | _ => none

def stop : Watch → Option (Option Id)
  | .stopped merchantId => some merchantId
  | _ => none

end Watch

section Logs
variable (log : Log Db Watch)

def claimedEvents : List OutboxEvent := log.flatMap (·.1.batch)
def closings : List OutboxEvent := log.filterMap (·.1.closed)
def recordings : List (OutboxEvent × Id) := log.filterMap (·.1.recorded)
def calls : List Call := log.filterMap (·.1.call)
def stops : List (Option Id) := log.filterMap (·.1.stop)

def mine (merchant : Option Id) (t : Watch) : Bool := decide (t.merchant = some merchant)

def shareOf (merchant : Option Id) : Log Db Watch := Log.of (mine merchant) log

end Logs

def Loaded (log : Log Db Watch) (merchantId : Id) (endpoints : List WebhookEndpoint) : Prop :=
  ∃ (order : RowOrder Id) (asOf loading : Moment Db),
    [(Watch.endpoints merchantId asOf.now, loading), (Watch.asOf merchantId, asOf)].Sublist log ∧
    endpoints = loading.db.activeEndpoints order asOf.now merchantId

def Accepted (log : Log Db Watch) (event : OutboxEvent) : Prop :=
  ∃ merchantId endpoints, event.merchantId = some merchantId ∧ Loaded log merchantId endpoints ∧
    event.targets endpoints ≠ [] ∧ ∀ endpoint ∈ event.targets endpoints, ∃ call ∈ calls log,
      call.event = event ∧ call.endpoint = endpoint ∧ call.result.isAccepted = true

def Justified (config : Config) (log : Log Db Watch) (event : OutboxEvent) : Outcome → Prop
  | .delivered _ => Accepted log event
  | .rescheduled availableAt _ => event.used < config.maxAttempts ∧
      ∃ m, (Watch.ending event, m) ∈ log ∧ availableAt = m.now + backoffFor event.used
  | .deadLettered _ _ => True

structure Calls (config : Config) (queue : List OutboxEvent) (log : Log Db Watch) (call : Call) :
    Prop where
  turn : ∃ done rest, queue = done ++ call.event :: rest ∧ done ⊆ closings log
  unclosed : call.event ∉ closings log
  going : stops log = []
  signed : ∃ (merchantId : Id) (order : RowOrder Id) (asOf loading signing : Moment Db),
    call.event.merchantId = some merchantId ∧
    [(Watch.signing call.event call.endpoint.id, signing),
      (Watch.endpoints merchantId asOf.now, loading), (Watch.asOf merchantId, asOf)].Sublist log ∧
    call.endpoint ∈ loading.db.activeEndpoints order asOf.now merchantId ∧
    call.signedAt = signing.now
  signature : call.signature = signEventWithAll config.keys (call.endpoint.signing config)
    (unixTimestamp call.signedAt) (envelope call.event)

structure Pending (queue : List OutboxEvent) (log : Log Db Watch) (event : OutboxEvent) : Prop where
  listed : event ∈ queue
  unclosed : event ∉ closings log
  going : stops log = []

inductive ShareMove (config : Config) (merchant : Option Id) (queue : List OutboxEvent) :
    Option Watch → Log Db Watch → List Write → List Write → Prop where
  | plain {log : Log Db Watch} : ShareMove config merchant queue none log [] []
  | asOf {log : Log Db Watch} {id : Id} (own : merchant = some id) :
      ShareMove config merchant queue (some (.asOf id)) log [] []
  | endpoints {log : Log Db Watch} {id : Id} {at_ : Int} (own : merchant = some id) :
      ShareMove config merchant queue (some (.endpoints id at_)) log [] []
  | signing {log : Log Db Watch} {event : OutboxEvent} {endpointId : Id}
      (pending : Pending queue log event) :
      ShareMove config merchant queue (some (.signing event endpointId)) log [] []
  | called {log : Log Db Watch} {call : Call} (made : Calls config queue log call) :
      ShareMove config merchant queue (some (.called call)) log [] []
  | recording {log : Log Db Watch} {event : OutboxEvent} {endpointId : Id} {row : DeliveryRow}
      (pending : Pending queue log event) (first : (event, endpointId) ∉ recordings log) :
      ShareMove config merchant queue (some (.recording event endpointId)) log []
        [.putDelivery ⟨event.id, endpointId, event.attempts + 1⟩ row]
  | ending {log : Log Db Watch} {event : OutboxEvent} (pending : Pending queue log event) :
      ShareMove config merchant queue (some (.ending event)) log [] []
  | closing {log : Log Db Watch} {event : OutboxEvent} {outcome : Outcome}
      (pending : Pending queue log event) (justified : Justified config log event outcome) :
      ShareMove config merchant queue (some (.closing event)) log [] [.close event.id outcome]
  | missing {log : Log Db Watch} {event : OutboxEvent} (pending : Pending queue log event) :
      ShareMove config merchant queue (some (.closing event)) log [] []
  | stopped {log : Log Db Watch} : ShareMove config merchant queue
    (some (.stopped merchant)) log [] []

inductive ShareCommit (config : Config) (queue : List OutboxEvent) :
    Log Db Watch → List Write → Prop where
  | idle {log : Log Db Watch} : ShareCommit config queue log []
  | record {log : Log Db Watch} {event : OutboxEvent} {endpointId : Id} {row : DeliveryRow}
      (pending : Pending queue log event) (recorded : (event, endpointId) ∈ recordings log) :
      ShareCommit config queue log [.putDelivery ⟨event.id, endpointId, event.attempts + 1⟩ row]
  | close {log : Log Db Watch} {event : OutboxEvent} {outcome : Outcome} (listed : event ∈ queue)
      (closed : event ∈ closings log) (going : stops log = [])
      (justified : Justified config log event outcome) :
      ShareCommit config queue log [.close event.id outcome]

def Write.ofPass : Write → Bool
  | .claim _ _ => true
  | .close _ _ => true
  | .putDelivery _ _ => true
  | _ => false

inductive Move (config : Config) : Option Watch → Log Db Watch → List Write →
    List Write → Prop where
  | aside {log : Log Db Watch} {ws new : List Write} (other : ∀ w ∈ ws ++ new, w.ofPass = false) :
      Move config none log ws new
  | claim {call : ClaimCall} {batch : List OutboxEvent} :
      Move config none [] [] (batch.map (.claim · call))
  | claimed {call : ClaimCall} {batch : List OutboxEvent} :
      Move config (some (.claimed batch)) [] (batch.map (.claim · call)) []
  | share {tag : Option Watch} {log : Log Db Watch} {ws new : List Write} (merchant : Option Id)
      (move : ShareMove config merchant
        ((claimedEvents log).filter fun e => e.merchantId = merchant) tag (shareOf log merchant) ws
        new) : Move config tag log ws new

inductive Commit (config : Config) : Log Db Watch → List Write → Prop where
  | aside {log : Log Db Watch} {ws : List Write} (other : ∀ w ∈ ws, w.ofPass = false) :
      Commit config log ws
  | claim {call : ClaimCall} {batch : List OutboxEvent} {m : Moment Db} :
      Commit config [(.claimed batch, m)] (batch.map (.claim · call))
  | share {log : Log Db Watch} {ws : List Write} (merchant : Option Id)
      (commit : ShareCommit config ((claimedEvents log).filter fun e => e.merchantId = merchant)
        (shareOf log merchant) ws) : Commit config log ws

section Endpoints

theorem activeEndpoints_ids {db : Db} {order : RowOrder Id} {at_ : Int} {merchantId : Id} :
    ((db.activeEndpoints order at_ merchantId).map (·.id)).Nodup := by
  unfold Db.activeEndpoints
  rw [List.map_map]
  refine ((List.perm_insertionSort _ _).trans (List.perm_insertionSort _ _)).map
    _ |>.nodup_iff.mpr ?_
  have keys : (db.endpoints.entries.map (·.1)).Nodup := by
    rw [Table.keys_entries]
    exact db.endpoints.nodup
  exact (List.filter_sublist.map _).nodup keys

theorem targets_sublist (event : OutboxEvent) (endpoints : List WebhookEndpoint) :
    (event.targets endpoints).Sublist endpoints := by
  unfold OutboxEvent.targets
  split
  · exact List.filter_sublist
  · exact List.Sublist.refl _

end Endpoints

section Share
variable {config : Config} {circ : Circumstances} {merchant : Option Id} {queue : List OutboxEvent}

/-- The share is at `event`: it has closed what was before it, and recorded for it an
    attempt at each endpoint of `seen`. -/
structure Working (queue done : List OutboxEvent) (event : OutboxEvent) (seen : List Id)
    (log : Log Db Watch) : Prop where
  split : ∃ rest, queue = done ++ event :: rest
  closed : closings log = done.reverse
  recorded : ∀ e endpointId, (e, endpointId) ∈ recordings log →
    e ∈ done ∨ e = event ∧ endpointId ∈ seen
  going : stops log = []

/-- The share is between two events: it has closed `done`. -/
structure Resting (done : List OutboxEvent) (log : Log Db Watch) : Prop where
  closed : closings log = done.reverse
  recorded : ∀ e endpointId, (e, endpointId) ∈ recordings log → e ∈ done
  going : stops log = []

variable {done : List OutboxEvent} {event : OutboxEvent} {seen : List Id} {log : Log Db Watch}

theorem Working.pending (distinct : queue.Nodup) (working : Working queue done event seen log) :
    Pending queue log event := by
  obtain ⟨rest, split⟩ := working.split
  refine ⟨by simp [split], ?_, working.going⟩
  rw [working.closed, List.mem_reverse]
  rw [split] at distinct
  exact fun mem => (List.disjoint_of_nodup_append distinct) mem List.mem_cons_self

theorem Working.note (working : Working queue done event seen log) {tag : Watch} (m : Moment Db)
    (closed : tag.closed = none) (recorded : tag.recorded = none) (stop : tag.stop = none) :
    Working queue done event seen ((tag, m) :: log) where
  split := working.split
  closed := by simpa [closings, closed] using working.closed
  recorded := by simpa [recordings, recorded] using working.recorded
  going := by simpa [stops, stop] using working.going

theorem Working.record (working : Working queue done event seen log) (endpointId : Id)
    (m : Moment Db) :
    Working queue done event (endpointId :: seen) ((.recording event endpointId, m) :: log) where
  split := working.split
  closed := working.closed
  recorded := by
    intro e id mem
    rcases List.mem_cons.mp mem with same | old
    · cases same
      exact .inr ⟨rfl, List.mem_cons_self⟩
    · exact (working.recorded e id old).imp_right fun own => ⟨own.1, List.mem_cons_of_mem _ own.2⟩
  going := working.going

theorem Working.close (working : Working queue done event seen log) (m : Moment Db) :
    Resting (done ++ [event]) ((.closing event, m) :: log) where
  closed := by
    have closed : closings ((.closing event, m) :: log) = event :: closings log := rfl
    rw [closed, working.closed, List.reverse_append]
    rfl
  recorded := by
    intro e id mem
    rcases working.recorded e id mem with old | ⟨rfl, _⟩
    · exact List.mem_append_left _ old
    · simp
  going := working.going

theorem Resting.start (resting : Resting done log) (split : ∃ rest, queue = done ++ event :: rest) :
    Working queue done event [] log :=
  ⟨split, resting.closed, fun e id mem => .inl (resting.recorded e id mem), resting.going⟩

theorem Loaded.grows {log' : Log Db Watch} {merchantId : Id} {endpoints : List WebhookEndpoint}
    (loaded : Loaded log merchantId endpoints) (suffix : log <:+ log') :
    Loaded log' merchantId endpoints := by
  obtain ⟨order, asOf, loading, sub, eq⟩ := loaded
  exact ⟨order, asOf, loading, sub.trans suffix.sublist, eq⟩

theorem calls_grow {log' : Log Db Watch} (suffix : log <:+ log') : calls log ⊆ calls log' :=
  fun _ mem => (suffix.sublist.filterMap _).subset mem

section Acts
variable {α : Type} {Q : α → Log Db Watch → List Write → Prop} {ws : List Write}

theorem now_acts {E : OutboxError → Log Db Watch → List Write → Prop} {f : Int → Job OutboxError α}
    (rest : ∀ at_, (f at_).Acts (ShareMove config merchant queue) (ShareCommit config queue) Q E
      log []) :
    (now >>= f).Acts (ShareMove config merchant queue) (ShareCommit config queue) Q E log [] :=
  ⟨.plain, fun m => rest m.now⟩

theorem call_acts {M : Option Watch → Log Db Watch → List Write → List Write → Prop}
    {C E : Log Db Watch → List Write → Prop} (call : StorageCall) {job : Job RepositoryError α}
    (acts : job.Acts M C Q (fun _ log ws => E log ws) log ws) (before : E log ws)
    (after : ∀ a log ws, Q a log ws → E log ws) :
    (circ.call call job).Acts M C Q (fun _ log ws => E log ws) log ws := by
  unfold Circumstances.call
  split
  · exact acts.mapError fun _ _ _ => id
  · exact before
  · exact Proc.Acts.bind (acts.mapError fun _ _ _ => id) after

theorem closeEvent_acts (distinct : queue.Nodup) (working : Working queue done event seen log)
    {outcome : Outcome} (justified : Justified config log event outcome) :
    (closeEvent event outcome).Acts (ShareMove config merchant queue) (ShareCommit config queue)
      (fun _ log' ws => ws = [] ∧ Resting (done ++ [event]) log' ∧ log <:+ log')
      (fun _ _ ws => ws = []) log [] := by
  have pending := working.pending distinct
  intro m db grant
  simp only
  split
  · refine ⟨.closing pending justified, ?_, rfl, working.close m, List.suffix_cons _ _⟩
    refine .close pending.listed List.mem_cons_self pending.going ?_
    cases outcome with
    | delivered at_ =>
      obtain ⟨merchantId, endpoints, owner, loaded, nonempty, all⟩ := justified
      exact ⟨merchantId, endpoints, owner, loaded.grows (List.suffix_cons _ _), nonempty, all⟩
    | rescheduled availableAt error =>
      obtain ⟨left, moment, mem, eq⟩ := justified
      exact ⟨left, moment, List.mem_cons_of_mem _ mem, eq⟩
    | deadLettered at_ error => trivial
  · exact ⟨.missing pending, .idle, rfl, working.close m, List.suffix_cons _ _⟩

theorem close_acts (distinct : queue.Nodup) (working : Working queue done event seen log)
    {outcome : Outcome} (justified : Justified config log event outcome) :
    (close circ event (closeEvent event outcome)).Acts (ShareMove config merchant queue)
      (ShareCommit config queue)
      (fun _ log' ws => ws = [] ∧ Resting (done ++ [event]) log' ∧ log <:+ log')
      (fun _ _ ws => ws = []) log [] :=
  call_acts _ (closeEvent_acts distinct working justified) rfl fun _ _ _ ended => ended.1

theorem deadLetter_acts (distinct : queue.Nodup) (working : Working queue done event seen log)
    (error : DeliveryError) (at_ : Int) :
    (close circ event (deadLetter event error at_)).Acts (ShareMove config merchant queue)
      (ShareCommit config queue)
      (fun _ log' ws => ws = [] ∧ Resting (done ++ [event]) log' ∧ log <:+ log')
      (fun _ _ ws => ws = []) log [] := close_acts distinct working trivial

theorem recordResult_acts (distinct : queue.Nodup) (working : Working queue done event seen log)
    {attempt : DeliveryAttempt} (about : attempt.eventId = event.id)
    (number : attempt.attempt = event.attempts + 1) (first : attempt.endpointId ∉ seen) :
    (recordResult circ event attempt).Acts (ShareMove config merchant queue)
      (ShareCommit config queue)
      (fun _ log' ws => ws = [] ∧ Working queue done event (attempt.endpointId :: seen) log' ∧
        log <:+ log') (fun _ _ ws => ws = []) log [] := by
  have pending := working.pending distinct
  have unclosed : event ∉ done := by
    have := pending.unclosed
    rwa [working.closed, List.mem_reverse] at this
  refine now_acts fun at_ => call_acts _ ?_ rfl fun _ _ _ ended => ended.1
  intro m db grant
  simp only [about, number]
  refine ⟨.recording pending fun mem => ?_, ?_, rfl, working.record _ m, List.suffix_cons _ _⟩
  · rcases working.recorded _ _ mem with old | own
    · exact unclosed old
    · exact first own.2
  · exact .record ⟨pending.listed, pending.unclosed, pending.going⟩ List.mem_cons_self

def AcceptedAt (log : Log Db Watch) (event : OutboxEvent) (endpoint : WebhookEndpoint) : Prop :=
  ∃ call ∈ calls log, call.event = event ∧ call.endpoint = endpoint ∧ call.result.isAccepted = true

theorem AcceptedAt.grows {log' : Log Db Watch} {endpoint : WebhookEndpoint}
    (accepted : AcceptedAt log event endpoint) (suffix : log <:+ log') :
    AcceptedAt log' event endpoint := by
  obtain ⟨call, mem, facts⟩ := accepted
  exact ⟨call, calls_grow suffix mem, facts⟩

theorem attempt_about (result : DeliveryResult) (event : OutboxEvent) (endpointId : Id) :
    (result.attempt event endpointId).eventId = event.id ∧
      (result.attempt event endpointId).endpointId = endpointId ∧
      (result.attempt event endpointId).attempt = event.attempts + 1 := by
  cases result <;> exact ⟨rfl, rfl, rfl⟩

variable {endpoints : List WebhookEndpoint}

theorem deliverTo_acts (distinct : queue.Nodup) (working : Working queue done event seen log)
    {merchantId : Id} {endpoint : WebhookEndpoint}
    (owner : event.merchantId = some merchantId) (loaded : Loaded log merchantId endpoints)
    (listed : endpoint ∈ endpoints) (first : endpoint.id ∉ seen) :
    (deliverTo config circ event endpoint).Acts (ShareMove config merchant queue)
      (ShareCommit config queue)
      (fun ok log' ws => (ws = [] ∧ Working queue done event (endpoint.id :: seen) log' ∧
        log <:+ log') ∧ (ok = true → AcceptedAt log' event endpoint))
      (fun _ _ ws => ws = []) log [] := by
  unfold deliverTo
  split
  · refine Proc.Acts.bind (recordResult_acts distinct working rfl rfl first) ?_
    rintro _ log' _ recorded
    exact ⟨recorded, by simp⟩
  have pending := working.pending distinct
  refine ⟨.signing pending, fun signing => ?_⟩
  obtain ⟨order, asOf, loading, sub, eq⟩ := loaded
  let call : Call := ⟨event, endpoint, signing.now, signEventWithAll config.keys
    (endpoint.signing config) (unixTimestamp signing.now) (envelope event),
    circ.sender event.id endpoint.id⟩
  have signed : Working queue done event seen ((.signing event endpoint.id, signing) :: log) :=
    working.note signing rfl rfl rfl
  have made : Calls config queue ((.signing event endpoint.id, signing) :: log) call := by
    obtain ⟨rest, split⟩ := working.split
    refine ⟨⟨done, rest, split, ?_⟩, pending.unclosed, pending.going, ?_, rfl⟩
    · intro e mem
      exact (congrArg (e ∈ ·) signed.closed).mpr (List.mem_reverse.mpr mem)
    · refine ⟨merchantId, order, asOf, loading, signing, owner, sub.cons_cons _, ?_, rfl⟩
      rw [← eq]
      exact listed
  refine ⟨.called made, fun m => ?_⟩
  have told : Working queue done event seen
      ((.called call, m) :: (.signing event endpoint.id, signing) :: log) :=
    signed.note m rfl rfl rfl
  obtain ⟨about, place, number⟩ := attempt_about (circ.sender event.id endpoint.id)
    event endpoint.id
  refine Proc.Acts.bind (p := recordResult circ event _)
    (recordResult_acts distinct told about number (by rw [place]; exact first)) ?_
  rw [place]
  rintro _ log' _ ⟨clean, working', suffix⟩
  refine ⟨⟨clean, working', .trans ?_ suffix⟩, fun ok => ?_⟩
  · exact (List.suffix_cons _ _).trans (List.suffix_cons _ _)
  · exact ⟨call, calls_grow suffix List.mem_cons_self, rfl, rfl, ok⟩

theorem deliverToAll_acts (distinct : queue.Nodup) (working : Working queue done event seen log)
    {merchantId : Id} {targets : List WebhookEndpoint}
    (owner : event.merchantId = some merchantId) (loaded : Loaded log merchantId endpoints)
    (listed : targets ⊆ endpoints) (fresh : (targets.map (·.id)).Nodup)
    (first : ∀ endpoint ∈ targets, endpoint.id ∉ seen) :
    (deliverToAll config circ event targets).Acts (ShareMove config merchant queue)
      (ShareCommit config queue)
      (fun ok log' ws => (ws = [] ∧ (∃ seen', Working queue done event seen' log') ∧
        log <:+ log') ∧ (ok = true → ∀ endpoint ∈ targets, AcceptedAt log' event endpoint))
      (fun _ _ ws => ws = []) log [] := by
  induction targets generalizing seen log with
  | nil => exact ⟨⟨rfl, ⟨seen, working⟩, List.suffix_refl _⟩, by simp⟩
  | cons endpoint rest ih =>
    rw [List.map_cons, List.nodup_cons] at fresh
    refine Proc.Acts.bind (deliverTo_acts distinct working owner loaded (listed List.mem_cons_self)
      (first endpoint List.mem_cons_self)) ?_
    rintro ok log' _ ⟨⟨rfl, working', suffix⟩, accepted⟩
    refine Proc.Acts.bind (ih working' (loaded.grows suffix)
      (fun e mem => listed (List.mem_cons_of_mem _ mem)) fresh.2 fun e mem => ?_) ?_
    · rw [List.mem_cons, not_or]
      refine ⟨fun same => fresh.1 ?_, first e (List.mem_cons_of_mem _ mem)⟩
      exact List.mem_map.mpr ⟨e, mem, same⟩
    · rintro others log'' _ ⟨⟨clean, ended, suffix'⟩, accepted'⟩
      refine ⟨⟨clean, ended, suffix.trans suffix'⟩, fun both e mem => ?_⟩
      rw [Bool.and_eq_true] at both
      rcases List.mem_cons.mp mem with rfl | behind
      · exact (accepted both.1).grows suffix'
      · exact accepted' both.2 e behind

abbrev Turned (done : List OutboxEvent) (event : OutboxEvent) (log : Log Db Watch)
    (report : OutboxReport) (log' : Log Db Watch) (ws : List Write) : Prop :=
  (ws = [] ∧ Resting (done ++ [event]) log' ∧ log <:+ log') ∧ report.claimed = 1

theorem retryLater_acts (distinct : queue.Nodup) (working : Working queue done event seen log) :
    (retryLater config circ event).Acts (ShareMove config merchant queue) (ShareCommit config queue)
      (Turned done event log) (fun _ _ ws => ws = []) log [] := by
  refine ⟨.ending (working.pending distinct), fun m => ?_⟩
  have noted : Working queue done event seen ((.ending event, m) :: log) :=
    working.note m rfl rfl rfl
  have suffix : log <:+ (.ending event, m) :: log := List.suffix_cons _ _
  change Proc.Acts _ _ _ _ _ _ (if config.maxAttempts ≤ event.used then _ else _)
  split
  · refine Proc.Acts.bind (close_acts distinct noted trivial) ?_
    rintro _ log' _ ⟨clean, rests, more⟩
    exact ⟨⟨clean, rests, suffix.trans more⟩, rfl⟩
  · rename_i left
    refine Proc.Acts.bind (close_acts distinct noted
      ⟨Nat.lt_of_not_le left, m, List.mem_cons_self, rfl⟩) ?_
    rintro _ log' _ ⟨clean, rests, more⟩
    exact ⟨⟨clean, rests, suffix.trans more⟩, rfl⟩

theorem deliverEvent_acts (distinct : queue.Nodup) (working : Working queue done event [] log)
    {merchantId : Id} (owner : event.merchantId = some merchantId)
    (loaded : Loaded log merchantId endpoints) :
    (deliverEvent config circ endpoints event).Acts (ShareMove config merchant queue)
      (ShareCommit config queue) (Turned done event log) (fun _ _ ws => ws = []) log [] := by
  have ids : ((event.targets endpoints).map (·.id)).Nodup := by
    obtain ⟨order, asOf, loading, _, rfl⟩ := loaded
    exact ((targets_sublist _ _).map _).nodup activeEndpoints_ids
  unfold deliverEvent
  split
  · refine now_acts fun at_ => Proc.Acts.bind (deadLetter_acts distinct working _ at_) ?_
    rintro _ log' _ turned
    exact ⟨turned, rfl⟩
  rename_i nonempty
  refine Proc.Acts.bind (deliverToAll_acts distinct working owner loaded
    (targets_sublist _ _).subset ids (by simp)) ?_
  rintro all log' _ ⟨⟨rfl, ⟨seen, working'⟩, suffix⟩, accepted⟩
  split
  · rename_i every
    have justified : Accepted log' event :=
      ⟨merchantId, endpoints, owner, loaded.grows suffix, nonempty, accepted every⟩
    refine now_acts fun at_ => Proc.Acts.bind (p := close circ event (markDelivered event at_))
      (close_acts distinct working' justified) ?_
    rintro _ log'' _ ⟨clean, rests, more⟩
    exact ⟨⟨clean, rests, suffix.trans more⟩, rfl⟩
  · refine (retryLater_acts distinct working').mono (fun _ _ _ _ => id) (fun _ _ => id) ?_
      fun _ _ _ => id
    rintro _ log'' _ ⟨⟨clean, rests, more⟩, one⟩
    exact ⟨⟨clean, rests, suffix.trans more⟩, one⟩

theorem deliverEach_acts {turn : OutboxEvent → Job OutboxError OutboxReport}
    {J : Log Db Watch → Prop}
    (kept : ∀ {log log'}, J log → log <:+ log' → J log')
    (each : ∀ done event log, (∃ rest, queue = done ++ event :: rest) → Resting done log → J log →
      (turn event).Acts (ShareMove config merchant queue) (ShareCommit config queue)
        (Turned done event log) (fun _ _ ws => ws = []) log [])
    {rest : List OutboxEvent} (split : queue = done ++ rest) (resting : Resting done log)
    (holds : J log) :
    (deliverEach turn rest).Acts (ShareMove config merchant queue) (ShareCommit config queue)
      (fun report _ ws => ws = [] ∧ report.claimed = rest.length)
      (fun _ _ ws => ws = []) log [] := by
  induction rest generalizing done log with
  | nil => exact ⟨rfl, rfl⟩
  | cons event rest ih =>
    refine Proc.Acts.bind (each done event log ⟨rest, split⟩ resting holds) ?_
    rintro part log' _ ⟨⟨rfl, rests, suffix⟩, one⟩
    refine Proc.Acts.bind (ih (by simp [split]) rests (kept holds suffix)) ?_
    rintro others _ _ ⟨rfl, count⟩
    refine ⟨rfl, ?_⟩
    simp only [OutboxReport.absorb, List.length_cons]
    omega

theorem activeEndpoints_acts {merchantId : Id} (order : RowOrder Id)
    (own : merchant = some merchantId)
    (resting : Resting [] log) :
    (activeEndpoints order merchantId).Acts (ShareMove config merchant queue)
      (ShareCommit config queue)
      (fun endpoints log' ws => ws = [] ∧ Resting [] log' ∧ Loaded log' merchantId endpoints)
      (fun _ _ ws => ws = []) log [] := by
  refine ⟨.asOf own, fun asOf => ⟨.endpoints own, fun loading => ⟨rfl, ?_, ?_⟩⟩⟩
  · exact ⟨resting.closed, resting.recorded, resting.going⟩
  · exact ⟨order, asOf, loading, .cons_cons _ (.cons_cons _ (List.nil_sublist _)), rfl⟩

theorem deliverMerchant_acts (distinct : queue.Nodup)
    (owned : ∀ event ∈ queue, event.merchantId = merchant) :
    (deliverMerchant config circ merchant queue).Task (ShareMove config merchant queue)
      (ShareCommit config queue) (fun result => ∀ report, result = .ok report →
        report.claimed = queue.length) [] [] := by
  have resting : Resting [] ([] : Log Db Watch) := ⟨rfl, by simp [recordings], rfl⟩
  have mine : ∀ {done event}, (∃ rest, queue = done ++ event :: rest) →
      event.merchantId = merchant := by
    rintro done event ⟨rest, split⟩
    exact owned event (by simp [split])
  refine Proc.Acts.handle (E := fun _ _ ws => ws = []) ?_ ?_
  · unfold deliverShare
    split
    · refine (deliverEach_acts (J := fun _ => True) (fun _ _ => trivial) ?_ rfl
        resting trivial).mono
        (fun _ _ _ _ => id) (fun _ _ => id) ?_ fun _ _ _ => id
      · intro done event log split rests _
        refine now_acts fun at_ => Proc.Acts.bind
          (deadLetter_acts distinct (rests.start split) _ at_) ?_
        rintro _ log' _ turned
        exact ⟨turned, rfl⟩
      · rintro report _ _ ⟨clean, count⟩
        refine ⟨clean, ?_⟩
        rintro _ ⟨⟩
        exact count
    · rename_i merchantId
      refine Proc.Acts.bind (call_acts _ (activeEndpoints_acts circ.order rfl resting) rfl
        fun _ _ _ ended => ended.1) ?_
      rintro endpoints log _ ⟨rfl, rests, loaded⟩
      refine (deliverEach_acts (J := (Loaded · merchantId endpoints)) Loaded.grows ?_ rfl rests
        loaded).mono (fun _ _ _ _ => id) (fun _ _ => id) ?_ fun _ _ _ => id
      · intro done event log split rests loaded
        exact deliverEvent_acts distinct (rests.start split) (mine split) loaded
      · rintro report _ _ ⟨clean, count⟩
        refine ⟨clean, ?_⟩
        rintro _ ⟨⟩
        exact count
  · rintro error log _ rfl
    exact ⟨.stopped, fun m => ⟨rfl, by simp⟩⟩

end Acts
end Share

end CryptoGateway.Webhooks
