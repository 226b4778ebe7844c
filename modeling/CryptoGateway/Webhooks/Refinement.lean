import CryptoGateway.Webhooks.Contract

/-!
Every request keeps the contract: whatever else is committed meanwhile, each commit
has one of the permitted effects.
-/
namespace CryptoGateway.Webhooks
open Engine

section Claims

theorem mem_dueEvents {db : Db} {now : Int} {id : Id} {row : EventRow} :
    (id, row) ∈ db.dueEvents now ↔ db.events.row id = some row ∧ row.dueAt now = true := by
  simp [Db.dueEvents, Table.mem_entries]

theorem dueEvents_keys (db : Db) (now : Int) {a b : Id × EventRow} (inA : a ∈ db.dueEvents now)
    (inB : b ∈ db.dueEvents now) (same : a.1 = b.1) : a = b := by
  obtain ⟨i, r⟩ := a
  obtain ⟨j, q⟩ := b
  cases same
  have first := (mem_dueEvents.mp inA).1
  have second := (mem_dueEvents.mp inB).1
  cases first.symm.trans second
  rfl

theorem queuedBefore_iff {a b : Id × EventRow} : queuedBefore a b = true ↔
    a.2.availableAt < b.2.availableAt ∨ a.2.availableAt = b.2.availableAt ∧ a.1 < b.1 := by
  simp [queuedBefore]

theorem queue_lined (db : Db) (now : Int) : Lined queuedBefore (db.dueEvents now) where
  trans := by
    intro a b c first second
    rw [queuedBefore_iff] at first second ⊢
    rcases first with early | ⟨same, ids⟩
    · rcases second with early' | ⟨same', _⟩
      · exact .inl (early.trans early')
      · exact .inl (same' ▸ early)
    · rcases second with early' | ⟨same', ids'⟩
      · exact .inl (same ▸ early')
      · exact .inr ⟨same.trans same', ids.trans ids'⟩
  total := by
    intro a b inA inB other
    have ids : a.1 ≠ b.1 := fun same => other (dueEvents_keys db now inA inB same)
    rw [queuedBefore_iff, queuedBefore_iff]
    rcases lt_trichotomy a.2.availableAt b.2.availableAt with early | same | late
    · exact .inl (.inl early)
    · rcases lt_or_gt_of_ne ids with less | more
      · exact .inl (.inr ⟨same, less⟩)
      · exact .inr (.inr ⟨same.symm, more⟩)
    · exact .inr (.inl late)

def picked (call : ClaimCall) (seen newest : Db) (grant : Lock Row → Bool) : List (Id × EventRow) :=
  ((seen.rankedEvents call).filter fun e => grant (.event e.1, .update) &&
    (newest.events.row e.1).any (·.dueAt call.now)).take call.limit

section
variable {call : ClaimCall} {seen newest : Db} {grant : Lock Row → Bool} {order : RowOrder Id}

theorem picked_sublist : (picked call seen newest grant).Sublist (seen.rankedEvents call) :=
  (List.take_sublist _ _).trans List.filter_sublist

theorem rankedEvents_perm : (seen.rankedEvents call).Perm ((seen.dueEvents call.now).filter fun e =>
    decide (seen.position call.now e ≤ call.perMerchantLimit)) := List.perm_insertionSort _ _

theorem picked_nodup : (picked call seen newest grant).Nodup :=
  picked_sublist.nodup (rankedEvents_perm.nodup_iff.mpr
    ((seen.events.entries_nodup.filter _).filter _))

theorem mem_picked {e : Id × EventRow} (mem : e ∈ picked call seen newest grant) :
    (e ∈ seen.dueEvents call.now ∧ seen.position call.now e ≤ call.perMerchantLimit) ∧
      ∃ row, newest.events.row e.1 = some row ∧ row.dueAt call.now = true := by
  have listed := List.mem_of_mem_take mem
  obtain ⟨inRank, fresh⟩ := List.mem_filter.mp listed
  have ranked := rankedEvents_perm.mem_iff.mp inRank
  simp only [List.mem_filter, decide_eq_true_eq] at ranked
  simp only [Bool.and_eq_true, Option.any_eq_true] at fresh
  exact ⟨ranked, fresh.2⟩

theorem picked_keys_nodup : ((picked call seen newest grant).map (·.1)).Nodup := by
  refine List.Nodup.map_on (fun a inA b inB same => ?_) picked_nodup
  exact dueEvents_keys seen call.now (mem_picked inA).1.1 (mem_picked inB).1.1 same

theorem claimDue_batch : (claimDue order call seen newest grant).value =
    (((picked call seen newest grant).map (·.1)).insertionSort fun a b => order a b).filterMap
      fun id => (newest.events.row id).map (·.toOutboxEvent id) := rfl

theorem mem_claimDue {event : OutboxEvent} : event ∈ (claimDue order call seen newest grant).value ↔
      ∃ row, newest.events.row event.id = some row ∧ event = row.toOutboxEvent event.id ∧
        event.id ∈ (picked call seen newest grant).map (·.1) := by
  simp only [claimDue_batch, List.mem_filterMap, (List.perm_insertionSort _ _).mem_iff,
    Option.map_eq_some_iff]
  constructor
  · rintro ⟨id, listed, row, stored, rfl⟩
    exact ⟨row, stored, rfl, listed⟩
  · rintro ⟨row, stored, eq, listed⟩
    exact ⟨event.id, listed, row, stored, eq.symm⟩

theorem claimDue_ids : ((claimDue order call seen newest grant).value.map (·.id)).Perm
    ((picked call seen newest grant).map (·.1)) := by
  have all : ∀ id ∈ (picked call seen newest grant).map (·.1), ∃ row, newest.events.row id =
    some row := by
    intro id mem
    obtain ⟨e, listed, rfl⟩ := List.mem_map.mp mem
    obtain ⟨row, stored, _⟩ := (mem_picked listed).2
    exact ⟨row, stored⟩
  rw [claimDue_batch, List.map_filterMap]
  refine List.Perm.trans (.of_eq ?_) (List.perm_insertionSort (fun a b => order a b = true) _)
  refine (List.filterMap_congr fun id mem => ?_).trans List.filterMap_some
  obtain ⟨row, stored⟩ := all id ((List.perm_insertionSort _ _).mem_iff.mp mem)
  simp [stored, EventRow.toOutboxEvent]

theorem picked_fair (merchants : ∀ id row row', seen.events.row id = some row →
      newest.events.row id = some row' → row'.merchantId = row.merchantId) (merchant : Option Id) :
    ((claimDue order call seen newest grant).value.filter fun e =>
      e.merchantId = merchant).length ≤ call.perMerchantLimit := by
  let share := (picked call seen newest grant).filter fun e => e.2.merchantId = merchant
  let due := (seen.dueEvents call.now).filter fun e => e.2.merchantId = merchant
  -- what is picked of one merchant has few enough of that merchant's due events before it
  have lined : Lined queuedBefore due :=
    (queue_lined seen call.now).subset fun _ mem => (List.mem_filter.mp mem).1
  have bound : share.length ≤ call.perMerchantLimit := by
    refine lined.length_le_of_rank (picked_nodup.filter _) (fun e mem => ?_) fun e mem => ?_
    · obtain ⟨listed, mine⟩ := List.mem_filter.mp mem
      exact List.mem_filter.mpr ⟨(mem_picked listed).1.1, mine⟩
    · obtain ⟨listed, mine⟩ := List.mem_filter.mp mem
      have rank := (mem_picked listed).1.2
      simp only [decide_eq_true_eq] at mine
      have before : (due.filter (queuedBefore · e)).length =
          ((seen.dueEvents call.now).filter fun other =>
            decide (other.2.merchantId = e.2.merchantId) && queuedBefore other e).length := by
        rw [List.filter_filter, mine]
        congr 2
        funext other
        rw [Bool.and_comm]
      rw [before]
      unfold Db.position at rank
      omega
  refine le_trans ?_ bound
  have distinct : (((claimDue order call seen newest grant).value.filter fun e =>
      e.merchantId = merchant).map (·.id)).Nodup :=
    (List.filter_sublist.map _).nodup (claimDue_ids.nodup_iff.mpr picked_keys_nodup)
  have sub : ((claimDue order call seen newest grant).value.filter fun e =>
      e.merchantId = merchant).map (·.id) ⊆ share.map (·.1) := by
    intro id mem
    obtain ⟨event, listed, rfl⟩ := List.mem_map.mp mem
    obtain ⟨inBatch, mine⟩ := List.mem_filter.mp listed
    obtain ⟨row, stored, eq, key⟩ := mem_claimDue.mp inBatch
    obtain ⟨e, inPicked, same⟩ := List.mem_map.mp key
    have old := (mem_dueEvents.mp (mem_picked inPicked).1.1).1
    rw [same] at old
    have owner := merchants _ _ _ old stored
    refine List.mem_map.mpr ⟨e, List.mem_filter.mpr ⟨inPicked, ?_⟩, same⟩
    simp only [decide_eq_true_eq] at mine ⊢
    rw [← mine, eq]
    exact owner.symm
  have fewer := (List.subperm_of_subset distinct sub).length_le
  simpa using fewer

theorem claimDue_hands (merchants : ∀ id row row', seen.events.row id = some row →
      newest.events.row id = some row' → row'.merchantId = row.merchantId) :
    newest.Hands call (claimDue order call seen newest grant).value where
  distinct := claimDue_ids.nodup_iff.mpr picked_keys_nodup
  bounded := by
    have ids : ((claimDue order call seen newest grant).value.map (·.id)).Perm _ := claimDue_ids
    have count := ids.length_eq
    rw [List.length_map, List.length_map] at count
    rw [count]
    exact List.length_take_le _ _
  fair := picked_fair merchants
  due := by
    intro event mem
    obtain ⟨row, stored, eq, key⟩ := mem_claimDue.mp mem
    obtain ⟨e, inPicked, same⟩ := List.mem_map.mp key
    obtain ⟨row', stored', due⟩ := (mem_picked inPicked).2
    rw [same] at stored'
    cases stored.symm.trans stored'
    exact ⟨row, stored, due, eq⟩

end
end Claims

section Storage
variable {config : Config} {ε : Type}

theorem merchant_persists (id : Id) :
    Persists fun db : Db => (db.events.row id).map (·.merchantId) := by
  intro w db merchant now
  obtain ⟨row, stored, rfl⟩ := Option.map_eq_some_iff.mp now
  simp only [events_apply, stored]
  cases w <;> simp only [Write.onEvent, Option.map_some] <;> split <;>
    simp [EventRow.claim, EventRow.close, EventRow.requeue]
  rename_i outcome _
  cases outcome <;> rfl

theorem later_merchants {held : List (Lock Row)} {seen newest : Db}
    (later : Later (contract config) held seen newest) (id : Id) (row row' : EventRow)
    (old : seen.events.row id = some row) (new : newest.events.row id = some row') :
    row'.merchantId = row.merchantId := by
  have kept := ((merchant_persists id).stable held row.merchantId).later later (by simp [old])
  simpa [new] using kept

theorem claimDueEvents_refines (order : RowOrder Id) (call : ClaimCall) :
    Refines config (claimDueEvents order call) := by
  intro log db
  unfold claimDueEvents
  split
  · exact between log db
  rename_i visible
  rw [Refining, wp_bind]
  refine wp_execute stable_true trivial fun m newest grant _ later reply executed => ?_
  have hands : newest.Hands call reply.value := by
    rw [executed]
    exact claimDue_hands (later_merchants later)
  have wrote : reply.writes = reply.value.map (.claim · call) := by rw [executed]; rfl
  have locks : reply.locks = reply.value.map fun event => (Row.event event.id, Mode.update) := by
    rw [executed]; rfl
  -- the claimed rows are locked, so they are at commit what the statement found
  have stable : Steady config (required Db reply ++ []) fun db =>
      ∀ event ∈ reply.value, db.events.row event.id = newest.events.row event.id := by
    intro d d' moved known event mem
    refine event_stable _ (.inr ?_) moved (known event mem)
    refine List.mem_append_left _ (List.mem_append_left _ ?_)
    rw [locks]
    exact List.mem_map.mpr ⟨event, mem, rfl⟩
  rw [wp_bind]
  refine wp_watch stable (fun _ _ => rfl) fun m' known => ?_
  rw [wp_bind]
  refine wp_commits stable known (fun db known => ?_) fun db => between _ db
  rw [List.nil_append, wrote]
  refine .claim (by omega) ⟨hands.distinct, hands.bounded, hands.fair, fun event mem => ?_⟩
  rw [known event mem]
  exact hands.due event mem

theorem activeEndpoints_refines (order : RowOrder Id) (merchantId : Id) :
    Refines config (activeEndpoints order merchantId) := .bind (.watchedNow _) fun _ => .watch _ _

theorem recordAttempt_refines (event : OutboxEvent) (attempt : DeliveryAttempt) (now : Int) :
    Refines config (recordAttempt event attempt now) := by
  intro log db
  rw [Refining, recordAttempt, wp_bind]
  refine wp_execute stable_true trivial fun m newest grant _ _ reply executed => ?_
  subst executed
  exact wp_commits stable_true trivial (fun _ _ => .record) fun db => between _ db

theorem openEvent_eq_some {id : Id} {db : Db} {row : EventRow} :
    db.openEvent id = some row ↔ db.events.row id = some row ∧ row.isOpen = true := by
  simp [Db.openEvent, Option.filter_eq_some_iff]

theorem closeEvent_refines (event : OutboxEvent) (outcome : Outcome) :
    Refines config (closeEvent event outcome) := by
  intro log db
  rw [Refining, closeEvent, wp_bind]
  refine wp_execute stable_true trivial fun m newest grant _ _ reply executed => ?_
  split at executed
  · rename_i row _ found
    subst executed
    obtain ⟨stored, isOpen⟩ := openEvent_eq_some.mp found
    refine wp_commits (event_stable (some row)
      (.inl (by simp [required, Store.needs, Write.needs])))
      stored (fun db known => .close known isOpen) fun db => between _ db
  · subst executed
    exact wp_commits stable_true trivial (fun _ _ => .idle) fun db => between _ db

theorem publish_refines (channel : Channel) (merchantId : Option Id)
    (eventType aggregateType : Text)
    (aggregateId : Id) (payload : Text) :
    Refines config (publish channel merchantId eventType aggregateType aggregateId payload) := by
  refine .bind .now fun at_ => .bind .uuid fun id => .transaction fun log db => ?_
  rw [wp_bind]
  refine wp_execute stable_true trivial fun m newest grant _ _ reply executed => ?_
  split at executed
  · subst executed
    trivial
  · rename_i unused
    subst executed
    have absent : newest.events.row id = none := by simpa using unused
    simp only [Bool.false_eq_true, ↓reduceIte]
    rw [wp_bind]
    refine wp_commits (event_stable none (.inr (by simp [required, Store.needs, Write.needs])))
      absent (fun db known => .publish known ⟨rfl, rfl, rfl, rfl⟩) fun db => between _ db

theorem endedState_isOpen {row : EventRow} {state : EndedState}
    (ended : row.endedState = some state) : row.isOpen = false := by
  unfold EventRow.endedState at ended
  split at ended
  · rename_i delivered
    simp [EventRow.isOpen, Option.isNone_eq_false_iff.mpr delivered]
  · split at ended
    · rename_i dead
      simp [EventRow.isOpen, Option.isNone_eq_false_iff.mpr dead]
    · cases ended

theorem redeliverWebhookEvent_refines (principal : Principal) (key : Text)
    (request : WebhookRedelivery) (now : Int) :
    Refines config (redeliverWebhookEvent principal key request now) := by
  refine .transaction fun log db => ?_
  rw [wp_bind]
  refine wp_execute stable_true trivial fun m newest grant _ _ reply executed => ?_
  have written : reply.writes = [] := by rw [executed]
  rw [written]
  clear written
  rw [wp_bind]
  refine wp_select stable_true trivial fun db _ => ?_
  split
  · split
    · trivial
    · rw [wp_bind]
      exact wp_commits stable_true trivial (fun _ _ => .idle) fun db => between _ db
  rw [wp_bind]
  refine wp_execute stable_true trivial fun m newest grant _ _ reply executed => ?_
  unfold lockEvent at executed
  split at executed
  · rename_i event _ found
    subst executed
    simp only
    split
    · trivial
    rename_i webhook
    split
    · trivial
    · trivial
    rename_i merchantId state owned ended
    -- the event is locked from here to the commit
    have locked : ∀ {held : List (Lock Row)}, (Row.event request.eventId, Mode.update) ∈ held →
        Steady config held fun db => db.events.row request.eventId = some event :=
      fun mem => event_stable _ (.inr mem)
    rw [wp_bind]
    refine wp_select (locked (by simp [required])) found fun db known => ?_
    split
    · trivial
    unfold requeueEvent
    rw [wp_bind]
    refine wp_execute (locked (by simp [required])) known
      fun m newest grant known _ reply' executed' => ?_
    subst executed'
    rw [wp_bind]
    refine wp_uuid (locked (by simp [required])) known fun id db known => ?_
    simp only
    rw [wp_bind]
    refine wp_execute (locked (by simp [required])) known
      fun m newest grant known _ reply' executed' => ?_
    split at executed'
    · subst executed'
      trivial
    · subst executed'
      simp only [Bool.false_eq_true, ↓reduceIte]
      rw [wp_bind]
      refine wp_commits (locked (by simp [required])) known (fun db known => ?_)
        fun db => between _ db
      exact .redeliver known (endedState_isOpen ended) (by simpa using webhook) ⟨rfl, rfl⟩ owned
  · subst executed
    trivial

theorem redeliverWebhook_refines (actor : RedeliveryActor) (key : Text)
    (request : WebhookRedelivery) : Refines config (redeliverWebhook actor key request) := by
  unfold redeliverWebhook
  split
  · exact .fail _
  split
  · exact .fail _
  split
  · exact .fail _
  exact .bind .now fun at_ => redeliverWebhookEvent_refines _ key request at_

theorem requiredText_refines {α : Type} (value : Text) (message : String)
    {job : Job ProvisioningError α} (refines : Refines config job) :
    Refines config (requiredText value message job) := by
  unfold requiredText
  split
  · exact .fail _
  · exact refines

theorem addWebhookEndpoint_refines (actor : Text) (merchantId : Id) (url : Text) (active : Bool) :
    Refines config (addWebhookEndpoint config actor merchantId url active) := by
  refine requiredText_refines _ _ ?_
  split
  · exact .fail _
  refine .bind .uuid fun id => .bind .now fun at_ => .transaction fun log db => ?_
  split
  · trivial
  rw [wp_bind]
  refine wp_execute stable_true trivial fun m newest grant _ _ reply executed => ?_
  split at executed
  · subst executed
    trivial
  rename_i unused
  have absent : newest.endpoints.row id = none := by simpa using unused
  split at executed
  · subst executed
    trivial
  · subst executed
    simp only
    rw [wp_bind]
    exact wp_commits (endpoint_stable none (.inr (by simp [required, Store.needs, Write.needs])))
      absent (fun db known => .register known rfl rfl rfl) fun db => between _ db

theorem rotatable_eq_some {db : Db} {id : Id} {rotation : Rotation} {row : EndpointRow}
    (found : db.rotatable id rotation = some row) :
    db.endpoints.row id = some row ∧ row.secretVersion = rotation.fromVersion ∧
      row.active = true ∧ row.secretFingerprint = rotation.previousFingerprint := by
  simp only [Db.rotatable, Option.filter_eq_some_iff, Bool.and_eq_true, decide_eq_true_eq] at found
  exact ⟨found.1, found.2.1.1, found.2.1.2, found.2.2⟩

theorem owner_persists (id : Id) :
    Persists fun db : Db => (db.endpoints.row id).map (·.merchantId) := by
  intro w db merchant now
  obtain ⟨row, stored, rfl⟩ := Option.map_eq_some_iff.mp now
  simp only [endpoints_apply, stored]
  cases w <;> simp only [Write.onEndpoint, Option.map_some] <;> split <;>
    simp [EndpointRow.rotate]

theorem rotateWebhookSecret_refines (actor : Text) (endpointId : Id) (transition : Int)
    (reason : Text) : Refines config (rotateWebhookSecret config actor endpointId
      transition reason) := by
  refine requiredText_refines _ _ (requiredText_refines _ _ ?_)
  split
  · exact .fail _
  intro log db
  rw [Refining, wp_bind]
  refine wp_select stable_true trivial fun db _ => ?_
  split
  · exact between log db
  rename_i state found
  split
  · exact between log db
  have stored : db.endpoints.row endpointId = some state :=
    (Option.filter_eq_some_iff.mp found).1
  -- the merchant that the new secret was derived for stays the endpoint's
  have owner : Steady config [] fun db =>
      (db.endpoints.row endpointId).map (·.merchantId) = some state.merchantId :=
    (owner_persists endpointId).stable [] _
  simp only
  rw [wp_bind]
  refine wp_clock owner (by simp [stored]) fun m _ known => ?_
  change wp (contract config) (rotateStored endpointId _ >>= _) _ _ _
  rw [wp_bind, rotateStored]
  refine wp_transaction ?_ fun _ log db _ => between log db
  rw [wp_bind]
  refine wp_execute owner known fun m' newest grant known _ reply executed => ?_
  split at executed
  · rename_i row _ found
    subst executed
    obtain ⟨stored, version, active, fingerprint⟩ := rotatable_eq_some found
    have merchant : row.merchantId = state.merchantId := by
      rw [show newest.endpoints.row endpointId = some row from stored] at known
      simpa using known
    simp only [↓reduceIte]
    refine wp_commits (endpoint_stable (some row)
      (.inl (by simp [required, Store.needs, Write.needs])))
      stored (fun db known => .rotate ⟨known, active, version, fingerprint, rfl, ?_⟩)
      fun db => between _ db
    rw [merchant]
  · subst executed
    trivial

theorem disableWebhookEndpoint_refines (actor : Text) (endpointId : Id) (reason : Text) :
    Refines config (disableWebhookEndpoint actor endpointId reason) := by
  refine requiredText_refines _ _ (requiredText_refines _ _ (.transaction fun log db => ?_))
  rw [wp_bind]
  refine wp_execute stable_true trivial fun m newest grant _ _ reply executed => ?_
  split at executed
  · subst executed
    exact wp_commits stable_true trivial (fun _ _ => .disable) fun db => between _ db
  · subst executed
    trivial

end Storage

section Pass
variable {config : Config} {circ : Circumstances} {α : Type}

theorem call_refines (call : StorageCall) {job : Job RepositoryError α}
    (refines : Refines config job) : Refines config (circ.call call job) := by
  unfold Circumstances.call
  split
  · exact refines.mapError _
  · exact .fail _
  · exact .bind (refines.mapError _) fun _ => .fail _

theorem close_refines (event : OutboxEvent) (outcome : Outcome) :
    Refines config (close circ event (closeEvent event outcome)) :=
  call_refines _ (closeEvent_refines event outcome)

theorem recordResult_refines (event : OutboxEvent) (attempt : DeliveryAttempt) :
    Refines config (recordResult circ event attempt) :=
  .bind .now fun at_ => call_refines _ (recordAttempt_refines event attempt at_)

theorem deliverTo_refines (event : OutboxEvent) (endpoint : WebhookEndpoint) :
    Refines config (deliverTo config circ event endpoint) := by
  unfold deliverTo
  split
  · exact .bind (recordResult_refines event _) fun _ => .pure _
  · exact .bind (.watchedNow _) fun _ => .bind (.watch _ _) fun _ =>
      .bind (recordResult_refines event _) fun _ => .pure _

theorem deliverToAll_refines (event : OutboxEvent) (endpoints : List WebhookEndpoint) :
    Refines config (deliverToAll config circ event endpoints) := by
  induction endpoints with
  | nil => exact .pure _
  | cons endpoint rest ih =>
    exact .bind (deliverTo_refines event endpoint) fun _ => .bind ih fun _ => .pure _

theorem retryLater_refines (event : OutboxEvent) :
    Refines config (retryLater config circ event) := by
  refine .bind (.watchedNow _) fun at_ => ?_
  split
  · exact .bind (close_refines event _) fun _ => .pure _
  · exact .bind (close_refines event _) fun _ => .pure _

theorem deliverEvent_refines (endpoints : List WebhookEndpoint) (event : OutboxEvent) :
    Refines config (deliverEvent config circ endpoints event) := by
  unfold deliverEvent
  split
  · exact .bind .now fun _ => .bind (close_refines event _) fun _ => .pure _
  · refine .bind (deliverToAll_refines event _) fun all => ?_
    split
    · exact .bind .now fun _ => .bind (close_refines event _) fun _ => .pure _
    · exact retryLater_refines event

theorem deliverEach_refines {turn : OutboxEvent → Job OutboxError OutboxReport}
    (each : ∀ event, Refines config (turn event)) (events : List OutboxEvent) :
    Refines config (deliverEach turn events) := by
  induction events with
  | nil => exact .pure _
  | cons event rest ih => exact .bind (each event) fun _ => .bind ih fun _ => .pure _

theorem deliverMerchant_refines (merchant : Option Id) (events : List OutboxEvent) :
    Refines config (deliverMerchant config circ merchant events) := by
  refine .handle ?_ fun _ => .bind (.watch _ _) fun _ => .fail _
  unfold deliverShare
  split
  · exact deliverEach_refines (fun event => .bind .now fun _ => .bind (close_refines event _)
      fun _ => .pure _) events
  · exact .bind (call_refines _ (activeEndpoints_refines _ _)) fun endpoints =>
      deliverEach_refines (deliverEvent_refines endpoints) events

theorem combine_refines (outcomes : List (Except OutboxError OutboxReport)) :
    Refines config (combine outcomes) := by
  induction outcomes with
  | nil => exact .pure _
  | cons outcome rest ih =>
    cases outcome with
    | error e => exact .fail e
    | ok part => exact .bind ih fun _ => .pure _

theorem deliverDue_refines (limit : Nat) : Refines config (deliverDue config circ limit) := by
  unfold deliverDue
  split
  · exact .fail _
  refine .bind .now fun at_ => .bind (call_refines _ (claimDueEvents_refines _ _)) fun events =>
    .bind (fun log db => ?_) combine_refines
  refine boundedJoin_refines (contract_forgetful config) _ _ _ (fun p mem => ?_) trivial
  obtain ⟨group, _, rfl⟩ := List.mem_map.mp mem
  exact deliverMerchant_refines group.1 group.2 [] db

theorem answer_refines {ε : Type} (wrap : ε → Failure) (respond : α → Response) {job : Job ε α}
    (refines : Refines config job) : Refines config (answer wrap respond job) :=
  .bind (refines.mapError wrap) fun _ => .pure _

theorem program_refines (config : Config) (request : Request) :
    Refines config (program config request) := by
  cases request with
  | publish => exact answer_refines _ _ (publish_refines _ _ _ _ _ _)
  | addEndpoint => exact answer_refines _ _ (addWebhookEndpoint_refines _ _ _ _)
  | rotate => exact answer_refines _ _ (rotateWebhookSecret_refines _ _ _ _)
  | disable => exact answer_refines _ _ (disableWebhookEndpoint_refines _ _ _)
  | redeliver => exact answer_refines _ _ (redeliverWebhook_refines _ _ _)
  | claimDue => exact answer_refines _ _ (claimDueEvents_refines _ _)
  | deliverDue => exact answer_refines _ _ (deliverDue_refines _)

end Pass

abbrev Outbox := System Db Write Row Watch Failure Response

/-- The outbox under its contract, from the tables of `db`. -/
def outbox (config : Config) (db : Db := {}) :
    Service Db Write Row Watch Failure Response Request where
  spec := contract config
  program := program config
  init := { db, now := 0, nextId := 0, sessions := [] }
  safe request db _ := wp_mono (program_refines config request [] db) (fun _ _ _ => trivial)
    fun _ _ _ => trivial
  sane := trivial
  idle := rfl

end CryptoGateway.Webhooks
