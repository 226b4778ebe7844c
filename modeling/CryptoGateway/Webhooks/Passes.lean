import CryptoGateway.Webhooks.Conduct

/-!
A whole delivery pass: the batch is split into one share for each merchant, and the shares
together do what each of them does alone.
-/
namespace CryptoGateway.Webhooks
open Engine

section Groups

structure Grouped (events : List OutboxEvent) (groups : List (Option Id × List OutboxEvent)) :
    Prop where
  distinct : (groups.map (·.1)).Nodup
  queues : ∀ group ∈ groups, group.2 = events.filter fun e => e.merchantId = group.1
  all : ∀ e ∈ events, e.merchantId ∈ groups.map (·.1)

variable {event : OutboxEvent} {events : List OutboxEvent}
  {groups : List (Option Id × List OutboxEvent)}

theorem pushGroup_merchants : (pushGroup event groups).map (·.1) =
    if event.merchantId ∈ groups.map (·.1) then groups.map (·.1)
    else groups.map (·.1) ++ [event.merchantId] := by
  induction groups with
  | nil => simp [pushGroup]
  | cons group rest ih =>
    obtain ⟨merchant, queue⟩ := group
    by_cases same : merchant = event.merchantId
    · simp [pushGroup, same]
    · simp only [pushGroup, if_neg same, List.map_cons, ih, List.mem_cons, Ne.symm same, false_or]
      split <;> simp

theorem mem_pushGroup (distinct : (groups.map (·.1)).Nodup) {group : Option Id × List OutboxEvent}
    (mem : group ∈ pushGroup event groups) : (group ∈ groups ∧ group.1 ≠ event.merchantId) ∨
      (∃ queue, (event.merchantId, queue) ∈ groups ∧ group = (event.merchantId, queue ++ [event])) ∨
      (event.merchantId ∉ groups.map (·.1) ∧ group = (event.merchantId, [event])) := by
  induction groups with
  | nil =>
    simp only [pushGroup, List.mem_singleton] at mem
    exact .inr (.inr ⟨by simp, mem⟩)
  | cons first rest ih =>
    obtain ⟨merchant, queue⟩ := first
    rw [List.map_cons, List.nodup_cons] at distinct
    by_cases same : merchant = event.merchantId
    · subst same
      simp only [pushGroup, ↓reduceIte, List.mem_cons] at mem
      rcases mem with rfl | behind
      · exact .inr (.inl ⟨queue, List.mem_cons_self, rfl⟩)
      · refine .inl ⟨List.mem_cons_of_mem _ behind, fun eq => distinct.1 ?_⟩
        exact List.mem_map.mpr ⟨group, behind, eq⟩
    · simp only [pushGroup, if_neg same, List.mem_cons] at mem
      rcases mem with rfl | behind
      · exact .inl ⟨List.mem_cons_self, same⟩
      · rcases ih distinct.2 behind with old | ⟨queue', old, eq⟩ | ⟨new, eq⟩
        · exact .inl ⟨List.mem_cons_of_mem _ old.1, old.2⟩
        · exact .inr (.inl ⟨queue', List.mem_cons_of_mem _ old, eq⟩)
        · refine .inr (.inr ⟨?_, eq⟩)
          rw [List.map_cons, List.mem_cons, not_or]
          exact ⟨Ne.symm same, new⟩

theorem Grouped.push (grouped : Grouped events groups) (event : OutboxEvent) :
    Grouped (events ++ [event]) (pushGroup event groups) where
  distinct := by
    rw [pushGroup_merchants]
    split
    · exact grouped.distinct
    · rename_i new
      rw [List.nodup_append]
      refine ⟨grouped.distinct, List.nodup_singleton _, ?_⟩
      rintro merchant old _ here rfl
      rw [List.mem_singleton] at here
      exact new (here ▸ old)
  queues := by
    intro group mem
    rw [List.filter_append]
    rcases mem_pushGroup grouped.distinct mem with ⟨old, other⟩ | ⟨queue, old, rfl⟩ | ⟨new, rfl⟩
    · simp [grouped.queues group old, Ne.symm other]
    · have same : queue = events.filter fun e => e.merchantId = event.merchantId :=
        grouped.queues _ old
      simp [← same]
    · have none : events.filter (fun e => e.merchantId = event.merchantId) = [] := by
        rw [List.filter_eq_nil_iff]
        intro e listed
        simp only [decide_eq_true_eq]
        exact fun eq => new (eq ▸ grouped.all e listed)
      simp [none]
  all := by
    intro e listed
    rw [pushGroup_merchants]
    rcases List.mem_append.mp listed with old | here
    · have := grouped.all e old
      split
      · exact this
      · exact List.mem_append_left _ this
    · rw [List.mem_singleton] at here
      subst here
      split
      · assumption
      · simp

theorem groupByMerchant_grouped (events : List OutboxEvent) :
    Grouped events (groupByMerchant events) := by
  have step : ∀ (rest seen : List OutboxEvent) groups, Grouped seen groups →
      Grouped (seen ++ rest) (rest.foldl (fun groups event => pushGroup event groups) groups) := by
    intro rest
    induction rest with
    | nil => intro seen groups grouped; simpa using grouped
    | cons event rest ih =>
      intro seen groups grouped
      have := ih (seen ++ [event]) _ (grouped.push event)
      rwa [List.append_assoc] at this
  have := step events [] [] ⟨List.nodup_nil, by simp, by simp⟩
  rwa [List.nil_append] at this

theorem pushGroup_total : ((pushGroup event groups).map (·.2.length)).sum =
    (groups.map (·.2.length)).sum + 1 := by
  induction groups with
  | nil => simp [pushGroup]
  | cons group rest ih =>
    obtain ⟨merchant, queue⟩ := group
    unfold pushGroup
    split
    · simp; omega
    · simp [ih]; omega

theorem groupByMerchant_total (events : List OutboxEvent) :
    ((groupByMerchant events).map (·.2.length)).sum = events.length := by
  have step : ∀ (rest : List OutboxEvent) groups,
      ((rest.foldl (fun groups event => pushGroup event groups) groups).map (·.2.length)).sum =
        (groups.map (·.2.length)).sum + rest.length := by
    intro rest
    induction rest with
    | nil => intro groups; rfl
    | cons event rest ih =>
      intro groups
      rw [List.foldl_cons, ih, pushGroup_total, List.length_cons]
      omega
  have := step events []
  simpa [groupByMerchant] using this

end Groups

section Pass
variable {config : Config} {merchant : Option Id} {queue : List OutboxEvent}
  {log : Log Db Watch} {groups : List (Option Id × List OutboxEvent)}

theorem ShareMove.owner {t : Watch} {ws new : List Write}
    (owned : ∀ event ∈ queue, event.merchantId = merchant)
    (move : ShareMove config merchant queue (some t) log ws new) : t.merchant = some merchant := by
  cases move with
  | asOf own => exact congrArg some own.symm
  | endpoints own => exact congrArg some own.symm
  | signing pending => exact congrArg some (owned _ pending.listed)
  | called made =>
    obtain ⟨done, rest, split, _⟩ := made.turn
    exact congrArg some (owned _ (by simp [split]))
  | recording pending => exact congrArg some (owned _ pending.listed)
  | ending pending => exact congrArg some (owned _ pending.listed)
  | closing pending => exact congrArg some (owned _ pending.listed)
  | missing pending => exact congrArg some (owned _ pending.listed)
  | stopped => rfl

theorem Watch.batch_of_merchant {t : Watch} (owner : t.merchant = some merchant) :
    t.batch = [] := by
  cases t <;> simp_all [Watch.merchant, Watch.batch]

theorem claimedEvents_record {tag : Option Watch} {m : Moment Db}
    (other : ∀ t, tag = some t → t.batch = []) :
    claimedEvents (record tag m log) = claimedEvents log := by
  cases tag with
  | none => rfl
  | some t => simp [claimedEvents, record, other t rfl]

section Shares
variable (config) (groups : List (Option Id × List OutboxEvent))

/-- The tags of share `i`. -/
def shareTags (i : Nat) (t : Watch) : Bool := groups[i]?.any fun group => mine group.1 t

def sharesMove (i : Nat) (tag : Option Watch) (log : Log Db Watch) (ws new : List Write) : Prop :=
  ∃ group, groups[i]? = some group ∧ ShareMove config group.1 group.2 tag log ws new

def sharesCommit (i : Nat) (log : Log Db Watch) (ws : List Write) : Prop :=
  ∃ group, groups[i]? = some group ∧ ShareCommit config group.2 log ws

end Shares

theorem shareTags_of {i : Nat}
    {group : Option Id × List OutboxEvent} (found : groups[i]? = some group) :
    shareTags groups i = mine group.1 := by
  funext t
  simp [shareTags, found]

theorem Grouped.owned {batch : List OutboxEvent}
    (grouped : Grouped batch groups) {i : Nat} {group : Option Id × List OutboxEvent}
    (found : groups[i]? = some group) : ∀ event ∈ group.2, event.merchantId = group.1 := by
  intro event mem
  rw [grouped.queues group (List.mem_of_getElem? found)] at mem
  simpa using (List.mem_filter.mp mem).2

theorem shares_tasks {batch : List OutboxEvent}
    (grouped : Grouped batch groups) :
    Tasks (shareTags groups) (sharesMove config groups) (sharesCommit config groups)
      (fun log => claimedEvents log = batch) (Move config) (Commit config) where
  mine := by
    rintro i t log ws new ⟨group, found, move⟩
    rw [shareTags_of found]
    exact decide_eq_true (move.owner (grouped.owned found))
  others := by
    rintro i j t log ws new ⟨group, found, move⟩ other
    have owner := move.owner (grouped.owned found)
    cases there : groups[j]? with
    | none => simp [shareTags, there]
    | some group' =>
      rw [shareTags_of there]
      refine decide_eq_false fun same => other ?_
      have merchants : (groups.map (·.1))[i]? = (groups.map (·.1))[j]? := by
        rw [List.getElem?_map, List.getElem?_map, found, there]
        exact owner.symm.trans same
      refine (List.getElem?_inj ?_ grouped.distinct).mp merchants
      rw [List.length_map]
      exact (List.getElem?_eq_some_iff.mp found).1
  base := by
    rintro i tag m log ws new ⟨group, found, move⟩ base
    rw [claimedEvents_record ?_]
    · exact base
    · rintro t rfl
      exact Watch.batch_of_merchant (move.owner (grouped.owned found))
  move := by
    rintro i tag log ws new rfl ⟨group, found, move⟩
    rw [shareTags_of found, grouped.queues group (List.mem_of_getElem? found)] at move
    exact .share group.1 move
  commit := by
    rintro i log ws rfl ⟨group, found, commit⟩
    rw [shareTags_of found, grouped.queues group (List.mem_of_getElem? found)] at commit
    exact .share group.1 commit

theorem combine_total (shares : List Nat) {results : List (Except OutboxError OutboxReport)}
    (length : results.length = shares.length)
    (each : ∀ (j : Nat) (part : OutboxReport), results[j]? = some (.ok part) →
      shares[j]? = some part.claimed) {ws : List Write} :
    (combine results).Acts (Move config) (Commit config)
      (fun report log' ws' => report.claimed = shares.sum ∧ log' = log ∧ ws' = ws)
      (fun _ _ _ => True) log ws := by
  induction results generalizing shares with
  | nil =>
    cases shares with
    | nil => exact ⟨rfl, rfl, rfl⟩
    | cons _ _ => simp at length
  | cons first rest ih =>
    cases shares with
    | nil => simp at length
    | cons share others =>
      cases first with
      | error e => exact trivial
      | ok part =>
        have here : part.claimed = share := by
          have := each 0 part rfl
          simpa using this.symm
        refine Proc.Acts.bind (ih others (by simpa using length)
          fun j part listed => each (j + 1) part listed) ?_
        rintro report _ _ ⟨total, rfl, rfl⟩
        refine ⟨?_, rfl, rfl⟩
        simp [OutboxReport.absorb, here, total]

section Whole
variable {circ : Circumstances} {log : Log Db Watch}

theorem claimDueEvents_acts (order : RowOrder Id) (call : ClaimCall) :
    (claimDueEvents order call).Acts (Move config) (Commit config)
      (fun batch log ws => ws = [] ∧ batch.Nodup ∧ claimedEvents log = batch ∧
        ∀ merchant, shareOf log merchant = []) (fun _ _ _ => True) [] [] := by
  unfold claimDueEvents
  split
  · exact trivial
  · intro m db grant
    refine ⟨.claim, .claimed, fun m' => ⟨.claim, rfl, ?_, List.append_nil _, fun merchant => rfl⟩⟩
    exact List.Nodup.of_map _ (claimDue_ids.nodup_iff.mpr picked_keys_nodup)

theorem deliverDue_acts (circ : Circumstances) (limit : Nat) :
    (deliverDue config circ limit).Acts (Move config) (Commit config)
      (fun report log _ => report.claimed = (claimedEvents log).length)
      (fun _ _ _ => True) [] [] := by
  unfold deliverDue
  split
  · exact trivial
  refine ⟨.aside (by simp), fun m => ?_⟩
  refine Proc.Acts.bind (p := circ.call .claim (claimDueEvents circ.order _))
    (call_acts _ (claimDueEvents_acts _ _) trivial fun _ _ _ _ => trivial) ?_
  rintro batch log _ ⟨rfl, distinct, claimed, fresh⟩
  have grouped := groupByMerchant_grouped batch
  let counts := (groupByMerchant batch).map (·.2.length)
  refine Proc.Acts.bind (Proc.boundedJoin_acts (shares_tasks grouped) _ _ _
    (P := fun i result => ∀ part : OutboxReport, result = .ok part →
      counts[i]? = some part.claimed) ?_ claimed) ?_
  · intro j p listed
    rw [List.getElem?_map, Option.map_eq_some_iff] at listed
    obtain ⟨group, found, rfl⟩ := listed
    have queue := grouped.queues group (List.mem_of_getElem? found)
    have start : Log.of (shareTags (groupByMerchant batch) j) log = [] := by
      rw [shareTags_of found]
      exact fresh group.1
    rw [start]
    refine (deliverMerchant_acts (queue ▸ distinct.filter _) (grouped.owned found)).mono
      (fun _ _ _ _ move => ⟨group, found, move⟩) (fun _ _ commit => ⟨group, found, commit⟩) ?_ ?_
    · rintro report _ _ ⟨clean, count⟩
      refine ⟨clean, ?_⟩
      rintro _ ⟨⟩
      simp [counts, found, count]
    · rintro error _ _ ⟨clean, _⟩
      exact ⟨clean, by simp⟩
  · rintro results log' _ ⟨⟨rfl, claimed'⟩, length, each⟩
    have total : counts.sum = (claimedEvents log').length := by
      rw [claimed']
      exact groupByMerchant_total batch
    refine (combine_total counts (by simpa [counts] using length) ?_).mono
      (fun _ _ _ _ => id) (fun _ _ => id) ?_ fun _ _ _ => id
    · intro j part found
      have := each j _ found part rfl
      rwa [Nat.zero_add] at this
    · rintro report _ _ ⟨count, rfl, _⟩
      exact count.trans total

end Whole

section Aside
variable {ε δ α β : Type}

abbrev Apart (ws : List Write) : Prop := ∀ w ∈ ws, w.ofPass = false

def Aside (config : Config) (job : Job ε α) : Prop :=
  ∀ log ws, Apart ws → job.Acts (Move config) (Commit config) (fun _ _ ws => Apart ws)
    (fun _ _ ws => Apart ws) log ws

theorem Aside.pure (a : α) : Aside config (pure a : Job ε α) := fun _ _ apart => apart

theorem Aside.fail (e : ε) : Aside config (.fail e : Job ε α) := fun _ _ apart => apart

theorem Aside.bind {job : Job ε α} {f : α → Job ε β} (first : Aside config job)
    (rest : ∀ a, Aside config (f a)) : Aside config (job >>= f) :=
  fun log ws apart => Proc.Acts.bind (first log ws apart) fun a log ws => rest a log ws

theorem Aside.transaction {job : Job ε α} (body : Aside config job) :
    Aside config (Proc.transaction job) :=
  fun log ws apart => (body log ws apart).transaction fun _ _ _ apart =>
    ⟨.aside (by simpa using apart), List.forall_mem_nil _⟩

theorem Aside.now : Aside config (now : Job ε Int) :=
  fun _ _ apart => ⟨.aside (by simpa using apart), fun _ => apart⟩

theorem Aside.uuid : Aside config (uuid : Job ε Id) := fun _ _ apart _ => apart

theorem Aside.select (query : Db → β) : Aside config (select query : Job ε β) :=
  fun _ _ apart => ⟨.aside (by simpa using apart), fun _ => apart⟩

theorem Aside.execute {exec : Exec β}
    (others : ∀ seen newest grant, Apart (exec seen newest grant).writes) :
    Aside config (execute none exec : Job ε β) := by
  intro log ws apart m db grant
  have both : Apart (ws ++ (exec (applyAll ws m.db) (applyAll ws db) grant).writes) := by
    intro w mem
    exact (List.mem_append.mp mem).elim (apart w) (others _ _ _ w)
  exact ⟨.aside both, both⟩

theorem Aside.commit : Aside config (commit : Job ε Unit) :=
  fun _ _ apart => ⟨.aside apart, List.forall_mem_nil _⟩

theorem Aside.requiredText {job : Job ProvisioningError α} (rest : Aside config job) (value : Text)
    (message : String) : Aside config (requiredText value message job) := by
  unfold Webhooks.requiredText
  split
  · exact .fail _
  · exact rest

theorem publish_aside (channel : Channel) (merchantId : Option Id) (eventType aggregateType : Text)
    (aggregateId : Id) (payload : Text) :
    Aside config (publish channel merchantId eventType aggregateType aggregateId payload) := by
  refine .bind .now fun at_ => .bind .uuid fun id => .transaction (.bind (.execute ?_) ?_)
  · intro seen newest grant
    split <;> simp [Apart, Write.ofPass]
  · intro refused
    split
    · exact .fail _
    · exact .bind .commit fun _ => .pure _

theorem addWebhookEndpoint_aside (actor : Text) (merchantId : Id) (url : Text) (active : Bool) :
    Aside config (addWebhookEndpoint config actor merchantId url active) := by
  refine .requiredText ?_ _ _
  split
  · exact .fail _
  refine .bind .uuid fun id => .bind .now fun at_ => .transaction ?_
  split
  · exact .fail _
  · refine .bind (.execute ?_) ?_
    · intro seen newest grant
      split
      · simp [Apart]
      split <;> simp [Apart, Write.ofPass]
    · intro refused
      split
      · exact .fail _
      · exact .bind .commit fun _ => .pure _

theorem rotateStored_aside (endpointId : Id) (rotation : Rotation) :
    Aside config (rotateStored endpointId rotation) := by
  refine .transaction (.bind (.execute ?_) ?_)
  · intro seen newest grant
    split <;> simp [Apart, Write.ofPass]
  · intro rotated
    split
    · exact .commit
    · exact .fail _

theorem rotateWebhookSecret_aside (actor : Text) (endpointId : Id) (transition : Int)
    (reason : Text) :
    Aside config (rotateWebhookSecret config actor endpointId transition reason) := by
  refine .requiredText (.requiredText ?_ _ _) _ _
  split
  · exact .fail _
  · refine .bind (.select _) fun found => ?_
    split
    · exact .fail _
    · split
      · exact .fail _
      · exact .bind .now fun at_ => .bind (rotateStored_aside _ _) fun _ => .pure _

theorem disableWebhookEndpoint_aside (actor : Text) (endpointId : Id) (reason : Text) :
    Aside config (disableWebhookEndpoint actor endpointId reason) := by
  refine .requiredText (.requiredText (.transaction (.bind (.execute ?_) ?_)) _ _) _ _
  · intro seen newest grant
    split <;> simp [Apart, Write.ofPass]
  · intro disabled
    split
    · exact .commit
    · exact .fail _

theorem requeueEvent_aside (principal : Principal) (key : Text) (request : WebhookRedelivery)
    (merchantId : Id) (event : EventRow) (previousState : EndedState) (at_ : Int) :
    Aside config (requeueEvent principal key request merchantId event previousState at_) := by
  refine .bind (.execute fun _ _ _ => by simp [Apart, Write.ofPass]) fun _ => .bind .uuid fun id =>
    .bind (.execute ?_) ?_
  · intro seen newest grant
    split <;> simp [Apart, Write.ofPass]
  · intro refused
    split
    · exact .fail _
    · exact .bind .commit fun _ => .pure _

theorem redeliverWebhookEvent_aside (principal : Principal) (key : Text)
    (request : WebhookRedelivery) (at_ : Int) :
    Aside config (redeliverWebhookEvent principal key request at_) := by
  refine .transaction (.bind (.execute fun _ _ _ => by simp [Apart]) fun _ =>
    .bind (.select _) fun stored => ?_)
  split
  · split
    · exact .fail _
    · exact .bind .commit fun _ => .pure _
  · refine .bind (.execute ?_) fun found => ?_
    · intro seen newest grant
      unfold lockEvent
      split <;> simp [Apart]
    · split
      · exact .fail _
      · split
        · exact .fail _
        · split
          · exact .fail _
          · exact .fail _
          · refine .bind (.select _) fun reachable => ?_
            split
            · exact .fail _
            · exact requeueEvent_aside _ _ _ _ _ _ _

theorem redeliverWebhook_aside (actor : RedeliveryActor) (key : Text)
    (request : WebhookRedelivery) :
    Aside config (redeliverWebhook actor key request) := by
  unfold redeliverWebhook
  split
  · exact .fail _
  · split
    · exact .fail _
    · split
      · exact .fail _
      · exact .bind .now fun at_ => redeliverWebhookEvent_aside _ _ _ _

end Aside

section Programs

theorem answer_acts {ε α : Type} {wrap : ε → Failure} {respond : α → Response} {job : Job ε α}
    {Q : α → Log Db Watch → List Write → Prop} {E : ε → Log Db Watch → List Write → Prop}
    (acts : job.Acts (Move config) (Commit config) Q E [] []) :
    (answer wrap respond job).Acts (Move config) (Commit config) (fun _ _ _ => True)
      (fun _ _ _ => True) [] [] :=
  Proc.Acts.bind (acts.mapError fun _ _ _ _ => trivial) fun _ _ _ _ => trivial

theorem Aside.answers {ε α : Type} {wrap : ε → Failure} {respond : α → Response} {job : Job ε α}
    (job_aside : Aside config job) :
    (answer wrap respond job).Acts (Move config) (Commit config) (fun _ _ _ => True)
      (fun _ _ _ => True) [] [] := answer_acts (job_aside [] [] (by simp [Apart]))

theorem program_acts (config : Config) (request : Request) :
    (program config request).Acts (Move config) (Commit config) (fun _ _ _ => True)
      (fun _ _ _ => True) [] [] := by
  cases request with
  | publish => exact (publish_aside _ _ _ _ _ _).answers
  | addEndpoint => exact (addWebhookEndpoint_aside _ _ _ _).answers
  | rotate => exact (rotateWebhookSecret_aside _ _ _ _).answers
  | disable => exact (disableWebhookEndpoint_aside _ _ _).answers
  | redeliver => exact (redeliverWebhook_aside _ _ _).answers
  | claimDue call order => exact answer_acts (claimDueEvents_acts order call)
  | deliverDue limit circ => exact answer_acts (deliverDue_acts circ limit)

end Programs
end Pass

end CryptoGateway.Webhooks
