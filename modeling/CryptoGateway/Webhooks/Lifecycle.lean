import CryptoGateway.Webhooks.Holders

/-!
The life of an event when no worker claims what another one still has: attempts stay within the
ceiling, and an event is delivered only when every target accepted it.
-/
namespace CryptoGateway.Webhooks
open Engine

def Write.claimed : Write → Option OutboxEvent
  | .claim event _ => some event
  | _ => none

def SoleClaims (s : Outbox) (e : Event Request) : Prop :=
  ∀ c ∈ s.committing e, ∀ event ∈ c.2.filterMap Write.claimed, Unattended event.id s

instance (s : Outbox) (e : Event Request) : Decidable (SoleClaims s e) :=
  inferInstanceAs (Decidable (∀ c ∈ s.committing e, ∀ event ∈ c.2.filterMap Write.claimed,
    Unattended event.id s))

theorem SoleClaims.unattended {s : Outbox} {e : Event Request} {log : Log Db Watch}
    {ws : List Write} {event : OutboxEvent} {call : ClaimCall} (sole : SoleClaims s e)
    (commits : s.committing e = some (log, ws)) (claims : .claim event call ∈ ws) :
    Unattended event.id s := sole (log, ws) commits event (List.mem_filterMap.mpr ⟨_, claims, rfl⟩)

structure Held (s : Outbox) : Prop where
  sole : ∀ {i j : Nat} {c d : Worker} {a b : OutboxEvent}, s.sessions[i]? = some c →
    s.sessions[j]? = some d → a ∈ owed c → b ∈ owed d → a.id = b.id → i = j ∧ a = b
  stored : ∀ {i : Nat} {c : Worker} {event : OutboxEvent}, s.sessions[i]? = some c →
    event ∈ owed c → ∃ row, s.db.events.row event.id = some row ∧ row.isOpen = true ∧
      row.toOutboxEvent event.id = event

section Holding
variable {config : Config} {db : Db} {allow : Outbox → Event Request → Prop} {s s' : Outbox}
  {e : Event Request} {i : Nat} {c : Worker} {event : OutboxEvent} {log : Log Db Watch}
  {ws : List Write}

theorem Held.closing (held : Held s) (reached : (outbox config db).Reached allow s)
    (taken : s.step (program config) e = some s') (commits : s.committing e = some (log, ws))
    {outcome : Outcome} (closes : .close event.id outcome ∈ ws) (found : s.sessions[i]? = some c)
    (mem : event ∈ owed c) {c' : Worker} (found' : s'.sessions[i]? = some c') :
    event ∉ owed c' := by
  obtain ⟨j, d, rfl, stored, rfl, rfl, running, writing⟩ := outbox_writing reached
    commits closes rfl
  obtain ⟨event', m, before, same, _, head, _, owing⟩ := writing.closing closes
  obtain ⟨rfl, rfl⟩ := held.sole found stored mem (mem_owed.mpr ⟨running, owing⟩) same.symm
  obtain ⟨_, d', ⟨⟩, there, log', writes'⟩ :=
    (System.step_turn (reached.acting (program_acts config) rfl) taken).after_commit commits
  cases there.symm.trans found'
  intro still
  have left := (mem_owed.mp still).2.left
  rw [log', writes', head] at left
  rcases left with open_ | ⟨_, _, closing⟩
  · exact open_ List.mem_cons_self
  · simp at closing

theorem Held.step (held : Held s) (reached : (outbox config db).Reached allow s)
    (sole : SoleClaims s e) (taken : s.step (program config) e = some s') : Held s' where
  sole := by
    intro i j c d a b foundC foundD memA memB same
    rcases owed_origin (outbox_origin reached taken foundC) memA with
      ⟨c₀, storedC, hadA⟩ | ⟨rfl, log, ws, call, commits, claims⟩
    · rcases owed_origin (outbox_origin reached taken foundD) memB with
        ⟨d₀, storedD, hadB⟩ | ⟨_, log', ws', call', commits', claims'⟩
      · exact held.sole storedC storedD hadA hadB same
      · exact absurd same (sole.unattended commits' claims' c₀
          (List.mem_of_getElem? storedC) a hadA)
    · rcases owed_origin (outbox_origin reached taken foundD) memB with
        ⟨d₀, storedD, hadB⟩ | ⟨own, log', ws', call', commits', claims'⟩
      · exact absurd same.symm
          (sole.unattended commits claims d₀ (List.mem_of_getElem? storedD) b hadB)
      · -- one commit claims both: a batch lists no event twice
        cases own
        cases commits.symm.trans commits'
        obtain ⟨batch, rfl, _, hands⟩ := (outbox_commits reached commits).2.claims claims
        exact ⟨rfl, List.inj_on_of_nodup_map hands.distinct (claim_batch claims).2
          (claim_batch claims').2 same⟩
  stored := by
    intro i c event found mem
    rcases owed_origin (outbox_origin reached taken found) mem with
      ⟨c₀, stored₀, had⟩ | ⟨rfl, log, ws, call, commits, claims⟩
    · obtain ⟨row, stored, isOpen, eq⟩ := held.stored stored₀ had
      rcases System.step_db taken with ⟨_, unchanged⟩ | ⟨log, ws, commits, moved⟩
      · exact ⟨row, by rw [unchanged]; exact stored, isOpen, eq⟩
      · have step := (outbox_commits reached commits).2.event event.id
        rw [← moved, stored] at step
        generalize s'.db.events.row event.id = row' at step
        cases step with
        | same => exact ⟨row, rfl, isOpen, eq⟩
        | claimed => exact ⟨_, rfl, isOpen, eq⟩
        | closed closes =>
          exact absurd mem (held.closing reached taken commits closes stored₀ had found)
        | requeued requeues ended => cases isOpen.symm.trans ended
    · obtain ⟨batch, rfl, _, hands⟩ := (outbox_commits reached commits).2.claims claims
      have listed := (claim_batch claims).2
      obtain ⟨row, stored, due, eq⟩ := hands.due event listed
      have isOpen : row.isOpen = true := by
        simp only [EventRow.dueAt, Bool.and_eq_true] at due
        exact due.1.1.2
      rcases System.step_db taken with ⟨none, _⟩ | ⟨_, _, commits', moved⟩
      · cases none.symm.trans commits
      · cases commits'.symm.trans commits
        refine ⟨row.claim call, ?_, isOpen, eq.symm⟩
        rw [moved, claim_applyAll, if_pos (List.mem_map_of_mem listed), stored]
        rfl

theorem outbox_held (sole : ∀ s e, allow s e → SoleClaims s e)
    (reached : (outbox config db).Reached allow s) : Held s := by
  induction reached with
  | refl => exact ⟨by simp [outbox], by simp [outbox]⟩
  | step before taken allowed ih => exact ih.step before (sole _ _ allowed) taken

end Holding

structure EventRow.Lawful (ceiling : Nat) (row : EventRow) : Prop where
  floor : row.attemptFloor ≤ row.attempts
  oneEnd : row.deliveredAt = none ∨ row.deadLetteredAt = none
  within : row.attempts ≤ row.attemptFloor + ceiling
  left : row.isOpen = true → row.attempts < row.attemptFloor + ceiling

structure EventRow.Continues (old new : EventRow) : Prop where
  eventType : new.eventType = old.eventType
  payload : new.payload = old.payload
  createdAt : new.createdAt = old.createdAt
  attempts : old.attempts ≤ new.attempts

section Rows
variable {ceiling : Nat} {row : EventRow}

theorem EventRow.isOpen_iff :
    row.isOpen = true ↔ row.deliveredAt = none ∧ row.deadLetteredAt = none := by
  simp [EventRow.isOpen]

theorem EventRow.Unsent.lawful (unsent : row.Unsent) (one : 1 ≤ ceiling) : row.Lawful ceiling where
  floor := by rw [unsent.attempts, unsent.attemptFloor]
  oneEnd := .inl (EventRow.isOpen_iff.mp unsent.isOpen).1
  within := by rw [unsent.attempts]; omega
  left _ := by rw [unsent.attempts]; omega

theorem EventRow.Lawful.claim (lawful : row.Lawful ceiling) (call : ClaimCall) :
    (row.claim call).Lawful ceiling := ⟨lawful.floor, lawful.oneEnd, lawful.within, lawful.left⟩

theorem EventRow.lawful_requeue (row : EventRow) (one : 1 ≤ ceiling) (at_ : Int)
    (endpointId : Option Id) : (row.requeue at_ endpointId).Lawful ceiling where
  floor := Nat.le_refl _
  oneEnd := .inl rfl
  within := Nat.le_add_right _ _
  left _ := Nat.lt_add_of_pos_right one

theorem EventRow.Lawful.close (lawful : row.Lawful ceiling) (isOpen : row.isOpen = true)
    {outcome : Outcome} (id : Id)
    (again : ∀ availableAt error, outcome = .rescheduled availableAt error →
      (row.toOutboxEvent id).used < ceiling) : (row.close outcome).Lawful ceiling := by
  obtain ⟨undelivered, alive⟩ := EventRow.isOpen_iff.mp isOpen
  have left := lawful.left isOpen
  have floor := lawful.floor
  cases outcome with
  | delivered at_ =>
    refine ⟨Nat.le_succ_of_le floor, .inr alive, left, fun still => ?_⟩
    simp [EventRow.isOpen, EventRow.close] at still
  | deadLettered at_ error =>
    refine ⟨Nat.le_succ_of_le floor, .inl undelivered, left, fun still => ?_⟩
    simp [EventRow.isOpen, EventRow.close] at still
  | rescheduled availableAt error =>
    refine ⟨Nat.le_succ_of_le floor, .inl undelivered, left, fun _ => ?_⟩
    have used : row.attempts - row.attemptFloor + 1 < ceiling := again availableAt error rfl
    show row.attempts + 1 < row.attemptFloor + ceiling
    omega

theorem EventRow.close_attempts (outcome : Outcome) :
    (row.close outcome).attempts = row.attempts + 1 ∧
      (row.close outcome).attemptFloor = row.attemptFloor := by cases outcome <;> exact ⟨rfl, rfl⟩

theorem EventRow.Continues.refl (row : EventRow) : row.Continues row :=
  ⟨rfl, rfl, rfl, Nat.le_refl _⟩

theorem EventRow.Continues.trans {a b c : EventRow} (first : a.Continues b)
    (second : b.Continues c) : a.Continues c :=
  ⟨second.eventType.trans first.eventType, second.payload.trans first.payload,
    second.createdAt.trans first.createdAt, first.attempts.trans second.attempts⟩

theorem EventStep.continues {ws : List Write} {id : Id} {new : Option EventRow}
    (step : EventStep ws id (some row) new) : ∃ row', new = some row' ∧ row.Continues row' := by
  cases step with
  | same => exact ⟨row, rfl, .refl row⟩
  | claimed => exact ⟨_, rfl, rfl, rfl, rfl, Nat.le_refl _⟩
  | requeued => exact ⟨_, rfl, rfl, rfl, rfl, Nat.le_refl _⟩
  | @closed _ outcome =>
    refine ⟨_, rfl, ?_⟩
    cases outcome <;> exact ⟨rfl, rfl, rfl, Nat.le_succ _⟩

end Rows

theorem Accepted.mono {log log' : Log Db Watch} {event : OutboxEvent}
    (accepted : Accepted log event)
    (sub : log.Sublist log') : Accepted log' event := by
  obtain ⟨merchantId, endpoints, owner, ⟨order, asOf, loading, listed, eq⟩, some_, all⟩ := accepted
  refine ⟨merchantId, endpoints, owner, ⟨order, asOf, loading, listed.trans sub, eq⟩, some_, ?_⟩
  intro endpoint target
  obtain ⟨call, mem, facts⟩ := all endpoint target
  exact ⟨call, (sub.filterMap _).subset mem, facts⟩

section Lives
variable {config : Config} {allow : Outbox → Event Request → Prop} {s s' : Outbox}
  {e : Event Request} {log : Log Db Watch} {ws : List Write} {id : Id}

theorem Held.closed (held : Held s) {db : Db} (reached : (outbox config db).Reached allow s)
    (commits : s.committing e = some (log, ws)) {outcome : Outcome}
    (closes : .close id outcome ∈ ws) :
    ∃ row m before, s.db.events.row id = some row ∧ row.isOpen = true ∧ ws = [.close id outcome] ∧
      log = (.closing (row.toOutboxEvent id), m) :: before ∧
      Justified config (shareOf before row.merchantId) (row.toOutboxEvent id) outcome := by
  obtain ⟨i, c, rfl, found, rfl, rfl, running, writing⟩ := outbox_writing reached commits closes rfl
  obtain ⟨event, m, before, rfl, writes, head, justified, owing⟩ := writing.closing closes
  obtain ⟨row, stored, isOpen, eq⟩ := held.stored found (mem_owed.mpr ⟨running, owing⟩)
  refine ⟨row, m, before, stored, isOpen, writes, ?_⟩
  rw [eq]
  have owner : row.merchantId = event.merchantId := congrArg OutboxEvent.merchantId eq
  rw [owner]
  exact ⟨head, justified⟩

theorem lawful_commit (held : Held s) {db : Db} (reached : (outbox config db).Reached allow s)
    (commits : s.committing e = some (log, ws))
    (lawful : ∀ row, s.db.events.row id = some row → row.Lawful config.maxAttempts) :
    ∀ row, (applyAll ws s.db).events.row id = some row → row.Lawful config.maxAttempts := by
  have step := (outbox_commits reached commits).2.event id
  intro row' stored'
  rw [stored'] at step
  generalize before : s.db.events.row id = old at step
  cases step with
  | same => exact lawful row' before
  | published unsent => exact unsent.lawful config.ceiling
  | claimed => exact (lawful _ before).claim _
  | requeued => exact EventRow.lawful_requeue _ config.ceiling _ _
  | closed closes isOpen =>
    obtain ⟨row, m, past, stored, _, _, _, justified⟩ := held.closed reached commits closes
    cases before.symm.trans stored
    refine (lawful _ before).close isOpen id ?_
    rintro availableAt error rfl
    exact justified.1

theorem outbox_lawful (sole : ∀ s e, allow s e → SoleClaims s e)
    (reached : (outbox config).Reached allow s) :
    ∀ row, s.db.events.row id = some row → row.Lawful config.maxAttempts := by
  refine (outbox config).keeps (P := fun db => ∀ row, db.events.row id = some row →
    row.Lawful config.maxAttempts) reached ?_ ?_
  · intro row stored
    cases stored
  · intro s e log ws before allowed commits _ _ lawful
    exact lawful_commit (outbox_held sole before) before commits lawful

theorem outbox_continues {db : Db} (reached : (outbox config db).Reached allow s)
    (later : System.Reach (program config) allow s s') {row : EventRow}
    (stored : s.db.events.row id = some row) :
    ∃ row', s'.db.events.row id = some row' ∧ row.Continues row' := by
  refine (outbox config db).keeps_later (P := fun db => ∃ row', db.events.row id = some row' ∧
    row.Continues row') reached ⟨row, stored, .refl row⟩ ?_ later
  rintro s e log ws before allowed commits effect ⟨row', stored', continues⟩
  have step := Effect.event effect id
  rw [stored'] at step
  obtain ⟨row'', eq, continues'⟩ := step.continues
  exact ⟨row'', eq, continues.trans continues'⟩

def Write.requeues (id : Id) : Write → Bool
  | .requeue k _ _ => k = id
  | _ => false

abbrev NotRedelivered (id : Id) : Outbox → Event Request → Prop :=
  OnCommit fun _ _ ws => ∀ w ∈ ws, w.requeues id = false

def endings (id : Id) (s : Outbox) (e : Event Request) : Nat :=
  match s.committing e with
  | some (_, ws) => if ws.any (·.closes id) then 1 else 0
  | none => 0

def usedOf : Option EventRow → Nat
  | none => 0
  | some row => row.attempts - row.attemptFloor

theorem usedOf_step (sole : ∀ s e, allow s e → SoleClaims s e)
    (reached : (outbox config).Reached allow s) (taken : s.step (program config) e = some s')
    (kept : NotRedelivered id s e) :
    usedOf (s'.db.events.row id) = usedOf (s.db.events.row id) + endings id s e := by
  unfold endings
  rcases System.step_db taken with ⟨none, unchanged⟩ | ⟨log, ws, commits, moved⟩
  · rw [none, unchanged, Nat.add_zero]
  rw [commits, moved]
  by_cases closes : ∃ outcome, .close id outcome ∈ ws
  · obtain ⟨outcome, closing⟩ := closes
    obtain ⟨row, m, past, stored, isOpen, rfl, _⟩ :=
      (outbox_held sole reached).closed reached commits closing
    have floor := (outbox_lawful sole reached row stored).floor
    simp only [events_applyAll, List.foldl_cons, List.foldl_nil, Write.onEvent, if_true, stored,
      Option.map_some, usedOf, row.close_attempts, closes_iff.mpr ⟨outcome, closing⟩]
    omega
  · have step := (outbox_commits reached commits).2.event id
    have none : ws.any (·.closes id) = false := Bool.eq_false_iff.mpr (mt closes_iff.mp closes)
    simp only [none, Bool.false_eq_true, if_false, Nat.add_zero]
    generalize (applyAll ws s.db).events.row id = new at step
    generalize s.db.events.row id = old at step
    cases step with
    | same => rfl
    | published unsent => simp [usedOf, unsent.attempts]
    | claimed => rfl
    | closed closing => exact absurd ⟨_, closing⟩ closes
    | requeued requeues => exact absurd (kept log ws commits _ requeues) (by simp [Write.requeues])

theorem endings_used (sole : ∀ s e, allow s e → SoleClaims s e)
    (reached : (outbox config).Reached allow s) {n : Nat}
    (counted : System.Counted (program config) (fun s e => allow s e ∧ NotRedelivered id s e)
      (endings id) s s' n) : (outbox config).Reached allow s' ∧
      usedOf (s'.db.events.row id) = usedOf (s.db.events.row id) + n := by
  induction counted with
  | refl => exact ⟨reached, rfl⟩
  | step before taken allowed ih =>
    refine ⟨.step ih.1 taken allowed.1, ?_⟩
    rw [usedOf_step sole ih.1 taken allowed.2, ih.2, Nat.add_assoc]

/-- The life of an event in a run in which nobody claims what another worker still has. -/
theorem event_lifecycle (config : Config) {allow : Outbox → Event Request → Prop}
    (sole : ∀ s e, allow s e → SoleClaims s e) {s : Outbox}
    (reached : (outbox config).Reached allow s) (id : Id) :
    (∀ row, s.db.events.row id = some row → row.attemptFloor ≤ row.attempts ∧
      (row.deliveredAt = none ∨ row.deadLetteredAt = none)) ∧
    (∀ s' row, System.Reach (program config) allow s s' → s.db.events.row id = some row →
      ∃ row', s'.db.events.row id = some row' ∧ row.Continues row') ∧
    (∀ e log ws at_, s.committing (Q := Request) e = some (log, ws) →
      .close id (.delivered at_) ∈ ws → ∃ row, s.db.events.row id = some row ∧
        Accepted log (row.toOutboxEvent id)) ∧
    (∀ s' n, System.Counted (program config) (fun s e => allow s e ∧ NotRedelivered id s e)
      (endings id) s s' n → n ≤ config.maxAttempts) := by
  refine ⟨fun row stored => ?_, fun s' row later stored => outbox_continues reached later stored,
    ?_, fun s' n counted => ?_⟩
  · have lawful := outbox_lawful sole reached row stored
    exact ⟨lawful.floor, lawful.oneEnd⟩
  · intro e log ws at_ commits delivers
    obtain ⟨row, m, before, stored, _, _, rfl, accepted⟩ :=
      (outbox_held sole reached).closed reached commits delivers
    exact ⟨row, stored, Accepted.mono accepted
      (List.filter_sublist.trans (List.sublist_cons_self _ _))⟩
  · obtain ⟨there, used⟩ := endings_used sole reached counted
    cases after : s'.db.events.row id with
    | none =>
      rw [after] at used
      simp only [usedOf] at used
      omega
    | some row =>
      have within := (outbox_lawful sole there row after).within
      rw [after] at used
      simp only [usedOf] at used
      omega

end Lives

namespace Sample

def delivering : List (Slice Request) := prepared ++ [.start (.deliverDue 1), .work 2 0 16]

theorem event_lifecycle_delivers : ∃ (log : Log Db Watch) (row : EventRow),
    ((outbox config).after SoleClaims delivering).db.events.row claimed.id = some row ∧
      Accepted log (row.toOutboxEvent claimed.id) := by
  obtain ⟨log, ws, commits, closes⟩ := System.committing_any
    (s := (outbox config).after SoleClaims delivering) (e := Event.run (Q := Request) 2)
    (p := fun c => decide (.close claimed.id (.delivered 0) ∈ c.2)) (by decide +kernel)
  obtain ⟨_, _, delivered, _⟩ := event_lifecycle config (fun _ _ sole => sole)
    ((outbox config).after_reached SoleClaims delivering) claimed.id
  exact ⟨log, delivered _ log ws 0 commits (of_decide_eq_true closes)⟩

def twice : Config := { keys, maxAttempts := 2, ceiling := by decide }

def refusing : Circumstances := { sender := fun _ _ => .refused 500 7 ['x'] }

/-- The first pass is held up; its claim runs out and a second pass gets the event. -/
def overlapping : List (Slice Request) :=
  prepared ++ [.start (.deliverDue 1 refusing), .work 2 0 13, .start (.deliverDue 1 refusing),
    .work 3 (seconds 301) 16]

def resumed : List (Slice Request) := [.work 2 (seconds 302) 3]

def thirdPass : List (Slice Request) :=
    [.start (.deliverDue 1 refusing), .work 4 (seconds 86400) 16]

/-- Both passes take theirs for the first attempt of two, and a third pass follows. -/
theorem ceiling_passed : ∃ s s' n, (outbox twice).Reached (NotRedelivered claimed.id) s ∧
    System.Counted (program twice) (NotRedelivered claimed.id) (endings claimed.id) s s' n ∧
    twice.maxAttempts < n := by
  let allow := NotRedelivered claimed.id
  let close (i : Nat) (t : Int) : List (Slice Request) := [.work i (seconds t) 1]
  have first := (outbox twice).after_run allow overlapping (i := 3) (seconds 301)
    (by decide +kernel) (by decide +kernel)
  have second := (outbox twice).after_run allow (overlapping ++ close 3 301 ++ resumed) (i := 2)
    (seconds 302) (by decide +kernel) (by decide +kernel)
  have third := (outbox twice).after_run allow
    (overlapping ++ close 3 301 ++ resumed ++ close 2 302 ++ thirdPass) (i := 4) (seconds 86400)
    (by decide +kernel) (by decide +kernel)
  have none : System.Counted (program twice) allow (endings claimed.id)
    ((outbox twice).after allow overlapping) _ 0 := .refl
  obtain ⟨n₁, some₁, one⟩ := none.again .refl first (by decide +kernel) (by decide +kernel)
  obtain ⟨n₂, more₂, two⟩ := one.again ((outbox twice).after_later allow _ resumed) second
    (by decide +kernel) (by decide +kernel)
  obtain ⟨n₃, more₃, three⟩ := two.again ((outbox twice).after_later allow _ thirdPass) third
    (by decide +kernel) (by decide +kernel)
  exact ⟨_, _, n₃, (outbox twice).after_reached allow overlapping, three, by
    show 2 < n₃
    omega⟩

end Sample
end CryptoGateway.Webhooks
