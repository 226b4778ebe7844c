import CryptoGateway.Webhooks.Passes

/-!
Claims on events: a claim keeps every other worker off the event until it runs out or is taken off
it.
-/
namespace CryptoGateway.Webhooks
open Engine

inductive EventStep (ws : List Write) (id : Id) : Option EventRow → Option EventRow → Prop where
  | same {row : Option EventRow} : EventStep ws id row row
  | published {row : EventRow} (unsent : row.Unsent) : EventStep ws id none (some row)
  | claimed {row : EventRow} {call : ClaimCall}
      (claims : .claim (row.toOutboxEvent id) call ∈ ws) (visible : 0 < call.visibilitySeconds)
      (due : row.dueAt call.now = true) : EventStep ws id (some row) (some (row.claim call))
  | closed {row : EventRow} {outcome : Outcome} (closes : .close id outcome ∈ ws)
      (isOpen : row.isOpen = true) : EventStep ws id (some row) (some (row.close outcome))
  | requeued {row : EventRow} {at_ : Int} {endpointId : Option Id}
      (requeues : .requeue id at_ endpointId ∈ ws) (ended : row.isOpen = false) :
      EventStep ws id (some row) (some (row.requeue at_ endpointId))

theorem claim_applyAll (batch : List OutboxEvent) (call : ClaimCall) (db : Db) (id : Id) :
    (applyAll (batch.map (Write.claim · call)) db).events.row id =
      if id ∈ batch.map (·.id) then (db.events.row id).map (·.claim call)
      else db.events.row id := by
  rw [events_applyAll]
  generalize db.events.row id = row
  induction batch generalizing row with
  | nil => rfl
  | cons event rest ih =>
    rw [List.map_cons, List.foldl_cons, ih, List.map_cons]
    by_cases same : event.id = id
    · -- a second claim by the same call changes nothing
      cases row <;> simp [Write.onEvent, same, EventRow.claim]
    · simp [Write.onEvent, same, Ne.symm same]

section Effects
variable {config : Config} {db : Db} {ws : List Write}

theorem Effect.event (effect : Effect config db ws) (id : Id) :
    EventStep ws id (db.events.row id) ((applyAll ws db).events.row id) := by
  cases effect with
  | idle => exact .same
  | @publish key row absent unsent =>
    rw [events_applyAll]
    by_cases own : key = id
    · cases own
      simpa [Write.onEvent, absent] using EventStep.published unsent
    · simpa [Write.onEvent, own] using EventStep.same
  | @claim call batch visible hands =>
    rw [claim_applyAll]
    split
    · rename_i listed
      obtain ⟨event, mem, rfl⟩ := List.mem_map.mp listed
      obtain ⟨row, stored, due, eq⟩ := hands.due event mem
      rw [stored]
      refine .claimed (List.mem_map.mpr ⟨event, mem, ?_⟩) visible due
      rw [← eq]
    · exact .same
  | @close key row outcome stored isOpen =>
    rw [events_applyAll]
    by_cases own : key = id
    · cases own
      rw [stored]
      simpa [Write.onEvent] using EventStep.closed List.mem_cons_self isOpen
    · simpa [Write.onEvent, own] using EventStep.same
  | record => rw [events_applyAll]; exact .same
  | @redeliver key endpointId at_ principal text row event stored ended =>
    rw [events_applyAll]
    by_cases own : key = id
    · cases own
      rw [stored]
      simpa [Write.onEvent] using EventStep.requeued List.mem_cons_self ended
    · simpa [Write.onEvent, own] using EventStep.same
  | register => rw [events_applyAll]; exact .same
  | rotate => rw [events_applyAll]; exact .same
  | disable => rw [events_applyAll]; exact .same

variable {event : OutboxEvent}

theorem claim_batch {batch : List OutboxEvent} {call call' : ClaimCall}
    (mem : Write.claim event call ∈ batch.map (Write.claim · call')) :
    call' = call ∧ event ∈ batch := by
  obtain ⟨_, listed, ⟨⟩⟩ := List.mem_map.mp mem
  exact ⟨rfl, listed⟩

theorem Effect.claims (effect : Effect config db ws) {call : ClaimCall}
    (mem : .claim event call ∈ ws) : ∃ batch, ws = batch.map (.claim · call) ∧
      0 < call.visibilitySeconds ∧ db.Hands call batch := by
  cases effect with
  | claim visible hands =>
    obtain ⟨rfl, _⟩ := claim_batch mem
    exact ⟨_, rfl, visible, hands⟩
  | _ => simp at mem

theorem Commit.claims {log : Log Db Watch} (commit : Commit config log ws)
    {call : ClaimCall} (mem : .claim event call ∈ ws) :
    ∃ batch m, log = [(.claimed batch, m)] ∧ ws = batch.map (.claim · call) := by
  cases commit with
  | aside other => exact absurd (other _ mem) (by simp [Write.ofPass])
  | claim =>
    obtain ⟨rfl, _⟩ := claim_batch mem
    exact ⟨_, _, rfl, rfl⟩
  | share merchant commit => cases commit <;> simp at mem

end Effects

section Runs
variable {config : Config} {db : Db} {allow : Outbox → Event Request → Prop} {s s' : Outbox}
  {e : Event Request} {log : Log Db Watch} {ws : List Write}

theorem outbox_commits (reached : (outbox config db).Reached allow s)
    (commits : s.committing e = some (log, ws)) : Commit config log ws ∧ Effect config s.db ws :=
  ⟨(reached.acting (program_acts config) rfl).commits commits,
    ((outbox config db).sound reached).effect commits⟩

def Write.releases (id : Id) : Write → Bool
  | .close k _ => decide (k = id)
  | .requeue k _ _ => decide (k = id)
  | _ => false

def Unreleased (id : Id) : Outbox → Event Request → Prop :=
  OnCommit fun _ _ ws => ∀ w ∈ ws, w.releases id = false

/-- Earlier in the run `call` claimed the event, and the claim has not been released since. -/
def StandingClaim (config : Config) (db : Db) (allow : Outbox → Event Request → Prop) (id : Id)
    (call : ClaimCall) (s : Outbox) : Prop :=
  ∃ (s₀ s₁ : Outbox) (e : Event Request) (log : Log Db Watch) (ws : List Write)
    (event : OutboxEvent), (outbox config db).Reached allow s₀ ∧ allow s₀ e ∧
    s₀.committing e = some (log, ws) ∧ .claim event call ∈ ws ∧ event.id = id ∧
    s₀.step (program config) e = some s₁ ∧
    System.Reach (program config) (fun s e => allow s e ∧ Unreleased id s e) s₁ s

/-- The event is kept from other workers until `until_`. -/
def KeptUntil (id : Id) (until_ : Int) (db : Db) : Prop :=
  ∃ row claimed, db.events.row id = some row ∧ row.claimedUntil = some claimed ∧ until_ ≤ claimed

theorem EventRow.claimed_lt {row : EventRow} {now claimed : Int} (due : row.dueAt now = true)
    (stored : row.claimedUntil = some claimed) : claimed < now := by
  simp only [EventRow.dueAt, Bool.and_eq_true, stored, Option.all_some, decide_eq_true_eq] at due
  exact due.2

theorem ClaimCall.now_lt_claimedUntil {call : ClaimCall} (visible : 0 < call.visibilitySeconds) :
    call.now < call.claimedUntil := by
  unfold ClaimCall.claimedUntil
  omega

theorem KeptUntil.commit {id : Id} {until_ : Int} (kept : KeptUntil id until_ s.db)
    (effect : Effect config s.db ws) (unreleased : ∀ w ∈ ws, w.releases id = false) :
    KeptUntil id until_ (applyAll ws s.db) := by
  obtain ⟨row, claimed, stored, standing, least⟩ := kept
  have step := effect.event id
  unfold KeptUntil
  generalize (applyAll ws s.db).events.row id = row' at step
  rw [stored] at step
  cases step with
  | same => exact ⟨row, claimed, rfl, standing, least⟩
  | @claimed _ call claims visible due =>
    have expired := EventRow.claimed_lt due standing
    have new := ClaimCall.now_lt_claimedUntil visible
    exact ⟨_, call.claimedUntil, rfl, rfl, by omega⟩
  | closed closes => exact absurd (unreleased _ closes) (by simp [Write.releases])
  | requeued requeues => exact absurd (unreleased _ requeues) (by simp [Write.releases])

theorem StandingClaim.keptUntil {id : Id} {call : ClaimCall}
    (standing : StandingClaim config db allow id call s) : KeptUntil id call.claimedUntil s.db := by
  obtain ⟨s₀, s₁, e, log, ws, event, reached, allowed, commits, claims, rfl, taken,
    later⟩ := standing
  have first : (outbox config db).Reached allow s₁ := .step reached taken allowed
  have claimed : KeptUntil event.id call.claimedUntil s₁.db := by
    obtain ⟨batch, rfl, _, hands⟩ := (outbox_commits reached commits).2.claims claims
    have listed := (claim_batch claims).2
    obtain ⟨row, stored, _⟩ := hands.due event listed
    rcases System.step_db taken with ⟨none, _⟩ | ⟨_, _, commits', moved⟩
    · cases none.symm.trans commits
    · cases commits'.symm.trans commits
      refine ⟨row.claim call, call.claimedUntil, ?_, rfl, Int.le_refl _⟩
      rw [moved, claim_applyAll, if_pos (List.mem_map_of_mem listed), stored]
      rfl
  have both : (outbox config db).Reached allow s ∧ KeptUntil event.id call.claimedUntil s.db := by
    induction later with
    | refl => exact ⟨first, claimed⟩
    | @step s s' e before taken allowed ih =>
      refine ⟨.step ih.1 taken allowed.1, ?_⟩
      rcases System.step_db taken with ⟨_, same⟩ | ⟨log, ws, commits, moved⟩
      · rw [same]; exact ih.2
      · rw [moved]
        exact ih.2.commit (outbox_commits ih.1 commits).2 (allowed.2 log ws commits)
  exact both.2

/-- However the workers interleave: a commit that claims an event claims the batch its session was
    just handed, within the limits of the call and with every event due in the store; and no claim
    that still stands on the event reaches the time of the call. -/
theorem claims_exclude (config : Config) (db : Db) {allow : Outbox → Event Request → Prop}
    {s : Outbox} {e : Event Request} {log : Log Db Watch} {ws : List Write} {event : OutboxEvent}
    {call : ClaimCall} (reached : (outbox config db).Reached allow s)
    (commits : s.committing e = some (log, ws)) (claims : .claim event call ∈ ws) :
    (∃ batch m, log = [(.claimed batch, m)] ∧ ws = batch.map (.claim · call) ∧
      s.db.Hands call batch) ∧
    ∀ earlier, StandingClaim config db allow event.id earlier s →
      earlier.claimedUntil < call.now := by
  obtain ⟨commit, effect⟩ := outbox_commits reached commits
  obtain ⟨batch, m, rfl, rfl⟩ := commit.claims claims
  obtain ⟨batch', same, _, hands⟩ := effect.claims claims
  have injective : Function.Injective (Write.claim · call) := by
    rintro a b ⟨⟩
    rfl
  cases List.map_injective_iff.mpr injective same
  refine ⟨⟨batch, m, rfl, rfl, hands⟩, fun earlier standing => ?_⟩
  obtain ⟨row, claimed, stored, until_, least⟩ := standing.keptUntil
  obtain ⟨row', stored', due, _⟩ := hands.due event (claim_batch claims).2
  cases stored.symm.trans stored'
  have expired := EventRow.claimed_lt due until_
  omega

end Runs

namespace Sample

def anyStep (_ : Outbox) (_ : Event Request) : Prop := True

instance (s : Outbox) (e : Event Request) : Decidable (anyStep s e) := .isTrue trivial

instance (id : Id) (s : Outbox) (e : Event Request) : Decidable (Unreleased id s e) :=
  inferInstanceAs (Decidable (OnCommit _ s e))

def seconds (n : Int) : Int := n * 1000000

def keys : Keys where
  derive version _ _ := List.replicate version 's'
  fingerprint := id
  mac secret _ _ := secret

def config : Config := { keys, maxAttempts := 3, ceiling := by decide }

/-- A session from its start to its end, while its clock shows `t`. -/
def whole (i : Nat) (t : Int) (request : Request) : List (Slice Request) :=
  [.start request, .work i t 99]

def published : List (Slice Request) := whole 0 0 (.publish .webhook (some 1) [] [] 0 [])

def callAt (now : Int) : ClaimCall := ⟨[], 1, 1, 300, now⟩

def claimed : OutboxEvent := ⟨0, some 1, [], [], 0, [], 0, 0, none, 0⟩

def claiming : List (Slice Request) := published ++ [.start (.claimDue (callAt 0)), .work 1 0 3]

def reclaiming : Outbox :=
  ((outbox config).after anyStep (claiming ++ [.work 1 0 1])).perform (program config)
    (fun s e => anyStep s e ∧ Unreleased claimed.id s e)
    [.start (.claimDue (callAt (seconds 301))), .work 2 0 3]

theorem reclaiming_reached : (outbox config).Reached anyStep reclaiming := by
  have later : System.Reach (program config) (fun s e => anyStep s e ∧ Unreleased claimed.id s e)
      ((outbox config).after anyStep (claiming ++ [.work 1 0 1])) reclaiming := .perform _ .refl
  exact ((outbox config).after_reached anyStep _).trans (later.mono fun _ _ both => both.1)

theorem claim_stands : StandingClaim config {} anyStep claimed.id (callAt 0) reclaiming := by
  obtain ⟨log, ws, commits, mem⟩ := System.committing_any
    (s := (outbox config).after anyStep claiming) (e := Event.run (Q := Request) 1)
    (p := fun c => decide (.claim claimed (callAt 0) ∈ c.2)) (by decide +kernel)
  exact ⟨_, _, .run 1, log, ws, claimed, (outbox config).after_reached anyStep claiming, trivial,
    commits, of_decide_eq_true mem, rfl,
    (outbox config).after_run anyStep claiming 0 trivial (by decide +kernel), .perform _ .refl⟩

/-- A second worker gets the event one second after the first one's claim has run out. -/
theorem claims_exclude_second : ∃ (e : Event Request) (log : Log Db Watch) (ws : List Write),
    reclaiming.committing e = some (log, ws) ∧
    .claim claimed (callAt (seconds 301)) ∈ ws ∧
    (∃ batch m, log = [(.claimed batch, m)] ∧ ws = batch.map (.claim · (callAt (seconds 301))) ∧
      reclaiming.db.Hands (callAt (seconds 301)) batch) ∧
    (callAt 0).claimedUntil < (callAt (seconds 301)).now := by
  obtain ⟨log, ws, commits, mem⟩ := System.committing_any (s := reclaiming)
    (e := Event.run (Q := Request) 2)
    (p := fun c => decide (.claim claimed (callAt (seconds 301)) ∈ c.2)) (by decide +kernel)
  have claims := of_decide_eq_true mem
  obtain ⟨handed, expired⟩ := claims_exclude config {} reclaiming_reached commits claims
  exact ⟨.run 2, log, ws, commits, claims, handed, expired _ claim_stands⟩

end Sample
end CryptoGateway.Webhooks
