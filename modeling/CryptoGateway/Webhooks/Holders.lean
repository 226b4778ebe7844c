import CryptoGateway.Engine.Histories
import CryptoGateway.Webhooks.Claims

/-!
Who has an event: the session that has claimed it and has still to close it. Only that session
records an attempt at it or closes it.
-/
namespace CryptoGateway.Webhooks
open Engine

abbrev Worker := Session Db Write Row Watch Failure Response

def Write.isClaim : Write → Bool
  | .claim _ _ => true
  | _ => false

def Write.closes (id : Id) : Write → Bool
  | .close k _ => decide (k = id)
  | _ => false

theorem closes_iff {id : Id} {ws : List Write} :
    ws.any (·.closes id) = true ↔ ∃ outcome, .close id outcome ∈ ws := by
  rw [List.any_eq_true]
  constructor
  · rintro ⟨w, mem, closes⟩
    cases w with
    | close k outcome =>
      obtain rfl : k = id := of_decide_eq_true closes
      exact ⟨outcome, mem⟩
    | _ => cases closes
  · rintro ⟨outcome, mem⟩
    exact ⟨_, mem, decide_eq_true rfl⟩

def owed (c : Worker) : List OutboxEvent :=
  if c.running && c.writes.all (!·.isClaim) then
    (claimedEvents c.log).filter fun event => decide (event ∉ closings c.log) ||
      (decide (c.log.head?.bind (·.1.closed) = some event) && c.writes.any (·.closes event.id))
  else []

structure Owing (log : Log Db Watch) (ws : List Write) (event : OutboxEvent) : Prop where
  final : ∀ w ∈ ws, w.isClaim = false
  claimed : event ∈ claimedEvents log
  left : event ∉ closings log ∨ log.head?.bind (·.1.closed) = some event ∧
    ∃ outcome, .close event.id outcome ∈ ws

theorem mem_owed {c : Worker} {event : OutboxEvent} :
    event ∈ owed c ↔ ¬c.Ended ∧ Owing c.log c.writes event := by
  have claims : c.writes.all (!·.isClaim) = true ↔ ∀ w ∈ c.writes, w.isClaim = false := by simp
  unfold owed
  split
  · rename_i both
    rw [Bool.and_eq_true, Session.running_iff, claims] at both
    rw [List.mem_filter, Bool.or_eq_true, Bool.and_eq_true, closes_iff, decide_eq_true_iff,
      decide_eq_true_iff]
    exact ⟨fun mem => ⟨both.1, both.2, mem.1, mem.2⟩, fun owes => ⟨owes.2.claimed, owes.2.left⟩⟩
  · rename_i other
    rw [Bool.and_eq_true, Session.running_iff, claims] at other
    simp only [List.not_mem_nil, false_iff]
    exact fun owes => other ⟨owes.1, owes.2.final⟩

section Shares
variable {log : Log Db Watch} {event : OutboxEvent} {merchant : Option Id}

theorem mem_closings_shareOf (own : event.merchantId = merchant) :
    event ∈ closings (shareOf log merchant) ↔ event ∈ closings log := by
  simp only [closings, shareOf, Log.of, List.mem_filterMap, List.mem_filter]
  constructor
  · rintro ⟨entry, ⟨mem, _⟩, closed⟩
    exact ⟨entry, mem, closed⟩
  · rintro ⟨⟨tag, m⟩, mem, closed⟩
    refine ⟨(tag, m), ⟨mem, ?_⟩, closed⟩
    cases tag <;> cases closed
    exact decide_eq_true (congrArg some own)

theorem mem_recordings_shareOf (own : event.merchantId = merchant) {endpointId : Id} :
    (event, endpointId) ∈ recordings (shareOf log merchant) ↔ (event, endpointId) ∈
    recordings log := by
  simp only [recordings, shareOf, Log.of, List.mem_filterMap, List.mem_filter]
  constructor
  · rintro ⟨entry, ⟨mem, _⟩, recorded⟩
    exact ⟨entry, mem, recorded⟩
  · rintro ⟨⟨tag, m⟩, mem, recorded⟩
    refine ⟨(tag, m), ⟨mem, ?_⟩, recorded⟩
    cases tag <;> cases recorded
    exact decide_eq_true (congrArg some own)

end Shares

section Turns
variable {config : Config} {log : Log Db Watch} {ws new : List Write} {tag : Option Watch}
  {m : Moment Db} {event : OutboxEvent}

theorem Pending.open_ {merchant : Option Id}
    (pending : Pending ((claimedEvents log).filter fun e => e.merchantId = merchant)
      (shareOf log merchant) event) : event ∈ claimedEvents log ∧ event.merchantId = merchant ∧
      event ∉ closings log := by
  obtain ⟨claimed, own⟩ := List.mem_filter.mp pending.listed
  have own := of_decide_eq_true own
  exact ⟨claimed, own, fun closed => pending.unclosed ((mem_closings_shareOf own).mpr closed)⟩

theorem Owing.note {t : Watch} (owing : Owing ((t, m) :: log) ws event) (batch : t.batch = [])
    (closed : t.closed = none) : Owing log [] event where
  final := by simp
  claimed := by simpa [claimedEvents, batch] using owing.claimed
  left := by simpa [closings, closed] using owing.left

theorem Owing.move (may : Move config tag log ws new)
    (owing : Owing (record tag m log) (ws ++ new) event) : Owing log ws event := by
  have final : ∀ w ∈ ws, w.isClaim = false :=
    fun w mem => owing.final w (List.mem_append_left _ mem)
  cases may with
  | aside other =>
    refine ⟨final, owing.claimed, .inl (owing.left.resolve_right ?_)⟩
    rintro ⟨_, outcome, closes⟩
    cases other _ closes
  | claim => exact absurd owing.claimed (by simp [record, claimedEvents])
  | @claimed call batch =>
    have listed : event ∈ batch := by
      simpa [record, claimedEvents, Watch.batch] using owing.claimed
    cases final _ (List.mem_map_of_mem listed)
  | share merchant move =>
    -- a step of a share claims nothing, and closes at most the event that it is at
    cases move with
    | plain => exact owing
    | closing pending justified =>
      obtain ⟨claimed, _, unclosed⟩ := pending.open_
      refine ⟨by simp, by simpa [record, claimedEvents, Watch.batch] using owing.claimed, .inl ?_⟩
      rcases owing.left with never | ⟨here, _⟩
      · exact fun mem => never (List.mem_cons_of_mem _ mem)
      · cases here
        exact unclosed
    | missing pending =>
      refine ⟨by simp, by simpa [record, claimedEvents, Watch.batch] using owing.claimed, .inl ?_⟩
      rcases owing.left with never | ⟨_, outcome, closes⟩
      · exact fun mem => never (List.mem_cons_of_mem _ mem)
      · simp at closes
    | _ => exact owing.note rfl rfl

theorem Owing.rollback (may : Move config none log ws new) (nothing : new = [])
    (owing : Owing log [] event) : Owing log ws event := by
  have left : event ∉ closings log := owing.left.resolve_right (by simp)
  cases may with
  | aside other =>
    refine ⟨fun w mem => ?_, owing.claimed, .inl left⟩
    have apart := other w (List.mem_append_left _ mem)
    cases w <;> first | rfl | cases apart
  | claim => exact absurd owing.claimed (by simp [claimedEvents])
  | share merchant move => cases move; exact owing

theorem Owing.commit (may : Commit config log ws) (owing : Owing log [] event) :
    Owing log ws event ∨ ∃ call, .claim event call ∈ ws := by
  have left : event ∉ closings log := owing.left.resolve_right (by simp)
  by_cases claims : ∃ other call, .claim other call ∈ ws
  · obtain ⟨other, call, mem⟩ := claims
    obtain ⟨batch, m, rfl, rfl⟩ := may.claims mem
    refine .inr ⟨call, List.mem_map_of_mem ?_⟩
    simpa [claimedEvents, Watch.batch] using owing.claimed
  · refine .inl ⟨fun w mem => ?_, owing.claimed, .inl left⟩
    cases w with
    | claim other call => exact absurd ⟨other, call, mem⟩ claims
    | _ => rfl

theorem owed_origin {s : Outbox} {e : Event Request} {i : Nat} {c' : Worker}
    (origin : Session.Origin (Move config) (Commit config) (program config) s e i c')
    (mem : event ∈ owed c') : (∃ c, s.sessions[i]? = some c ∧ event ∈ owed c) ∨
      e = .run i ∧ ∃ log ws call, s.committing e = some (log, ws) ∧ .claim event call ∈ ws := by
  obtain ⟨running, owing⟩ := mem_owed.mp mem
  cases origin with
  | new absent q fresh => exact absurd owing.claimed (by simp [fresh, claimedEvents])
  | same found => exact .inl ⟨c', found, mem⟩
  | @turned c found ended turn =>
    refine .inl ⟨c, found, mem_owed.mpr ⟨fun over_ => running (ended over_), ?_⟩⟩
    cases turn with
    | still log writes => exact log ▸ writes ▸ owing
    | moved may log writes =>
      rw [log, writes] at owing
      exact owing.move may
    | dropped may log writes =>
      rw [log, writes] at owing
      rcases may with may | gone
      · exact owing.rollback may rfl
      · exact absurd (fun p code => by cases gone.symm.trans code) running
  | @committed c found alive own commits may log writes =>
    rw [log, writes] at owing
    rcases owing.commit may with before | ⟨call, claims⟩
    · exact .inl ⟨c, found, mem_owed.mpr ⟨alive, before⟩⟩
    · exact .inr ⟨own, _, _, call, commits, claims⟩

inductive Writing (config : Config) : Log Db Watch → List Write → Prop where
  | claims {log : Log Db Watch} {batch : List OutboxEvent} {call : ClaimCall} :
      Writing config log (batch.map (.claim · call))
  | records {log : Log Db Watch} {m : Moment Db} {event : OutboxEvent} {endpointId : Id}
      {row : DeliveryRow} (claimed : event ∈ claimedEvents log) (unclosed : event ∉ closings log)
      (first : (event, endpointId) ∉ recordings log) :
      Writing config ((.recording event endpointId, m) :: log)
        [.putDelivery ⟨event.id, endpointId, event.attempts + 1⟩ row]
  | closes {log : Log Db Watch} {m : Moment Db} {event : OutboxEvent} {outcome : Outcome}
      (claimed : event ∈ claimedEvents log) (unclosed : event ∉ closings log)
      (justified : Justified config (shareOf log event.merchantId) event outcome) :
      Writing config ((.closing event, m) :: log) [.close event.id outcome]

theorem conducted_writing {c : Worker} (conducted : c.Conducted (Move config)) {w : Write}
    (mem : w ∈ c.writes) (own : w.ofPass = true) : Writing config c.log c.writes := by
  rcases conducted.writes with none | ⟨tag, m, log, ws, new, may, remembers, writes⟩
  · simp [none] at mem
  rw [writes] at mem ⊢
  rw [remembers]
  cases may with
  | aside other => cases own.symm.trans (other w mem)
  | claim => exact .claims
  | claimed =>
    rw [List.append_nil]
    exact .claims
  | share merchant move =>
    cases move with
    | recording pending first =>
      obtain ⟨claimed, rfl, unclosed⟩ := pending.open_
      exact .records claimed unclosed (mt (mem_recordings_shareOf rfl).mpr first)
    | closing pending justified =>
      obtain ⟨claimed, rfl, unclosed⟩ := pending.open_
      exact .closes claimed unclosed justified
    | _ => simp at mem

theorem Writing.recording {key : DeliveryKey} {row : DeliveryRow} (writing : Writing config log ws)
    (mem : .putDelivery key row ∈ ws) : ∃ (event : OutboxEvent) (endpointId : Id) (m : Moment Db)
      (before : Log Db Watch), key = ⟨event.id, endpointId, event.attempts + 1⟩ ∧
      ws = [.putDelivery key row] ∧ log = (.recording event endpointId, m) :: before ∧
      (event, endpointId) ∉ recordings before ∧ Owing log ws event := by
  cases writing with
  | claims => simp at mem
  | closes => simp at mem
  | @records log m event endpointId _ claimed unclosed first =>
    obtain ⟨rfl, rfl⟩ := Write.putDelivery.inj (List.mem_singleton.mp mem)
    refine ⟨event, endpointId, m, log, rfl, rfl, rfl, first, ?_, ?_, .inl unclosed⟩
    · simp [Write.isClaim]
    · simpa [claimedEvents, Watch.batch] using claimed

theorem Writing.closing {id : Id} {outcome : Outcome} (writing : Writing config log ws)
    (mem : .close id outcome ∈ ws) : ∃ (event : OutboxEvent) (m : Moment Db)
      (before : Log Db Watch), event.id = id ∧ ws = [.close id outcome] ∧
      log = (.closing event, m) :: before ∧
      Justified config (shareOf before event.merchantId) event outcome ∧ Owing log ws event := by
  cases writing with
  | claims => simp at mem
  | records => simp at mem
  | @closes log m event _ claimed unclosed justified =>
    obtain ⟨rfl, rfl⟩ := Write.close.inj (List.mem_singleton.mp mem)
    refine ⟨event, m, log, rfl, rfl, rfl, justified, ?_, ?_, .inr ⟨rfl, _, List.mem_cons_self⟩⟩
    · simp [Write.isClaim]
    · simpa [claimedEvents, Watch.batch] using claimed

end Turns

section Runs
variable {config : Config} {db : Db} {allow : Outbox → Event Request → Prop} {s s' : Outbox}
  {e : Event Request} {i : Nat} {c : Worker} {log : Log Db Watch} {ws : List Write}

theorem outbox_writing (reached : (outbox config db).Reached allow s)
    (commits : s.committing e = some (log, ws)) {w : Write} (mem : w ∈ ws)
    (own : w.ofPass = true) : ∃ i c, e = .run i ∧ s.sessions[i]? = some c ∧ c.log = log ∧
      c.writes = ws ∧ ¬c.Ended ∧ Writing config log ws := by
  cases e with
  | run i =>
    simp only [System.committing] at commits
    split at commits
    · rename_i found
      cases commits
      refine ⟨i, _, rfl, found, rfl, rfl, Session.not_ended rfl
        (by simp [Proc.Succeeded, Proc.Failed]), ?_⟩
      exact conducted_writing (reached.conducted (program_acts config) rfl found) mem own
    · cases commits
  | _ => cases commits

theorem outbox_origin (reached : (outbox config db).Reached allow s)
    (taken : s.step (program config) e = some s') (found : s'.sessions[i]? = some c) :
    Session.Origin (Move config) (Commit config) (program config) s e i c :=
  (System.step_turn (reached.acting (program_acts config) rfl) taken).origin found

/-- Session `i` has committed a claim of the event since `s₁`. -/
def ClaimedSince (config : Config) (allow : Outbox → Event Request → Prop) (id : Id) (i : Nat)
    (s₁ s : Outbox) : Prop :=
  ∃ (s₂ s₃ : Outbox) (log : Log Db Watch) (ws : List Write) (event : OutboxEvent)
    (call : ClaimCall), System.Reach (program config) allow s₁ s₂ ∧
    s₂.committing (Event.run (Q := Request) i) = some (log, ws) ∧ .claim event call ∈ ws ∧
    event.id = id ∧ s₂.step (program config) (.run i) = some s₃ ∧
    System.Reach (program config) allow s₃ s

theorem ClaimedSince.step {id : Id} {s₁ : Outbox} (claimed : ClaimedSince config allow id i s₁ s)
    (taken : s.step (program config) e = some s') (allowed : allow s e) :
    ClaimedSince config allow id i s₁ s' := by
  obtain ⟨s₂, s₃, log, ws, event, call, first, commits, claims, same, claiming, later⟩ := claimed
  exact ⟨s₂, s₃, log, ws, event, call, first, commits, claims, same, claiming,
    .step later taken allowed⟩

def Unattended (id : Id) (s : Outbox) : Prop := ∀ c ∈ s.sessions, ∀ event ∈ owed c, event.id ≠ id

instance (id : Id) (s : Outbox) : Decidable (Unattended id s) :=
  inferInstanceAs (Decidable (∀ c ∈ s.sessions, ∀ event ∈ owed c, event.id ≠ id))

theorem owed_claimedSince {id : Id} {s₁ : Outbox} (reached : (outbox config db).Reached allow s₁)
    (unattended : Unattended id s₁) (later : System.Reach (program config) allow s₁ s)
    (found : s.sessions[i]? = some c) {event : OutboxEvent} (mem : event ∈ owed c)
    (same : event.id = id) : ClaimedSince config allow id i s₁ s := by
  induction later generalizing c with
  | refl => exact absurd same (unattended c (List.mem_of_getElem? found) event mem)
  | @step s₂ s₃ e before taken allowed ih =>
    rcases owed_origin (outbox_origin (reached.trans before) taken found) mem with
      ⟨d, stored, had⟩ | ⟨rfl, log, ws, call, commits, claims⟩
    · exact (ih stored had).step taken allowed
    · exact ⟨s₂, s₃, log, ws, event, call, before, commits, claims, same, taken, .refl⟩

/-- A redelivery that finds nobody with the event is not lost: whatever closes the event
    later is a pass that has claimed it since. -/
theorem redelivery_not_lost (config : Config) (db : Db) {allow : Outbox → Event Request → Prop}
    {s₀ s₁ s : Outbox} {e : Event Request} {log₀ log : Log Db Watch} {ws₀ ws : List Write} {id : Id}
    {at_ : Int} {endpointId : Option Id} {i : Nat} {outcome : Outcome}
    (reached : (outbox config db).Reached allow s₀) (unattended : Unattended id s₀)
    (redelivers : s₀.committing e = some (log₀, ws₀)) (requeues : .requeue id at_ endpointId ∈ ws₀)
    (allowed : allow s₀ e) (taken : s₀.step (program config) e = some s₁)
    (later : System.Reach (program config) allow s₁ s)
    (commits : s.committing (Event.run (Q := Request) i) = some (log, ws))
    (closes : .close id outcome ∈ ws) : ClaimedSince config allow id i s₁ s := by
  have started : (outbox config db).Reached allow s₁ := .step reached taken allowed
  have still : Unattended id s₁ := by
    intro c mem event owes same
    obtain ⟨j, found⟩ := List.getElem?_of_mem mem
    rcases owed_origin (outbox_origin reached taken found) owes with
      ⟨d, stored, had⟩ | ⟨rfl, log, ws, call, claiming, claims⟩
    · exact unattended d (List.mem_of_getElem? stored) event had same
    · cases claiming.symm.trans redelivers
      obtain ⟨batch, m, _, rfl⟩ := (outbox_commits reached redelivers).1.claims claims
      simp at requeues
  obtain ⟨_, c, ⟨⟩, found, rfl, rfl, running, writing⟩ :=
    outbox_writing (started.trans later) commits closes rfl
  obtain ⟨event, _, _, same, _, _, _, owing⟩ := writing.closing closes
  exact owed_claimedSince started still later found (mem_owed.mpr ⟨running, owing⟩) same

theorem not_claimedSince {id : Id} {s₁ : Outbox} (reached : (outbox config db).Reached allow s₁)
    (found : s₁.sessions[i]? = some c) (long : 1 < c.log.length) :
    ¬ClaimedSince config allow id i s₁ s := by
  rintro ⟨s₂, _, log, ws, event, call, first, commits, claims, _⟩
  obtain ⟨batch, m, rfl, _⟩ := (outbox_commits (reached.trans first) commits).1.claims claims
  obtain ⟨d, there, suffix⟩ := System.Reach.remembers found first
  obtain ⟨_, d', ⟨⟩, found', log_eq, _⟩ := outbox_writing (reached.trans first) commits claims rfl
  cases there.symm.trans found'
  have short := suffix.length_le
  rw [log_eq] at short
  simp only [List.length_singleton] at short
  omega

end Runs

namespace Sample

def prepared : List (Slice Request) :=
  published ++ whole 1 0 (.addEndpoint ['a'] 1 "https://m".toList)

def redeliver : Request :=
  .redeliver (.admin ['a']) "0123456789abcdef".toList ⟨claimed.id, none, ['r']⟩

def outlasted : List (Slice Request) :=
  prepared ++ [.start (.deliverDue 1), .work 2 0 13] ++ whole 3 (seconds 301) (.deliverDue 1) ++
    [.start redeliver, .work 4 (seconds 302) 12]

def requeued : List (Slice Request) := outlasted ++ [.work 4 (seconds 302) 1]

/-- The first pass marks the event delivered that was queued after it had sent it. -/
theorem redelivery_lost : ∃ (s₀ s₁ s : Outbox) (e : Event Request) (log₀ log : Log Db Watch)
    (ws₀ ws : List Write) (at_ : Int) (outcome : Outcome),
    (outbox config).Reached anyStep s₀ ∧ s₀.committing e = some (log₀, ws₀) ∧
    .requeue claimed.id at_ none ∈ ws₀ ∧ s₀.step (program config) e = some s₁ ∧
    System.Reach (program config) anyStep s₁ s ∧
    s.committing (Event.run (Q := Request) 2) = some (log, ws) ∧ .close claimed.id outcome ∈ ws ∧
    ¬ClaimedSince config anyStep claimed.id 2 s₁ s := by
  obtain ⟨log₀, ws₀, redelivers, requeues⟩ := System.committing_any
    (s := (outbox config).after anyStep outlasted) (e := Event.run (Q := Request) 4)
    (p := fun c => decide (.requeue claimed.id (seconds 302) none ∈ c.2)) (by decide +kernel)
  obtain ⟨log, ws, commits, closes⟩ := System.committing_any
    (s := (outbox config).after anyStep (requeued ++ [.work 2 (seconds 303) 3]))
    (e := Event.run (Q := Request) 2)
    (p := fun c => decide (.close claimed.id (.delivered (seconds 303)) ∈ c.2)) (by decide +kernel)
  have long : (((outbox config).after anyStep requeued).sessions[2]?).any
      (1 < ·.log.length) = true := by decide +kernel
  refine ⟨_, _, _, .run 4, log₀, log, ws₀, ws, _, _, (outbox config).after_reached
    anyStep outlasted,
    redelivers, of_decide_eq_true requeues,
    (outbox config).after_run anyStep outlasted (seconds 302) trivial (by decide +kernel),
    (outbox config).after_later anyStep requeued _, commits, of_decide_eq_true closes, ?_⟩
  obtain ⟨c, found, more⟩ := any_some long
  exact not_claimedSince ((outbox config).after_reached anyStep requeued) found
    (of_decide_eq_true more)

def ended : List (Slice Request) :=
  prepared ++ whole 2 0 (.deliverDue 1) ++ [.start redeliver, .work 3 (seconds 10) 12]

def again : List (Slice Request) := ended ++ [.work 3 (seconds 10) 1]

theorem redelivery_not_lost_second_pass :
    ∃ s₁ s, ClaimedSince config anyStep claimed.id 4 s₁ s := by
  obtain ⟨log₀, ws₀, redelivers, requeues⟩ := System.committing_any
    (s := (outbox config).after anyStep ended) (e := Event.run (Q := Request) 3)
    (p := fun c => decide (.requeue claimed.id (seconds 10) none ∈ c.2)) (by decide +kernel)
  obtain ⟨log, ws, commits, closes⟩ := System.committing_any
    (s := (outbox config).after anyStep
      (again ++ [.start (.deliverDue 1), .work 4 (seconds 20) 16]))
    (e := Event.run (Q := Request) 4)
    (p := fun c => decide (.close claimed.id (.delivered (seconds 20)) ∈ c.2)) (by decide +kernel)
  exact ⟨_, _, redelivery_not_lost config {} ((outbox config).after_reached anyStep ended)
    (by decide +kernel) redelivers (of_decide_eq_true requeues) trivial
    ((outbox config).after_run anyStep ended (seconds 10) trivial (by decide +kernel))
    ((outbox config).after_later anyStep again _) commits (of_decide_eq_true closes)⟩

end Sample
end CryptoGateway.Webhooks
