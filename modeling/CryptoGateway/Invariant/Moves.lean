import CryptoGateway.Invariant.Lifecycle

/-!
Which transaction moves an attempt or an intent to which status, and what it
found before it did.
-/
namespace CryptoGateway
open Engine

/-- The transactions that set the status of attempt `a`. -/
inductive AttemptMove (config : Config) (log : Log Db Watch) (db : Db) (ws : List Write) (a : Id) :
    AttemptStatus → Prop where
  | settle (p : Payment) (sound : p.Sound config log db) (all : ws = p.writes db)
      (completes : p.completes = true) (of : a = p.command.attemptId) :
      AttemptMove config log db ws a .settled
  | expire (x : Sweep) (sound : x.Sound log db) (e : Expiry) (listed : e ∈ x.expired)
      (of : a = e.attemptId) : AttemptMove config log db ws a .expired
  | cancel {row : AttemptRow} (found : db.attempts.row a = some row)
      (live : row.status = .awaitingPayment) : AttemptMove config log db ws a .cancelled

/-- The transactions that set the status of intent `i`. -/
inductive IntentMove (config : Config) (log : Log Db Watch) (db : Db) (ws : List Write) (i : Id) :
    PaymentIntentStatus → Prop where
  | pay (p : Payment) {status : PaymentIntentStatus} (sound : p.Sound config log db)
      (all : ws = p.writes db) (of : i = p.command.paymentIntentId)
      (target : status = if p.completes then .paid else .partiallyPaid) :
      IntentMove config log db ws i status
  | issue (q : Issue) (sound : q.Sound log db) (all : ws = q.writes)
      (of : i = q.plan.paymentIntentId) : IntentMove config log db ws i .awaitingPayment
  | cancel {intent : IntentRow} (found : db.intents.row i = some intent)
      (cancellable : intent.status ∈ cancellableStates) (untouched : db.decidedOrClaimed i = false)
      (closed : ∀ a row, db.attempts.row a = some row → row.paymentIntentId = i →
        row.status = .awaitingPayment → .setAttemptStatus a .cancelled ∈ ws) :
      IntentMove config log db ws i .cancelled
  | expire (x : Sweep) (sound : x.Sound log db) (e : Expiry) (listed : e ∈ x.expired)
      (closes : e.closesIntent = true) (of : i = e.attempt.paymentIntentId)
      (closed : .setAttemptStatus e.attemptId .expired ∈ ws) :
      IntentMove config log db ws i .expired

def settledAttempts (ws : List Write) : List Id :=
  ws.filterMap fun
    | .setAttemptStatus attempt .settled => some attempt
    | _ => none

section
variable {config : Config} {log : Log Db Watch} {db : Db} {ws : List Write}

namespace Payment
variable {p : Payment}

theorem setAttemptStatus_mem {a : Id} {status : AttemptStatus}
    (mem : .setAttemptStatus a status ∈ p.writes db) :
    p.completes = true ∧ a = p.command.attemptId ∧ status = .settled := by
  rcases part_of_mem mem with ⟨t, mem⟩ | ⟨t, mem⟩ | ⟨t, mem⟩ | ⟨t, _⟩ | ⟨t, mem⟩ | ⟨t, mem⟩ <;>
    simp [Write.table] at t
  · unfold statusWrites fulfillmentWrites at mem
    split at mem
    · rename_i completes
      split at mem <;> simp at mem <;> exact ⟨completes, mem⟩
    · simp at mem

theorem setIntentStatus_mem {i : Id} {status : PaymentIntentStatus}
    (mem : .setIntentStatus i status ∈ p.writes db) :
    i = p.command.paymentIntentId ∧
      status = if p.completes then .paid else .partiallyPaid := by
  rcases part_of_mem mem with ⟨t, mem⟩ | ⟨t, mem⟩ | ⟨t, mem⟩ | ⟨t, _⟩ | ⟨t, mem⟩ | ⟨t, mem⟩ <;>
    simp [Write.table] at t
  · unfold statusWrites fulfillmentWrites at mem
    split at mem
    · rename_i completes
      rw [if_pos completes]
      split at mem <;> simp at mem <;> exact mem
    · rename_i stays
      rw [if_neg stays]
      simp at mem
      exact mem

end Payment

theorem park_other {command : SettlementCommand} {result : DecisionResult} {row : ProcessingRow}
    {w : Write} {n : TableName} (out : n ∉ [TableName.processing, .decisions]) (name : w.table = n)
    (mem : w ∈ [.setProcessing command.transferId row, decisionWrite command result db]) :
    False := by
  simp only [List.mem_cons, List.not_mem_nil, or_false, not_or] at mem out
  rcases mem with rfl | rfl
  · exact out.1 name.symm
  · exact out.2 (name.symm.trans (decisionWrite_table command result db))

variable {a : Id} {row : AttemptRow}

theorem Expiry.setAttemptStatus_mem {e : Expiry} {status : AttemptStatus}
    (mem : .setAttemptStatus a status ∈ e.writes) : a = e.attemptId ∧ status = .expired := by
  unfold Expiry.writes at mem
  split at mem <;> simpa using mem

theorem Expiry.setIntentStatus_mem {e : Expiry} {i : Id} {status : PaymentIntentStatus}
    (mem : .setIntentStatus i status ∈ e.writes) :
    e.closesIntent = true ∧ i = e.attempt.paymentIntentId ∧ status = .expired := by
  unfold Expiry.writes at mem
  split at mem
  · rename_i closes
    exact ⟨closes, by simpa using mem⟩
  · simp at mem

theorem Effect.attemptMove (eff : Effect config log db ws) {status : AttemptStatus}
    (mem : .setAttemptStatus a status ∈ ws) : AttemptMove config log db ws a status := by
  cases eff with
  | pay p sound =>
    obtain ⟨completes, of, rfl⟩ := p.setAttemptStatus_mem mem
    exact .settle p sound rfl completes of
  | sweep x sound =>
    simp only [Sweep.writes, Sweep.archiveWrites, List.mem_append, List.mem_flatMap] at mem
    rcases mem with ⟨e, listed, mem⟩ | ⟨_, _, mem⟩
    · obtain ⟨of, rfl⟩ := e.setAttemptStatus_mem mem
      exact .expire x sound e listed of
    · simp at mem
  | cancel found cancellable untouched all =>
    simp at mem
    obtain ⟨live, rfl⟩ := mem
    obtain ⟨row, found, _, awaiting⟩ := (all a).mp live
    exact .cancel found awaiting
  | aside only => exact absurd (only _ mem) (by simp [Write.table, asideTables])
  | park => exact (park_other (n := .attempts) (by decide) rfl mem).elim
  | _ => simp [Issue.writes, attestationWrites, StateStep.writes] at mem

theorem Effect.intentMove (eff : Effect config log db ws) {i : Id} {status : PaymentIntentStatus}
    (mem : .setIntentStatus i status ∈ ws) : IntentMove config log db ws i status := by
  cases eff with
  | pay p sound =>
    obtain ⟨of, target⟩ := p.setIntentStatus_mem mem
    exact .pay p sound rfl of target
  | issue q sound =>
    simp [Issue.writes] at mem
    obtain ⟨of, rfl⟩ := mem
    exact .issue q sound rfl of
  | sweep x sound =>
    simp only [Sweep.writes, Sweep.archiveWrites, List.mem_append, List.mem_flatMap] at mem
    rcases mem with ⟨e, listed, mem⟩ | ⟨_, _, mem⟩
    · obtain ⟨closes, of, rfl⟩ := e.setIntentStatus_mem mem
      refine .expire x sound e listed closes of ?_
      refine List.mem_append_left _ (List.mem_flatMap.mpr ⟨e, listed, ?_⟩)
      exact List.mem_cons_self
    · simp at mem
  | cancel found cancellable untouched all =>
    simp at mem
    obtain ⟨rfl, rfl⟩ := mem
    refine .cancel found cancellable untouched fun a row stored of live => ?_
    simp [(all a).mpr ⟨row, stored, of, live⟩]
  | aside only => exact absurd (only _ mem) (by simp [Write.table, asideTables])
  | park => exact (park_other (n := .intents) (by decide) rfl mem).elim
  | _ => simp [attestationWrites, StateStep.writes] at mem

theorem Effect.attempt_before (eff : Effect config log db ws)
    (after : (applyAll ws db).attempts.row a = some row) :
    (∃ old, db.attempts.row a = some old ∧ old.toAttemptTerms = row.toAttemptTerms) ∨
      db.attempts.row a = none := by
  have terms : (applyAll ws db).attemptTerms a = some row.toAttemptTerms := by
    simp [Db.attemptTerms, after]
  rcases attemptTerms_origin terms with old | ⟨new, mem, _⟩
  · exact .inl (Option.map_eq_some_iff.mp old)
  · obtain ⟨q, sound, _, rfl, _⟩ := eff.insertAttempt_mem mem
    exact .inr sound.newAttempt

theorem Effect.settled_before (eff : Effect config log db ws)
    (after : (applyAll ws db).attempts.row a = some row) (settled : row.status = .settled) :
    (∃ old, db.attempts.row a = some old ∧ old.status = .settled) ∨
      ∃ p : Payment, p.Sound config log db ∧ ws = p.writes db ∧ p.completes = true ∧
        a = p.command.attemptId := by
  rcases attemptStatus_origin (by rw [after]; exact congrArg some settled) with
    old | moved | ⟨new, mem, status⟩
  · exact .inl (Option.map_eq_some_iff.mp old)
  · cases eff.attemptMove moved with
    | settle p sound all completes of => exact .inr ⟨p, sound, all, completes, of⟩
  · obtain ⟨q, _, _, _, rfl⟩ := eff.insertAttempt_mem mem
    cases status

theorem Payment.mem_settledAttempts {p : Payment} (completes : p.completes = true) (db : Db) :
    p.command.attemptId ∈ settledAttempts (p.writes db) :=
  List.mem_filterMap.mpr ⟨.setAttemptStatus p.command.attemptId .settled,
    by simp [Payment.writes, Payment.statusWrites, completes], rfl⟩

theorem Effect.paid_before (eff : Effect config log db ws) {i : Id} {intent : IntentRow}
    (after : (applyAll ws db).intents.row i = some intent) (paid : intent.status = .paid) :
    (∃ old, db.intents.row i = some old ∧ old.status = .paid) ∨
      ∃ p : Payment, p.Sound config log db ∧ ws = p.writes db ∧ p.completes = true ∧
        i = p.command.paymentIntentId := by
  rcases intentStatus_origin (by rw [after]; exact congrArg some paid) with
    old | moved | ⟨new, mem, status⟩
  · exact .inl (Option.map_eq_some_iff.mp old)
  · cases eff.intentMove moved with
    | pay p sound all of target =>
      refine .inr ⟨p, sound, all, ?_, of⟩
      by_contra part
      simp [part] at target
  · rw [(eff.insertIntent_mem mem).2] at status
    cases status

theorem Payment.Sound.unpaid {p : Payment} (sound : p.Sound config log db) {intent : IntentRow}
    (found : db.intents.row p.command.paymentIntentId = some intent) : intent.status ≠ .paid := by
  cases found.symm.trans sound.intent
  intro paid
  exact absurd sound.payable (by simp [paid, payableIntentStates])

theorem Effect.settled_stays (eff : Effect config log db ws)
    (found : db.attempts.row a = some row) (settled : row.status = .settled) :
    (applyAll ws db).attempts.row a = some row := by
  refine applyAll_induct (P := fun db : Db => db.attempts.row a = some row) found ?_
  intro w mem db' stored
  cases w with
  | insertAttempt k new => exact Table.row_insert_stored stored k new
  | setAttemptStatus k status =>
    have ne : a ≠ k := by
      rintro rfl
      cases eff.attemptMove mem with
      | settle p sound all completes of =>
        subst of
        cases found.symm.trans sound.attempt
        exact absurd sound.allocatable (by simp [settled, allocatableAttemptStates])
      | expire x sound e listed of =>
        subst of
        cases found.symm.trans (sound.expired e listed).attempt
        exact absurd (sound.expired e listed).awaiting (by simp [settled])
      | cancel stored live =>
        cases found.symm.trans stored
        exact absurd live (by simp [settled])
    exact (Table.row_modify_ne ne _).trans stored
  | _ => exact stored

theorem closed_stays (forward : ∀ w ∈ ws, w.Forward)
    (closed : ∃ row, db.attempts.row a = some row ∧ row.status ≠ .awaitingPayment) :
    ∃ row, (applyAll ws db).attempts.row a = some row ∧ row.status ≠ .awaitingPayment := by
  refine applyAll_induct
    (P := fun db : Db => ∃ row, db.attempts.row a = some row ∧ row.status ≠ .awaitingPayment)
    closed ?_
  rintro w mem db ⟨row, found, shut⟩
  cases w with
  | insertAttempt k new => exact ⟨row, Table.row_insert_stored found k new, shut⟩
  | setAttemptStatus k status =>
    rcases Table.row_modify_or db.attempts k a ({ · with status }) with same | rfl
    · exact ⟨row, same.trans found, shut⟩
    · exact ⟨{ row with status }, by simp [Write.attempts, found], forward _ mem⟩
  | _ => exact ⟨row, found, shut⟩

theorem not_awaiting_of_closed (forward : ∀ w ∈ ws, w.Forward) {old : AttemptRow}
    {status : AttemptStatus} (before : db.attempts.row a = some old)
    (mem : .setAttemptStatus a status ∈ ws)
    (after : (applyAll ws db).attempts.row a = some row) : row.status ≠ .awaitingPayment := by
  obtain ⟨first, last, rfl⟩ := List.append_of_mem mem
  have terms : (applyAll first db).attemptTerms a = some old.toAttemptTerms :=
    (attemptTerms_persists a).applyAll (by simp [Db.attemptTerms, before]) first
  obtain ⟨middle, found, _⟩ := Option.map_eq_some_iff.mp terms
  have set : (Store.apply (Write.setAttemptStatus a status) (applyAll first db)).attempts.row a =
      some { middle with status } := by simp [Write.attempts, found]
  have rest : ∀ w ∈ last, w.Forward := fun w later => forward w (by simp [later])
  rw [applyAll_append, applyAll_cons] at after
  obtain ⟨row', after', shut⟩ := closed_stays rest ⟨_, set, forward _ mem⟩
  cases after.symm.trans after'
  exact shut

end
end CryptoGateway
