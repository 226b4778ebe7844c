import CryptoGateway.Invariant.Links
import CryptoGateway.Invariant.Payments

/-!
The order in which an intent and its attempts move: at most one attempt is live, and only a quoted
intent is decided about.
-/
namespace CryptoGateway
open Engine

def Write.Forward : Write → Prop
  | .setAttemptStatus _ status => status ≠ .awaitingPayment
  | .setIntentStatus _ status => status ≠ .requiresQuote
  | .setProposalDecision _ decision => decision.status ≠ .pending
  | _ => True

section
variable {config : Config} {log : Log Db Watch} {db : Db} {ws : List Write}

theorem Payment.forward_of_mem {p : Payment} {w : Write} (mem : w ∈ p.writes db) : w.Forward := by
  simp only [writes, List.mem_append, List.mem_singleton] at mem
  rcases mem with ((((mem | mem) | mem) | rfl) | mem) | mem
  · unfold resolutionWrites at mem
    split at mem <;> simp at mem <;> subst mem <;> trivial
  · simp only [bookWrites, List.mem_cons, List.not_mem_nil, or_false] at mem
    rcases mem with rfl | rfl | rfl <;> trivial
  · unfold statusWrites fulfillmentWrites at mem
    split at mem
    · split at mem <;> simp at mem
      · rcases mem with rfl | rfl <;> simp [Write.Forward]
      · rcases mem with rfl | rfl | rfl | rfl <;> simp [Write.Forward]
    · simp at mem
      rcases mem with rfl | rfl <;> simp [Write.Forward]
  · unfold decisionWrite
    split <;> trivial
  · unfold remainderWrites at mem
    split at mem <;> simp at mem
    subst mem; trivial
  · unfold operatorWrites actorWrites at mem
    split at mem <;> simp at mem
    · rcases mem with rfl | rfl <;> trivial
    · rcases mem with rfl | rfl | rfl <;> simp [Write.Forward, approvedDecision]

theorem Effect.forward (eff : Effect config log db ws) {w : Write} (mem : w ∈ ws) : w.Forward := by
  cases eff with
  | aside only =>
    have aside := only w mem
    cases w <;> trivial
  | pay p => exact p.forward_of_mem mem
  | issue q =>
    simp only [Issue.writes, List.mem_cons, List.not_mem_nil, or_false] at mem
    rcases mem with rfl | rfl | rfl | rfl | rfl <;> simp [Write.Forward]
  | sweep x =>
    simp only [Sweep.writes, List.mem_append, List.mem_flatMap] at mem
    rcases mem with ⟨e, _, mem⟩ | ⟨e, _, mem⟩
    · unfold Expiry.writes at mem
      split at mem <;> simp at mem
      · rcases mem with rfl | rfl <;> simp [Write.Forward]
      · subst mem; simp [Write.Forward]
    · simp [Sweep.archiveWrites] at mem
      rcases mem with rfl | rfl <;> trivial
  | cancel =>
    simp only [List.mem_append, List.mem_cons, List.not_mem_nil, or_false, List.mem_map] at mem
    rcases mem with ((rfl | rfl) | ⟨_, _, rfl⟩) | rfl <;> simp [Write.Forward]
  | propose =>
    simp only [List.mem_append, List.mem_cons, List.not_mem_nil, or_false, List.mem_map] at mem
    rcases mem with ⟨_, _, rfl⟩ | rfl <;> simp [Write.Forward, expiredDecision]
  | withdraw =>
    cases List.mem_singleton.mp mem
    simp [Write.Forward, rejectedDecision]
  | clearRail =>
    obtain ⟨_, _, rfl⟩ := List.mem_map.mp mem
    trivial
  | park =>
    simp only [List.mem_cons, List.not_mem_nil, or_false] at mem
    rcases mem with rfl | rfl
    · trivial
    · unfold decisionWrite
      split <;> trivial
  | observe =>
    simp only [attestationWrites, StateStep.writes, List.mem_append, List.mem_cons,
      List.not_mem_nil, or_false, List.mem_map, List.mem_flatMap] at mem
    rcases mem with (((rfl | rfl | rfl | rfl) | ⟨_, _, rfl⟩) | ⟨_, _, rfl | rfl⟩) | rfl <;> trivial
  | advance =>
    simp only [attestationWrites, StateStep.writes, List.mem_append, List.mem_cons,
      List.not_mem_nil, or_false, List.mem_map, List.mem_flatMap] at mem
    rcases mem with (⟨_, _, rfl⟩ | ⟨_, _, rfl | rfl⟩) | rfl <;> trivial
  | record =>
    rcases mem_recordWrites.mp mem with ⟨_, _, rfl⟩ | ⟨_, _, rfl⟩ <;> trivial
  | lease => simp at mem; subst mem; trivial
  | purge =>
    obtain ⟨_, _, rfl⟩ := List.mem_map.mp mem
    trivial
  | register => simp at mem; subst mem; trivial
  | stopQuoting => simp at mem; subst mem; trivial
  | retire => simp at mem; subst mem; trivial
  | judge => simp at mem; subst mem; trivial
  | create => simp at mem; rcases mem with rfl | rfl <;> trivial
  | unresolved => simp at mem; rcases mem with rfl | rfl <;> trivial
  | notice => simp at mem; subst mem; trivial
  | reject => simp at mem; rcases mem with rfl | rfl <;> trivial
  | dispose => simp at mem; rcases mem with rfl | rfl | rfl <;> trivial
  | stopRail => simp at mem; subst mem; trivial

theorem awaiting_origin (forward : ∀ w ∈ ws, w.Forward) {a : Id} {row : AttemptRow}
    (after : (applyAll ws db).attempts.row a = some row) (live : row.status = .awaitingPayment) :
    db.attempts.row a = some row ∨ .insertAttempt a row ∈ ws := by
  have each : ∀ w ∈ ws, ∀ db : Db, (Store.apply w db).attempts.row a = some row →
      db.attempts.row a = some row ∨ w = .insertAttempt a row := by
    intro w mem db put
    have ahead := forward w mem
    cases w with
    | insertAttempt k new =>
      exact (Table.row_insert_cases put).imp_right fun ⟨_, same, eq⟩ => by rw [same, eq]
    | setAttemptStatus k status =>
      rcases Table.row_modify_or db.attempts k a ({ · with status }) with same | rfl
      · exact .inl (same.symm.trans put)
      · obtain ⟨old, _, rfl⟩ := Option.map_eq_some_iff.mp
          ((Table.row_modify_self _ _ _).symm.trans put)
        exact absurd live ahead
    | _ => exact .inl put
  simpa using applyAll_origin (fun db : Db => db.attempts.row a) each after

theorem requiresQuote_origin (forward : ∀ w ∈ ws, w.Forward) {i : Id} {row : IntentRow}
    (after : (applyAll ws db).intents.row i = some row) (first : row.status = .requiresQuote) :
    db.intents.row i = some row ∨ .insertIntent i row ∈ ws := by
  have each : ∀ w ∈ ws, ∀ db : Db, (Store.apply w db).intents.row i = some row →
      db.intents.row i = some row ∨ w = .insertIntent i row := by
    intro w mem db put
    have ahead := forward w mem
    cases w with
    | insertIntent k new =>
      exact (Table.row_insert_cases put).imp_right fun ⟨_, same, eq⟩ => by rw [same, eq]
    | setIntentStatus k status =>
      rcases Table.row_modify_or db.intents k i ({ · with status }) with same | rfl
      · exact .inl (same.symm.trans put)
      · obtain ⟨old, _, rfl⟩ := Option.map_eq_some_iff.mp
          ((Table.row_modify_self _ _ _).symm.trans put)
        exact absurd first ahead
    | _ => exact .inl put
  simpa using applyAll_origin (fun db : Db => db.intents.row i) each after

theorem Effect.insertDecision_mem (eff : Effect config log db ws) {i t : Id} {row : DecisionRow}
    (mem : .insertDecision i t row ∈ ws) :
    ∃ a terms, db.attemptTerms a = some terms ∧ terms.paymentIntentId = i := by
  have ofCommand : ∀ {command : SettlementCommand} {result : DecisionResult} {attempt : AttemptRow},
      .insertDecision i t row = decisionWrite command result db →
      db.attempts.row command.attemptId = some attempt →
      attempt.paymentIntentId = command.paymentIntentId →
      ∃ a terms, db.attemptTerms a = some terms ∧ terms.paymentIntentId = i := by
    intro command result attempt eq found ofIntent
    refine ⟨command.attemptId, attempt.toAttemptTerms, by simp [Db.attemptTerms, found], ?_⟩
    unfold decisionWrite at eq
    split at eq
    · cases eq; exact ofIntent
    · cases eq
  cases eff with
  | pay p sound =>
    refine @ofCommand p.command p.result p.attempt ?_ sound.attempt sound.ofIntent
    rcases Payment.part_of_mem mem with ⟨t, _⟩ | ⟨t, _⟩ | ⟨t, _⟩ | ⟨t, eq⟩ | ⟨t, _⟩ | ⟨t, mem⟩ <;>
      simp [Write.table] at t
    · exact eq
    · unfold Payment.operatorWrites Payment.actorWrites at mem
      split at mem <;> simp at mem
  | park _ _ attempt ofIntent =>
    simp only [List.mem_cons, List.not_mem_nil, or_false, reduceCtorEq, false_or] at mem
    exact ofCommand mem attempt ofIntent
  | aside only => exact absurd (only _ mem) (by simp [Write.table, asideTables])
  | _ => simp [Issue.writes, Sweep.writes, Expiry.writes, Sweep.archiveWrites,
      attestationWrites, StateStep.writes] at mem

theorem decided_origin {key : Id × Id} {row : DecisionRow}
    (after : (applyAll ws db).decisions.row key = some row) :
    (∃ old, db.decisions.row key = some old) ∨ ∃ new, .insertDecision key.1 key.2 new ∈ ws := by
  have each : ∀ (w : Write) (db : Db),
      ((Store.apply w db).decisions.row key).map (fun _ => ()) = some () →
      (db.decisions.row key).map (fun _ => ()) = some () ∨
        ∃ new, w = .insertDecision key.1 key.2 new := by
    intro w db put
    cases w with
    | insertDecision i t new =>
      exact (map_row_insert_cases put).imp_right fun ⟨same, _⟩ => ⟨new, by rw [same]⟩
    | setDecisionResult i t result =>
      refine .inl (Eq.trans ?_ put)
      exact (Table.map_row_modify (fun row : DecisionRow => { row with toDecisionResult := result })
        (fun _ => rfl) _ (i, t) key).symm
    | setDecisionActor i t by_ reason =>
      refine .inl (Eq.trans ?_ put)
      exact (Table.map_row_modify
        (fun row : DecisionRow => { row with decidedBy := by_, decidedReason := reason })
        (fun _ => rfl) _ (i, t) key).symm
    | _ => exact .inl put
  rcases applyAll_origin (fun db : Db => (db.decisions.row key).map fun _ => ()) (fun w _ => each w)
    (by rw [after]; rfl) with old | ⟨_, mem, new, rfl⟩
  · obtain ⟨row, found, _⟩ := Option.map_eq_some_iff.mp old
    exact .inl ⟨row, found⟩
  · exact .inr ⟨new, mem⟩

theorem Advances.of_closed {target : TransferState} {current : StateRow} {steps : List StateStep}
    (closed : current.state.closed) (walk : Advances target current steps) : steps = [] := by
  cases walk with
  | stay => rfl
  | move step =>
    obtain ⟨state, version⟩ := current
    cases state <;> simp [TransferState.closed] at closed <;> cases target <;> cases step

theorem Effect.setTransferState_mem (eff : Effect config log db ws) {t : Id} {row now : StateRow}
    (mem : .setTransferState t row ∈ ws) (current : db.transferStates.row t = some now) :
    ¬now.state.closed := by
  cases eff with
  | observe _ _ newState =>
    simp [attestationWrites, StateStep.writes] at mem
    obtain ⟨_, _, rfl, _⟩ := mem
    rw [newState] at current
    cases current
  | advance _ found walk =>
    simp [attestationWrites, StateStep.writes] at mem
    obtain ⟨_, step, rfl, _⟩ := mem
    intro closed
    cases found.symm.trans current
    rw [walk.of_closed closed] at step
    cases step
  | aside only => exact absurd (only _ mem) (by simp [Write.table, asideTables])
  | pay p => cases p.isDecision_of_mem mem
  | park => cases isDecision_of_mem_park mem
  | _ => simp [Issue.writes, Sweep.writes, Expiry.writes, Sweep.archiveWrites] at mem

theorem Effect.closed_stays (eff : Effect config log db ws) {t : Id} {now : StateRow}
    (found : db.transferStates.row t = some now) (closed : now.state.closed) :
    (applyAll ws db).transferStates.row t = some now := by
  have still : ∀ {row}, .setTransferState t row ∉ ws :=
    fun mem => eff.setTransferState_mem mem found closed
  refine applyAll_induct (P := fun db : Db => db.transferStates.row t = _) found ?_
  intro w mem db held
  cases w with
  | insertTransferState k row => exact Table.row_insert_stored held k row
  | setTransferState k row =>
    by_cases same : t = k
    · subst same; exact absurd mem still
    · exact (Table.row_modify_ne same _).trans held
  | _ => exact held

theorem Effect.final_stays (eff : Effect config log db ws) {t : Id} (final : db.Final t) :
    (applyAll ws db).Final t := by
  obtain ⟨version, found⟩ := final
  exact ⟨version, eff.closed_stays found rfl⟩

structure Lifecycle (db : Db) : Prop where
  oneLive : ∀ {a b row other}, db.attempts.row a = some row → db.attempts.row b = some other →
    row.status = .awaitingPayment → other.status = .awaitingPayment →
    row.paymentIntentId = other.paymentIntentId → a = b
  unquoted : ∀ {i row}, db.intents.row i = some row → row.status = .requiresQuote →
    ∀ {a terms}, db.attemptTerms a = some terms → terms.paymentIntentId ≠ i
  decided : ∀ {key row}, db.decisions.row key = some row →
    ∃ a terms, db.attemptTerms a = some terms ∧ terms.paymentIntentId = key.1

theorem Lifecycle.empty : Lifecycle {} where
  oneLive found := by cases found
  unquoted found := by cases found
  decided found := by cases found

theorem Issue.Sound.intent_after {q : Issue} (sound : q.Sound log db) :
    (applyAll q.writes db).intents.row q.plan.paymentIntentId =
      some { q.intent with status := .awaitingPayment } := by
  simp [Issue.writes, Write.intents, sound.intent]

theorem Lifecycle.keep (lifecycle : Lifecycle db) (links : Links db)
    (eff : Effect config log db ws) : Lifecycle (applyAll ws db) := by
  have forward : ∀ w ∈ ws, w.Forward := fun w mem => eff.forward mem
  constructor
  · intro a b row other first second live live' same
    rcases awaiting_origin forward first live with old | new <;>
      rcases awaiting_origin forward second live' with old' | new'
    · exact lifecycle.oneLive old old' live live' same
    · obtain ⟨q, sound, _, rfl, rfl⟩ := eff.insertAttempt_mem new'
      exact absurd live (sound.noneLive a row old same)
    · obtain ⟨q, sound, _, rfl, rfl⟩ := eff.insertAttempt_mem new
      exact absurd live' (sound.noneLive b other old' same.symm)
    · obtain ⟨q, _, rfl, rfl, _⟩ := eff.insertAttempt_mem new
      simp [Issue.writes] at new'
      exact new'.1.symm
  · intro i row after quotable a terms found
    rcases attemptTerms_origin found with known | ⟨attempt, inserted, rfl⟩
    · rcases requiresQuote_origin forward after quotable with old | new
      · exact lifecycle.unquoted old quotable known
      · rintro rfl
        obtain ⟨intent, stored, _⟩ := (links.attempt known).intent
        simp [Db.intentTerms, (eff.insertIntent_mem new).1] at stored
    · -- the quote that brought the attempt also moved its intent on
      obtain ⟨q, sound, rfl, _, rfl⟩ := eff.insertAttempt_mem inserted
      rintro rfl
      cases sound.intent_after.symm.trans after
      cases quotable
  · intro key row after
    obtain ⟨a, terms, found, ofIntent⟩ : ∃ a terms, db.attemptTerms a = some terms ∧
        terms.paymentIntentId = key.1 := by
      rcases decided_origin after with ⟨old, stored⟩ | ⟨new, inserted⟩
      · exact lifecycle.decided stored
      · exact eff.insertDecision_mem inserted
    exact ⟨a, terms, (attemptTerms_persists a).applyAll found ws, ofIntent⟩

end
end CryptoGateway
