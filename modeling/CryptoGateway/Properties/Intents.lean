import Mathlib.Tactic.TFAE
import CryptoGateway.Invariant.Moves
import CryptoGateway.Runs

/-!
How an intent is paid and closed. A sweep expires on the status its snapshot showed, and a
settlement closes only the attempt it pays; the properties say what runs keep clear of.
-/
namespace CryptoGateway
open Engine

def expiredIntents (ws : List Write) : List Id :=
  ws.filterMap fun
    | .setIntentStatus intent .expired => some intent
    | _ => none

def Db.intentStatus (db : Db) (paymentIntentId : Id) : Option PaymentIntentStatus :=
  (db.intents.row paymentIntentId).map (·.status)

def StatusUnchanged (log : Log Db Watch) (db : Db) (ws : List Write) : Prop :=
  ∀ i ∈ expiredIntents ws, ∀ e ∈ log, e.1 = .expiring i →
    e.2.db.intentStatus i = db.intentStatus i

instance (log : Log Db Watch) (db : Db) (ws : List Write) :
    Decidable (StatusUnchanged log db ws) :=
  inferInstanceAs (Decidable (∀ i ∈ expiredIntents ws, ∀ e ∈ log, _))

namespace Db

def Paid (db : Db) (i : Id) : Prop :=
  ∃ intent, db.intents.row i = some intent ∧ intent.status = .paid

/-- Attempt `a` of intent `i` is settled. -/
def Settles (db : Db) (a i : Id) : Prop :=
  ∃ row, db.attempts.row a = some row ∧ row.paymentIntentId = i ∧ row.status = .settled

/-- Outbox event `e` says that intent `i` is paid. -/
def Announces (db : Db) (e i : Id) : Prop :=
  ∃ row, db.events.row e = some row ∧ row.eventType = .paymentIntentPaid ∧ row.aggregateId = i

end Db

structure PaidOnce (db : Db) : Prop where
  settled : ∀ {a i}, db.Settles a i → db.Paid i
  fulfilled : ∀ {i fulfillment}, db.fulfillments.row i = some fulfillment → db.Paid i
  announced : ∀ {e i}, db.Announces e i → db.Paid i
  oneAttempt : ∀ {a b i}, db.Settles a i → db.Settles b i → a = b
  oneEvent : ∀ {e f i}, db.Announces e i → db.Announces f i → e = f
  paid : ∀ {i}, db.Paid i → (∃ a, db.Settles a i) ∧ (∃ m, db.fulfillments.row i = some m) ∧
    ∃ e, db.Announces e i

theorem PaidOnce.empty : PaidOnce {} where
  settled := by rintro _ _ ⟨_, found, _⟩; cases found
  fulfilled found := by cases found
  announced := by rintro _ _ ⟨_, found, _⟩; cases found
  oneAttempt := by rintro _ _ _ ⟨_, found, _⟩; cases found
  oneEvent := by rintro _ _ _ ⟨_, found, _⟩; cases found
  paid := by rintro _ ⟨_, found, _⟩; cases found

section
variable {config : Config} {log : Log Db Watch} {db : Db} {ws : List Write}

theorem Effect.terminal_stays (eff : Effect config log db ws)
    (unchanged : StatusUnchanged log db ws) {i : Id} {intent : IntentRow}
    (found : db.intents.row i = some intent)
    (terminal : intent.status = .paid ∨ intent.status = .cancelled) :
    (applyAll ws db).intents.row i = some intent := by
  refine applyAll_induct (P := fun db : Db => db.intents.row i = some intent) found ?_
  intro w mem db' stored
  cases w with
  | insertIntent k row => exact Table.row_insert_stored stored k row
  | setIntentStatus k status =>
    have ne : i ≠ k := by
      rintro rfl
      cases eff.intentMove mem with
      | pay p sound all of target =>
        subst of
        cases found.symm.trans sound.intent
        rcases terminal with h | h <;>
          exact absurd sound.payable (by simp [h, payableIntentStates])
      | issue q sound all of =>
        subst of
        cases found.symm.trans sound.intent
        rcases sound.quotable with first | ⟨again, _⟩
        · rcases terminal with h | h <;> cases h.symm.trans first
        · rcases terminal with h | h <;> cases h.symm.trans again
      | cancel here cancellable =>
        cases found.symm.trans here
        rcases terminal with h | h <;> exact absurd cancellable (by simp [h, cancellableStates])
      | expire x sound e listed closes of =>
        subst of
        obtain ⟨m, row, logged, seen, awaiting⟩ := (sound.expired e listed).seen closes
        have now := unchanged _ (List.mem_filterMap.mpr ⟨_, mem, rfl⟩) _ logged rfl
        simp only [Db.intentStatus, seen, found, Option.map_some, Option.some.injEq] at now
        rcases terminal with h | h <;> cases (h.symm.trans now.symm).trans awaiting
    exact (Table.row_modify_ne ne _).trans stored
  | _ => exact stored

theorem Db.Paid.stays {i : Id} (paid : db.Paid i) (eff : Effect config log db ws)
    (unchanged : StatusUnchanged log db ws) : (applyAll ws db).Paid i := by
  obtain ⟨intent, found, status⟩ := paid
  exact ⟨intent, eff.terminal_stays unchanged found (.inl status), status⟩

theorem Db.Settles.stays {a i : Id} (settles : db.Settles a i) (eff : Effect config log db ws) :
    (applyAll ws db).Settles a i := by
  obtain ⟨row, found, of, settled⟩ := settles
  exact ⟨row, eff.settled_stays found settled, of, settled⟩

theorem Db.Announces.stays {e i : Id} (announces : db.Announces e i) (ws : List Write) :
    (applyAll ws db).Announces e i := by
  obtain ⟨row, found, facts⟩ := announces
  exact ⟨row, (events_inserts.persists e).applyAll found ws, facts⟩

theorem Payment.insertEvent_mem {p : Payment} {e : Id} {row : EventRow}
    (mem : .insertEvent e row ∈ p.writes db) (paid : row.eventType = .paymentIntentPaid) :
    p.completes = true ∧ e = p.eventId ∧ row.aggregateId = p.command.paymentIntentId := by
  rcases part_of_mem mem with ⟨t, mem⟩ | ⟨t, mem⟩ | ⟨t, mem⟩ | ⟨t, _⟩ | ⟨t, mem⟩ | ⟨t, mem⟩ <;>
    simp [Write.table] at t
  · unfold statusWrites fulfillmentWrites at mem
    split at mem
    · rename_i completes
      split at mem <;> simp at mem
      obtain ⟨rfl, rfl⟩ := mem
      exact ⟨completes, rfl, rfl⟩
    · simp at mem
      obtain ⟨_, rfl⟩ := mem
      cases paid
  · unfold remainderWrites at mem
    split at mem <;> simp at mem
    obtain ⟨_, rfl⟩ := mem
    cases paid

theorem Effect.insertEvent_mem (eff : Effect config log db ws) {e : Id} {row : EventRow}
    (mem : .insertEvent e row ∈ ws) (paid : row.eventType = .paymentIntentPaid) :
    ∃ p : Payment, p.Sound config log db ∧ ws = p.writes db ∧ p.completes = true := by
  cases eff with
  | pay p sound => exact ⟨p, sound, rfl, (p.insertEvent_mem mem paid).1⟩
  | cancel =>
    simp at mem
    obtain ⟨_, rfl⟩ := mem
    cases paid
  | unresolved found pending notPaid =>
    simp at mem
    obtain ⟨_, rfl⟩ := mem
    exact absurd paid notPaid
  | notice notPaid =>
    simp at mem
    obtain ⟨_, rfl⟩ := mem
    exact absurd paid notPaid
  | aside only => exact absurd (only _ mem) (by simp [Write.table, asideTables])
  | park => exact (park_other (n := .events) (by decide) rfl mem).elim
  | _ => simp [Issue.writes, Sweep.writes, Expiry.writes, Sweep.archiveWrites,
      attestationWrites, StateStep.writes] at mem

theorem PaidOnce.unpaid (once : PaidOnce db) {p : Payment} (sound : p.Sound config log db) :
    ¬db.Paid p.command.paymentIntentId ∧ db.fulfillments.row p.command.paymentIntentId = none := by
  have unpaid : ¬db.Paid p.command.paymentIntentId := by
    rintro ⟨intent, found, paid⟩
    exact sound.unpaid found paid
  refine ⟨unpaid, ?_⟩
  cases stored : db.fulfillments.row p.command.paymentIntentId with
  | none => rfl
  | some fulfillment => exact absurd (once.fulfilled stored) unpaid

namespace Payment
variable {p : Payment}

theorem Sound.paid_after (sound : p.Sound config log db) (completes : p.completes = true) :
    (applyAll (p.writes db) db).Paid p.command.paymentIntentId := by
  refine ⟨{ p.intent with status := .paid }, ?_, rfl⟩
  simp [intents_after, sound.intent, completes]

theorem Sound.settles_after (sound : p.Sound config log db) (completes : p.completes = true) :
    (applyAll (p.writes db) db).Settles p.command.attemptId p.command.paymentIntentId :=
  ⟨_, p.attempt_after sound.attempt, sound.ofIntent, by simp [completes]⟩

theorem Sound.announces_after (sound : p.Sound config log db) (completes : p.completes = true)
    (fresh : db.fulfillments.row p.command.paymentIntentId = none) :
    (applyAll (p.writes db) db).Announces p.eventId p.command.paymentIntentId := by
  refine ⟨p.event .paymentIntentPaid, ?_, rfl, rfl⟩
  have before : (applyAll p.bookWrites (applyAll p.resolutionWrites db)).events = db.events := by
    rw [events_same (bookWrites_other (by decide)), events_same
      (resolutionWrites_other (by decide))]
  have inserted : (applyAll (p.resolutionWrites ++ p.bookWrites ++ p.statusWrites db) db).events.row
      p.eventId = some (p.event .paymentIntentPaid) := by
    simp only [applyAll_append, statusWrites, completes, ↓reduceIte, fulfillmentWrites, fresh,
      Option.isSome_none, Bool.false_eq_true, applyAll_cons, applyAll_nil, apply_events,
      Write.events, before]
    rw [Table.row_insert_fresh (sound.newEvent fresh), if_pos rfl]
  unfold writes
  rw [List.append_assoc, List.append_assoc, applyAll_append]
  exact (events_inserts.persists _).applyAll inserted _

theorem Sound.settles_before (sound : p.Sound config log db) {a i : Id}
    (after : (applyAll (p.writes db) db).Settles a i) :
    db.Settles a i ∨ (a = p.command.attemptId ∧ i = p.command.paymentIntentId) := by
  obtain ⟨row, found, of, settled⟩ := after
  by_cases same : a = p.command.attemptId
  · subst same
    cases (p.attempt_after sound.attempt).symm.trans found
    exact .inr ⟨rfl, of.symm.trans sound.ofIntent⟩
  · rw [p.attempts_other same] at found
    exact .inl ⟨row, found, of, settled⟩

theorem announces_before {e i : Id} (after : (applyAll (p.writes db) db).Announces e i) :
    db.Announces e i ∨ (e = p.eventId ∧ i = p.command.paymentIntentId) := by
  obtain ⟨row, found, paid, of⟩ := after
  rcases events_inserts.origin found with old | new
  · exact .inl ⟨row, old, paid, of⟩
  · obtain ⟨_, same, about⟩ := p.insertEvent_mem new paid
    exact .inr ⟨same, of.symm.trans about⟩

theorem fulfilled_before {i : Id} {fulfillment : FulfillmentRow}
    (after : (applyAll (p.writes db) db).fulfillments.row i = some fulfillment) :
    db.fulfillments.row i = some fulfillment ∨
    (p.completes = true ∧ i = p.command.paymentIntentId) := by
  rw [fulfillments_after] at after
  split at after
  · rename_i completes
    exact (Table.row_insert_cases after).imp_right fun ⟨_, same, _⟩ => ⟨completes, same⟩
  · exact .inl after

end Payment

theorem PaidOnce.pay (once : PaidOnce db) {p : Payment} (sound : p.Sound config log db)
    (completes : p.completes = true)
    (stays : ∀ {i}, db.Paid i → (applyAll (p.writes db) db).Paid i) :
    PaidOnce (applyAll (p.writes db) db) := by
  obtain ⟨unpaid, unfulfilled⟩ := once.unpaid sound
  have paid := sound.paid_after completes
  constructor
  · intro a i after
    rcases sound.settles_before after with old | ⟨_, rfl⟩
    · exact stays (once.settled old)
    · exact paid
  · intro i fulfillment after
    rcases p.fulfilled_before after with old | ⟨_, rfl⟩
    · exact stays (once.fulfilled old)
    · exact paid
  · intro e i after
    rcases p.announces_before after with old | ⟨_, rfl⟩
    · exact stays (once.announced old)
    · exact paid
  · intro a b i first second
    rcases sound.settles_before first with old | ⟨rfl, rfl⟩
    · rcases sound.settles_before second with old' | ⟨_, rfl⟩
      · exact once.oneAttempt old old'
      · exact absurd (once.settled old) unpaid
    · rcases sound.settles_before second with old' | ⟨rfl, _⟩
      · exact absurd (once.settled old') unpaid
      · rfl
  · intro e f i first second
    rcases p.announces_before first with old | ⟨rfl, rfl⟩
    · rcases p.announces_before second with old' | ⟨_, rfl⟩
      · exact once.oneEvent old old'
      · exact absurd (once.announced old) unpaid
    · rcases p.announces_before second with old' | ⟨rfl, _⟩
      · exact absurd (once.announced old') unpaid
      · rfl
  · rintro i ⟨intent, after, status⟩
    have eff : Effect config log db (p.writes db) := .pay p sound
    by_cases same : i = p.command.paymentIntentId
    · subst same
      refine ⟨⟨_, sound.settles_after completes⟩, ⟨fulfillmentOf p.command p.decidedAt, ?_⟩,
        ⟨_, sound.announces_after completes unfulfilled⟩⟩
      rw [p.fulfillments_after, if_pos completes, Table.row_insert_fresh unfulfilled, if_pos rfl]
    · rw [p.intents_after, Table.row_modify_ne same] at after
      obtain ⟨⟨a, settles⟩, ⟨m, fulfilled⟩, e, announces⟩ := once.paid ⟨intent, after, status⟩
      exact ⟨⟨a, settles.stays eff⟩, ⟨m, (fulfillments_inserts.persists i).applyAll fulfilled _⟩,
        ⟨e, announces.stays _⟩⟩

theorem PaidOnce.keep (once : PaidOnce db) (eff : Effect config log db ws)
    (unchanged : StatusUnchanged log db ws) : PaidOnce (applyAll ws db) := by
  by_cases money : ∃ p : Payment, p.Sound config log db ∧ ws = p.writes db ∧ p.completes = true
  · obtain ⟨p, sound, rfl, completes⟩ := money
    exact once.pay sound completes fun paid => paid.stays eff unchanged
  · -- no completing payment, so whatever says that an intent is paid said so before
    have settles : ∀ {a i}, (applyAll ws db).Settles a i → db.Settles a i := by
      rintro a i ⟨row, after, of, settled⟩
      rcases eff.settled_before after settled with ⟨old, found, status⟩ | ⟨p, sound, eq, full, _⟩
      · rcases eff.attempt_before after with ⟨old', found', terms⟩ | absent
        · cases found.symm.trans found'
          exact ⟨old, found, (congrArg AttemptTerms.paymentIntentId terms).trans of, status⟩
        · cases absent.symm.trans found
      · exact absurd ⟨p, sound, eq, full⟩ money
    have fulfilled : ∀ {i m}, (applyAll ws db).fulfillments.row i = some m →
        db.fulfillments.row i = some m := by
      intro i m after
      rcases eff.pay_or with ⟨p, sound, rfl⟩ | other
      · rcases p.fulfilled_before after with old | ⟨full, _⟩
        · exact old
        · exact absurd ⟨p, sound, rfl, full⟩ money
      · rwa [fulfillments_same fun w mem eq => other w mem (by simp [eq])] at after
    have announces : ∀ {e i}, (applyAll ws db).Announces e i → db.Announces e i := by
      rintro e i ⟨row, after, paid, of⟩
      rcases events_inserts.origin after with old | new
      · exact ⟨row, old, paid, of⟩
      · exact absurd (eff.insertEvent_mem new paid) money
    have paid : ∀ {i}, (applyAll ws db).Paid i → db.Paid i := by
      rintro i ⟨intent, after, status⟩
      rcases eff.paid_before after status with old | ⟨p, sound, eq, full, _⟩
      · exact old
      · exact absurd ⟨p, sound, eq, full⟩ money
    exact
      { settled := fun after => (once.settled (settles after)).stays eff unchanged
        fulfilled := fun after => (once.fulfilled (fulfilled after)).stays eff unchanged
        announced := fun after => (once.announced (announces after)).stays eff unchanged
        oneAttempt := fun first second => once.oneAttempt (settles first) (settles second)
        oneEvent := fun first second => once.oneEvent (announces first) (announces second)
        paid := fun after => by
          obtain ⟨⟨a, settled⟩, ⟨m, stored⟩, e, announced⟩ := once.paid (paid after)
          exact ⟨⟨a, settled.stays eff⟩, ⟨m, (fulfillments_inserts.persists _).applyAll stored ws⟩,
            ⟨e, announced.stays ws⟩⟩ }

/-- In every run in which no intent is expired on an outdated status, an intent is
    paid exactly when it has one settled attempt, one fulfillment and one event that
    says so, and a paid or cancelled intent stays as it is. -/
theorem paid_exactly_once {s : Gateway} (reached : Reached config (OnCommit StatusUnchanged) s)
    {i : Id} {intent : IntentRow} (found : s.db.intents.row i = some intent) :
    List.TFAE [intent.status = .paid, ∃! a, s.db.Settles a i,
      ∃! fulfillment, s.db.fulfillments.row i = some fulfillment, ∃! e, s.db.Announces e i] ∧
    (intent.status = .paid ∨ intent.status = .cancelled → ∀ s',
      System.Reach (program config) (OnCommit StatusUnchanged) s s' →
      s'.db.intents.row i = some intent) := by
  have once : PaidOnce s.db := reached.keeps_onCommit PaidOnce.empty
    fun _ _ _ _ eff unchanged once => once.keep eff unchanged
  have status : s.db.Paid i → intent.status = .paid := by
    rintro ⟨intent', found', paid⟩
    cases found.symm.trans found'
    exact paid
  constructor
  · tfae_have 1 → 2 := fun paid => by
      obtain ⟨⟨a, settles⟩, _⟩ := once.paid ⟨intent, found, paid⟩
      exact ⟨a, settles, fun b settles' => once.oneAttempt settles' settles⟩
    tfae_have 2 → 1 := fun ⟨_, settles, _⟩ => status (once.settled settles)
    tfae_have 1 → 3 := fun paid => by
      obtain ⟨_, ⟨m, fulfilled⟩, _⟩ := once.paid ⟨intent, found, paid⟩
      exact ⟨m, fulfilled, fun m' same => Option.some.inj (same.symm.trans fulfilled)⟩
    tfae_have 3 → 1 := fun ⟨_, fulfilled, _⟩ => status (once.fulfilled fulfilled)
    tfae_have 1 → 4 := fun paid => by
      obtain ⟨_, _, e, announces⟩ := once.paid ⟨intent, found, paid⟩
      exact ⟨e, announces, fun f announces' => once.oneEvent announces' announces⟩
    tfae_have 4 → 1 := fun ⟨_, announces, _⟩ => status (once.announced announces)
    tfae_finish
  · intro terminal s' later
    exact reached.keeps_later (P := fun db => db.intents.row i = some intent) found
      (fun _ _ log ws _ allowed commits eff stored =>
        eff.terminal_stays (allowed log ws commits) stored terminal) later

end

namespace Sample

theorem paid_exactly_once_settled :
    ∃ s intent, Reached config (OnCommit StatusUnchanged) s ∧ s.db.intents.row 1 = some intent ∧
      intent.status = .paid ∧ ∃! a, s.db.Settles a 1 := by
  have reached := Gateway.after_reached config (OnCommit StatusUnchanged) settled
  obtain ⟨intent, found, paid⟩ := Option.map_eq_some_iff.mp (by decide +kernel :
    ((Gateway.after config (OnCommit StatusUnchanged) settled).db.intents.row 1).map (·.status) =
      some .paid)
  exact ⟨_, intent, reached, found, paid, ((paid_exactly_once reached found).1.out 0 1).mp paid⟩

def sweepWaits : List (Slice Request) :=
  requoted ++ whole 7 (seconds 60) (sighting 0 100 1) ++
    whole 8 (seconds 60) (sighted 8 0 100 1) ++
    [.start (.settlePending lease 10), .work 9 (seconds 60) 28] ++
    whole 10 (seconds 120) (.expireDue 10) ++ [.work 9 (seconds 120) 99]

def sweepOverPaid : List (Slice Request) := sweepWaits ++ [.work 10 (seconds 120) 99]

theorem sweepOverPaid_expires_paid :
    Reached config anyStep (Gateway.after config anyStep sweepOverPaid) ∧
      (Gateway.after config anyStep sweepWaits).db.intentStatus 1 = some .paid ∧
      (Gateway.after config anyStep sweepOverPaid).db.intentStatus 1 = some .expired ∧
      ((Gateway.after config anyStep sweepOverPaid).db.attempts.row 3).map
        (fun row => (row.paymentIntentId, row.status)) = some (1, .settled) ∧
      ((Gateway.after config anyStep sweepOverPaid).db.fulfillments.row 1).isSome = true :=
  ⟨Gateway.after_reached _ _ _, by decide +kernel, by decide +kernel, by decide +kernel,
    by decide +kernel⟩

end Sample

def SettlesLastOpen (_ : Log Db Watch) (db : Db) (ws : List Write) : Prop :=
  ∀ a ∈ settledAttempts ws, ∀ e ∈ db.attempts.entries,
    (db.attempts.row a).map (·.paymentIntentId) = some e.2.paymentIntentId →
    e.2.status = .awaitingPayment → e.1 = a

instance (log : Log Db Watch) (db : Db) (ws : List Write) :
    Decidable (SettlesLastOpen log db ws) :=
  inferInstanceAs (Decidable (∀ a ∈ settledAttempts ws, ∀ e ∈ db.attempts.entries, _))

def closedStates : List PaymentIntentStatus := [.paid, .cancelled, .expired]

def ClosedIsClosed (db : Db) : Prop :=
  ∀ i intent a row, db.intents.row i = some intent → intent.status ∈ closedStates →
    db.attempts.row a = some row → row.paymentIntentId = i → row.status ≠ .awaitingPayment

section
variable {config : Config} {log : Log Db Watch} {db : Db} {ws : List Write}

theorem IntentMove.closes {i : Id} {status : PaymentIntentStatus} (sane : Sane config db)
    (move : IntentMove config log db ws i status) (forward : ∀ w ∈ ws, w.Forward)
    (last : SettlesLastOpen log db ws) (closed : status ∈ closedStates) {a : Id}
    {old row : AttemptRow} (before : db.attempts.row a = some old) (of : old.paymentIntentId = i)
    (live : old.status = .awaitingPayment)
    (after : (applyAll ws db).attempts.row a = some row) : row.status ≠ .awaitingPayment := by
  cases move with
  | issue => exact absurd closed (by decide)
  | cancel _ _ _ all => exact not_awaiting_of_closed forward before (all a old before of live) after
  | expire x sound e listed closes ofIntent shut =>
    -- the attempt that the sweep expires is the only live one
    have found := sound.expired e listed
    have same : a = e.attemptId := sane.lifecycle.oneLive before found.attempt live found.awaiting
      (of.trans ofIntent)
    subst same
    exact not_awaiting_of_closed forward before shut after
  | pay p sound all ofIntent target =>
    subst all ofIntent
    have completes : p.completes = true := by
      by_contra part
      simp [part] at target
      exact absurd closed (by simp [target, closedStates])
    have same : a = p.command.attemptId := by
      refine last _ (p.mem_settledAttempts completes db) (a, old) (Table.mem_entries.mpr before)
        ?_ live
      rw [sound.attempt, of]
      exact congrArg some sound.ofIntent
    subst same
    cases (p.attempt_after sound.attempt).symm.trans after
    simp [completes]

theorem ClosedIsClosed.keep (quiet : ClosedIsClosed db) (sane : Sane config db)
    (eff : Effect config log db ws) (last : SettlesLastOpen log db ws) :
    ClosedIsClosed (applyAll ws db) := by
  have forward : ∀ w ∈ ws, w.Forward := fun w mem => eff.forward mem
  intro i intent a row after closed attempt of live
  rcases awaiting_origin forward attempt live with before | new
  · have status : ((applyAll ws db).intents.row i).map (·.status) = some intent.status := by
      rw [after]; rfl
    rcases intentStatus_origin status with old | moved | ⟨fresh, mem, same⟩
    · obtain ⟨intent', found, same⟩ := Option.map_eq_some_iff.mp old
      exact quiet i intent' a row found (same ▸ closed) before of live
    · exact (eff.intentMove moved).closes sane forward last closed before of live attempt live
    · rw [← same, (eff.insertIntent_mem mem).2] at closed
      exact absurd closed (by decide)
  · -- a new attempt comes with a quote, which opens the intent
    obtain ⟨q, sound, rfl, _, rfl⟩ := eff.insertAttempt_mem new
    subst of
    cases sound.intent_after.symm.trans after
    exact absurd closed (by simp [closedStates])

/-- In every run in which an attempt is settled only while no other attempt of its
    intent is live, a paid, cancelled or expired intent has no live attempt. -/
theorem closed_intent_has_no_open_attempt {s : Gateway}
    (reached : Reached config (OnCommit SettlesLastOpen) s) {i a : Id} {intent : IntentRow}
    {row : AttemptRow} (found : s.db.intents.row i = some intent)
    (closed : intent.status = .paid ∨ intent.status = .cancelled ∨ intent.status = .expired)
    (attempt : s.db.attempts.row a = some row) (of : row.paymentIntentId = i) :
    row.status ≠ .awaitingPayment := by
  have quiet : ClosedIsClosed s.db := reached.keeps_onCommit (fun _ _ _ _ none => by cases none)
    fun _ _ _ sane eff last quiet => quiet.keep sane eff last
  exact quiet i intent a row found (by simpa [closedStates] using closed) attempt of

end

namespace Sample

theorem closed_intent_has_no_open_attempt_settled :
    ∃ s intent row, Reached config (OnCommit SettlesLastOpen) s ∧
      s.db.intents.row 1 = some intent ∧ intent.status = .paid ∧ s.db.attempts.row 3 = some row ∧
      row.status ≠ .awaitingPayment := by
  have reached := Gateway.after_reached config (OnCommit SettlesLastOpen) settled
  obtain ⟨intent, found, paid⟩ := Option.map_eq_some_iff.mp (by decide +kernel :
    ((Gateway.after config (OnCommit SettlesLastOpen) settled).db.intents.row 1).map (·.status) =
      some .paid)
  obtain ⟨row, attempt, of⟩ := Option.map_eq_some_iff.mp (by decide +kernel :
    ((Gateway.after config (OnCommit SettlesLastOpen) settled).db.attempts.row 3).map
      (·.paymentIntentId) = some 1)
  exact ⟨_, intent, row, reached, found, paid, attempt,
    closed_intent_has_no_open_attempt reached found (.inl paid) attempt of⟩

def paidThroughOlder : List (Slice Request) :=
  requoted ++ whole 7 (seconds 60) (sighting 0 100 1) ++
    whole 8 (seconds 60) (sighted 8 0 100 1) ++ whole 9 (seconds 60) (.settlePending lease 10)

theorem paidThroughOlder_leaves_open :
    Reached config anyStep (Gateway.after config anyStep paidThroughOlder) ∧
      (Gateway.after config anyStep paidThroughOlder).db.intentStatus 1 = some .paid ∧
      ((Gateway.after config anyStep paidThroughOlder).db.attempts.row 6).map
        (fun row => (row.paymentIntentId, row.status)) = some (1, .awaitingPayment) :=
  ⟨Gateway.after_reached _ _ _, by decide +kernel, by decide +kernel⟩

end Sample

section
variable {config : Config} {log : Log Db Watch} {db : Db} {ws : List Write}

theorem decidedOrClaimed_persists {i : Id} (decided : db.decidedOrClaimed i = true)
    (ws : List Write) : (applyAll ws db).decidedOrClaimed i = true := by
  rw [decidedOrClaimed_eq_true] at decided ⊢
  rcases decided with ⟨t, row, found⟩ | ⟨t, claim, found, of⟩
  · obtain ⟨kept, stored, _⟩ := Option.map_eq_some_iff.mp
      ((decided_persists (i, t)).applyAll (by rw [found]; rfl) ws)
    exact .inl ⟨t, kept, stored⟩
  · exact .inr ⟨t, claim, (claims_inserts.persists t).applyAll found ws, of⟩

theorem Sane.attempt_of_decided (sane : Sane config db) {i : Id}
    (decided : db.decidedOrClaimed i = true) :
    ∃ a terms, db.attemptTerms a = some terms ∧ terms.paymentIntentId = i := by
  rcases decidedOrClaimed_eq_true.mp decided with ⟨t, row, found⟩ | ⟨t, claim, found, of⟩
  · exact sane.lifecycle.decided found
  · obtain ⟨a, allocation, allocated, same⟩ := sane.ledger.claim found
    obtain ⟨terms, stored, ofIntent⟩ := (sane.ledger.allocation allocated).attempt
    exact ⟨a, terms, stored, ofIntent.trans (same.trans of)⟩

theorem Issue.Sound.undecided {q : Issue} (sound : q.Sound log db) (sane : Sane config db) :
    db.decidedOrClaimed q.plan.paymentIntentId = false := by
  by_contra decided
  rw [Bool.not_eq_false] at decided
  rcases sound.quotable with first | ⟨_, untouched⟩
  · obtain ⟨a, terms, stored, of⟩ := sane.attempt_of_decided decided
    exact sane.lifecycle.unquoted sound.intent first stored of
  · rw [untouched] at decided
    cases decided

structure LeavesAlone (ws : List Write) (i : Id) : Prop where
  noQuote : ∀ id row, .insertQuote id row ∈ ws → row.plan.paymentIntentId ≠ i
  noAttempt : ∀ id row, .insertAttempt id row ∈ ws → row.paymentIntentId ≠ i
  noCancel : .setIntentStatus i .cancelled ∉ ws

theorem Effect.leavesAlone (eff : Effect config log db ws) (sane : Sane config db) {i : Id}
    (decided : db.decidedOrClaimed i = true) : LeavesAlone ws i := by
  constructor
  · rintro id row mem rfl
    obtain ⟨q, sound, _, _, same⟩ := eff.insertQuote_mem mem
    rw [same, sound.undecided sane] at decided
    cases decided
  · rintro id row mem rfl
    obtain ⟨q, sound, _, _, rfl⟩ := eff.insertAttempt_mem mem
    have undecided := sound.undecided sane
    exact absurd (undecided.symm.trans decided) (by decide)
  · intro mem
    cases eff.intentMove mem with
    | cancel _ _ untouched => cases untouched.symm.trans decided
    | pay p sound all of target => split at target <;> cases target

/-- In every run, an intent has at most one live attempt, and once a decision or a
    claim for it is committed no later commit quotes or cancels it. -/
theorem requote_and_cancel_safe {allow : Gateway → Event Request → Prop} {s : Gateway}
    (reached : Reached config allow s) (i : Id) :
    (∀ a b row other, s.db.attempts.row a = some row → s.db.attempts.row b = some other →
      row.paymentIntentId = i → other.paymentIntentId = i → row.status = .awaitingPayment →
      other.status = .awaitingPayment → a = b) ∧
    (s.db.decidedOrClaimed i = true → ∀ s', System.Reach (program config) allow s s' →
      s'.db.decidedOrClaimed i = true ∧ ∀ (e : Event Request) log ws,
        s'.committing e = some (log, ws) → LeavesAlone ws i) := by
  constructor
  · intro a b row other first second of of' live live'
    exact reached.sane.lifecycle.oneLive first second live live' (of.trans of'.symm)
  · intro decided s' later
    have still : s'.db.decidedOrClaimed i = true :=
      reached.keeps_later (P := fun db => db.decidedOrClaimed i = true) decided
        (fun _ _ _ ws _ _ _ _ held => decidedOrClaimed_persists held ws) later
    have reached' := reached.later later
    exact ⟨still, fun e log ws commits => (reached'.effect commits).leavesAlone reached'.sane still⟩

end

namespace Sample

theorem requote_and_cancel_safe_settled :
    ∃ s, Reached config anyStep s ∧ s.db.decidedOrClaimed 1 = true ∧
      ∀ s', System.Reach (program config) anyStep s s' → s'.db.decidedOrClaimed 1 = true := by
  have reached := Gateway.after_reached config anyStep settled
  have decided : (Gateway.after config anyStep settled).db.decidedOrClaimed 1 = true := by
    decide +kernel
  exact ⟨_, reached, decided,
    fun s' later => ((requote_and_cancel_safe reached 1).2 decided s' later).1⟩

end Sample
end CryptoGateway
