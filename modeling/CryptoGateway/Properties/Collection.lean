import CryptoGateway.Invariant.Moves
import CryptoGateway.Runs

/-!
How much an attempt and an intent collect. A sum of allocations is read by one statement and spent
by a later one, so the bounds hold where nothing changes it in between.
-/
namespace CryptoGateway
open Engine

def paidAttempts (ws : List Write) : List Id :=
  ws.filterMap fun
    | .insertAllocation attempt _ _ => some attempt
    | _ => none

def SumUnchanged (log : Log Db Watch) (db : Db) (ws : List Write) : Prop :=
  ∀ a ∈ paidAttempts ws,
    (log.lookup (.allocated a)).map (·.db.allocatedTo a) = some (db.allocatedTo a)

instance (log : Log Db Watch) (db : Db) (ws : List Write) : Decidable (SumUnchanged log db ws) :=
  inferInstanceAs (Decidable (∀ a ∈ paidAttempts ws, _))

def Collected (db : Db) : Prop :=
  ∀ a row, db.attempts.row a = some row → db.allocatedTo a ≤ row.expectedAmountRaw ∧
    (row.status = .settled → db.allocatedTo a = row.expectedAmountRaw)

section
variable {config : Config} {log : Log Db Watch} {db : Db} {ws : List Write}

theorem Payment.mem_paidAttempts (p : Payment) (db : Db) :
    p.command.attemptId ∈ paidAttempts (p.writes db) :=
  List.mem_filterMap.mpr ⟨.insertAllocation p.command.attemptId p.command.transferId p.allocation,
    by simp [Payment.writes, Payment.bookWrites], rfl⟩

theorem Ledger.allocatedTo_of_absent (ledger : Ledger db) {a : Id}
    (absent : db.attempts.row a = none) : db.allocatedTo a = 0 := by
  refine Table.total_eq_zero _ fun ⟨b, t⟩ row found => if_neg ?_
  rintro rfl
  obtain ⟨terms, stored, _⟩ := (ledger.allocation found).attempt
  simp [Db.attemptTerms, absent] at stored

theorem Payment.Sound.collects {p : Payment} (sound : p.Sound config log db)
    (unchanged : SumUnchanged log db (p.writes db))
    (within : db.allocatedTo p.command.attemptId ≤ p.attempt.expectedAmountRaw) :
    p.allocateRaw + db.allocatedTo p.command.attemptId ≤ p.attempt.expectedAmountRaw ∧
      (p.completes = true →
        p.allocateRaw + db.allocatedTo p.command.attemptId = p.attempt.expectedAmountRaw) := by
  obtain ⟨m, looked, takes⟩ := sound.seen
  have same := unchanged _ (p.mem_paidAttempts db)
  rw [looked, Option.map_some, Option.some.injEq] at same
  rw [same] at takes
  have le : p.allocateRaw ≤ _ := takes.allocate_le
  refine ⟨by omega, fun completes => ?_⟩
  have eq : p.allocateRaw = _ := takes.completes_eq completes
  omega

theorem Collected.keep (collected : Collected db) (sane : Sane config db)
    (eff : Effect config log db ws) (unchanged : SumUnchanged log db ws) :
    Collected (applyAll ws db) := by
  intro a row after
  rcases eff.pay_or with ⟨p, sound, rfl⟩ | other
  · rw [sound.allocatedTo_after]
    by_cases same : p.command.attemptId = a
    · subst same
      have open_ : p.attempt.status ≠ .settled := by
        intro settled
        exact absurd sound.allocatable (by simp [settled, allocatableAttemptStates])
      obtain ⟨le, full⟩ := sound.collects unchanged (collected _ _ sound.attempt).1
      cases (p.attempt_after sound.attempt).symm.trans after
      rw [if_pos rfl]
      refine ⟨le, fun settled => full ?_⟩
      by_contra stays
      simp [stays, open_] at settled
    · rw [p.attempts_other (Ne.symm same)] at after
      rw [if_neg same, Nat.zero_add]
      exact collected a row after
  · have sum : (applyAll ws db).allocatedTo a = db.allocatedTo a := by
      rw [Db.allocatedTo, allocations_same fun w mem eq => other w mem (by simp [eq])]
      rfl
    have before : row.status = .settled →
        ∃ old, db.attempts.row a = some old ∧ old.status = .settled := by
      intro settled
      rcases eff.settled_before after settled with old | ⟨p, _, rfl, _⟩
      · exact old
      · exact absurd (other (.insertAllocation p.command.attemptId
          p.command.transferId p.allocation)
          (by simp [Payment.writes, Payment.bookWrites])) (by simp [Write.table])
    rw [sum]
    rcases eff.attempt_before after with ⟨old, found, terms⟩ | absent
    · have expected : old.expectedAmountRaw = row.expectedAmountRaw :=
        congrArg AttemptTerms.expectedAmountRaw terms
      rw [← expected]
      refine ⟨(collected a old found).1, fun settled => ?_⟩
      obtain ⟨old', found', status⟩ := before settled
      cases found.symm.trans found'
      exact (collected a old found).2 status
    · rw [sane.ledger.allocatedTo_of_absent absent]
      refine ⟨Nat.zero_le _, fun settled => ?_⟩
      obtain ⟨old, found, _⟩ := before settled
      cases absent.symm.trans found

/-- In every run in which allocations are committed on unchanged sums, an attempt
    collects at most what it expects, and exactly that once it is settled. -/
theorem attempt_collects_expected {s : Gateway} (reached : Reached config (OnCommit SumUnchanged) s)
    {a : Id} {row : AttemptRow} (found : s.db.attempts.row a = some row) :
    s.db.allocatedTo a ≤ row.expectedAmountRaw ∧
      (row.status = .settled → s.db.allocatedTo a = row.expectedAmountRaw) :=
  reached.keeps_onCommit (P := Collected) (fun _ _ none => by cases none)
    (fun _ _ _ sane eff unchanged collected => collected.keep sane eff unchanged) a row found

end

namespace Sample

theorem attempt_collects_expected_settled :
    ∃ s row, Reached config (OnCommit SumUnchanged) s ∧ s.db.attempts.row 3 = some row ∧
      row.status = .settled ∧ s.db.allocatedTo 3 = row.expectedAmountRaw := by
  have reached := Gateway.after_reached config (OnCommit SumUnchanged) settled
  obtain ⟨row, found, status⟩ := Option.map_eq_some_iff.mp (by decide +kernel :
    ((Gateway.after config (OnCommit SumUnchanged) settled).db.attempts.row 3).map (·.status) =
      some .settled)
  exact ⟨_, row, reached, found, status, (attempt_collects_expected reached found).2 status⟩

def staleSum : List (Slice Request) :=
  opening ++ whole 5 0 (transfer 0 40 1) ++ whole 6 0 (sighting 1 100 2) ++
    whole 7 0 (sighted 6 1 100 2) ++ [.start (.settlePending lease 10), .work 8 0 17] ++
    whole 9 0 (.resolveManual (operator 9) (key 'd') (honor 5 40)) ++ [.work 8 0 99]

theorem staleSum_overcollects :
    Reached config anyStep (Gateway.after config anyStep staleSum) ∧
      ((Gateway.after config anyStep staleSum).db.attempts.row 3).map
        (fun row => (row.status, row.expectedAmountRaw)) = some (.settled, 100) ∧
      (Gateway.after config anyStep staleSum).db.allocatedTo 3 = 140 :=
  ⟨Gateway.after_reached _ _ _, by decide +kernel, by decide +kernel⟩

end Sample

def SettlesAlone (db : Db) (ws : List Write) : Prop :=
  ∀ a ∈ settledAttempts ws, ∀ e ∈ db.allocations.entries,
    (db.attempts.row a).map (·.paymentIntentId) = some e.2.paymentIntentId → e.1.1 = a

def CollectsOnce (log : Log Db Watch) (db : Db) (ws : List Write) : Prop :=
  SumUnchanged log db ws ∧ SettlesAlone db ws

instance (db : Db) (ws : List Write) : Decidable (SettlesAlone db ws) :=
  inferInstanceAs (Decidable (∀ a ∈ settledAttempts ws, ∀ e ∈ db.allocations.entries, _))

instance (log : Log Db Watch) (db : Db) (ws : List Write) : Decidable (CollectsOnce log db ws) :=
  inferInstanceAs (Decidable (_ ∧ _))

def Db.collectedFor (db : Db) (paymentIntentId : Id) : Nat :=
  db.allocations.total fun _ row =>
    if row.paymentIntentId = paymentIntentId then row.allocatedRaw else 0

structure PaidThroughOne (db : Db) : Prop where
  settled : ∀ a row, db.attempts.row a = some row → row.status = .settled →
    ∃ t allocation, db.allocations.row (a, t) = some allocation
  paid : ∀ i intent, db.intents.row i = some intent → intent.status = .paid →
    ∃ a row, db.attempts.row a = some row ∧ row.paymentIntentId = i ∧ row.status = .settled ∧
      ∀ b t allocation, db.allocations.row (b, t) = some allocation →
        allocation.paymentIntentId = i → b = a

section
variable {config : Config} {log : Log Db Watch} {db : Db} {ws : List Write}

theorem Payment.Sound.allocation_after {p : Payment} (sound : p.Sound config log db) :
    (applyAll (p.writes db) db).allocations.row (p.command.attemptId, p.command.transferId) =
      some p.allocated := by
  rw [p.allocations_after sound.unallocated, Table.row_insert_fresh sound.unallocated, if_pos rfl]

theorem PaidThroughOne.keep (one : PaidThroughOne db) (eff : Effect config log db ws)
    (alone : SettlesAlone db ws) : PaidThroughOne (applyAll ws db) := by
  constructor
  · intro a row after settled
    rcases eff.settled_before after settled with ⟨old, found, status⟩ | ⟨p, sound, rfl, _, rfl⟩
    · obtain ⟨t, allocation, stored⟩ := one.settled a old found status
      obtain ⟨kept, found', _⟩ := Option.map_eq_some_iff.mp
        ((allocated_persists (a, t)).applyAll (by rw [stored]; rfl) ws)
      exact ⟨t, kept, found'⟩
    · exact ⟨_, _, sound.allocation_after⟩
  · intro i intent after paid
    rcases eff.paid_before after paid with ⟨old, found, status⟩ | ⟨p, sound, rfl, completes, rfl⟩
    · obtain ⟨a, row, stored, of, settled, only⟩ := one.paid i old found status
      refine ⟨a, row, eff.settled_stays stored settled, of, settled, ?_⟩
      intro b t allocation allocated ofIntent
      rcases eff.pay_or with ⟨p, sound, rfl⟩ | other
      · rcases sound.allocation_rows allocated with ⟨_, rfl⟩ | before
        · rw [Payment.allocated_paymentIntentId] at ofIntent
          subst ofIntent
          exact absurd status (sound.unpaid found)
        · exact only b t allocation before ofIntent
      · rw [allocations_same fun w mem eq => other w mem (by simp [eq])] at allocated
        exact only b t allocation allocated ofIntent
    · refine ⟨_, _, p.attempt_after sound.attempt, sound.ofIntent, by simp [completes], ?_⟩
      intro b t allocation allocated ofIntent
      rcases sound.allocation_rows allocated with ⟨key, _⟩ | before
      · cases key; rfl
      · refine alone _ (p.mem_settledAttempts completes db) ((b, t), allocation)
          (Table.mem_entries.mpr before) ?_
        rw [sound.attempt, ofIntent]
        exact congrArg some sound.ofIntent

/-- In every run in which allocations are committed on unchanged sums, and an attempt
    is settled only while no other attempt of its intent has money, all the money of
    a paid intent is that of its one settled attempt. -/
theorem paid_intent_collects_once {s : Gateway} (reached : Reached config (OnCommit CollectsOnce) s)
    {i : Id} {intent : IntentRow} (found : s.db.intents.row i = some intent)
    (paid : intent.status = .paid) :
    ∃ a row, s.db.attempts.row a = some row ∧ row.paymentIntentId = i ∧ row.status = .settled ∧
      (∀ b other, s.db.attempts.row b = some other → other.paymentIntentId = i →
        other.status = .settled → b = a) ∧
      (∀ b t allocation, s.db.allocations.row (b, t) = some allocation →
        allocation.paymentIntentId = i → b = a) ∧
      s.db.collectedFor i = row.expectedAmountRaw := by
  have one : PaidThroughOne s.db := reached.keeps_onCommit
    ⟨fun _ _ none => (by cases none), fun _ _ none => (by cases none)⟩
    fun _ _ _ _ eff ok one => one.keep eff ok.2
  have collected : Collected s.db := reached.keeps_onCommit (fun _ _ none => by cases none)
    fun _ _ _ sane eff ok collected => collected.keep sane eff ok.1
  have ledger := reached.sane.ledger
  have ofAttempt : ∀ {b t allocation row}, s.db.allocations.row (b, t) = some allocation →
      s.db.attempts.row b = some row → allocation.paymentIntentId = row.paymentIntentId := by
    intro b t allocation row stored attempt
    obtain ⟨terms, terms_found, of⟩ := (ledger.allocation stored).attempt
    simp only [Db.attemptTerms, attempt, Option.map_some, Option.some.injEq] at terms_found
    rw [← of, ← terms_found]
  obtain ⟨a, row, stored, of, settled, only⟩ := one.paid i intent found paid
  refine ⟨a, row, stored, of, settled, ?_, only, ?_⟩
  · intro b other stored' of' settled'
    obtain ⟨t, allocation, allocated⟩ := one.settled b other stored' settled'
    exact only b t allocation allocated ((ofAttempt allocated stored').trans of')
  · rw [← (collected a row stored).2 settled]
    refine Table.total_congr ?_
    rintro ⟨b, t⟩ allocation allocated
    by_cases same : b = a
    · subst same
      rw [if_pos ((ofAttempt allocated stored).trans of), if_pos rfl]
    · rw [if_neg fun ofIntent => same (only b t allocation allocated ofIntent), if_neg same]

end

namespace Sample

theorem paid_intent_collects_once_settled :
    ∃ s intent, Reached config (OnCommit CollectsOnce) s ∧ s.db.intents.row 1 = some intent ∧
      intent.status = .paid ∧ ∃ a row, s.db.attempts.row a = some row ∧ row.paymentIntentId = 1 ∧
        s.db.collectedFor 1 = row.expectedAmountRaw := by
  have reached := Gateway.after_reached config (OnCommit CollectsOnce) settled
  obtain ⟨intent, found, paid⟩ := Option.map_eq_some_iff.mp (by decide +kernel :
    ((Gateway.after config (OnCommit CollectsOnce) settled).db.intents.row 1).map (·.status) =
      some .paid)
  obtain ⟨a, row, stored, of, _, _, _, sum⟩ := paid_intent_collects_once reached found paid
  exact ⟨_, intent, reached, found, paid, a, row, stored, of, sum⟩

def paidTwice : List (Slice Request) :=
  requoted ++ whole 7 (seconds 60) (transfer 0 40 1) ++
    whole 8 (seconds 60) (.settlePending lease 10) ++
    whole 9 (seconds 60) (.resolveManual (operator 9) (key 'd') (honor 8 40)) ++
    whole 10 (seconds 61) (sighting 1 101 (seconds 61)) ++
    whole 11 (seconds 61) (sighted 12 1 101 (seconds 61)) ++
    whole 12 (seconds 61) (.settlePending lease 10)

theorem paidTwice_collects_twice :
    Reached config anyStep (Gateway.after config anyStep paidTwice) ∧
      ((Gateway.after config anyStep paidTwice).db.intents.row 1).map (·.status) = some .paid ∧
      ((Gateway.after config anyStep paidTwice).db.attempts.row 6).map
        (fun row => (row.paymentIntentId, row.status, row.expectedAmountRaw)) =
          some (1, .settled, 101) ∧
      ((Gateway.after config anyStep paidTwice).db.allocations.row (3, 8)).map
        (fun row => (row.paymentIntentId, row.allocatedRaw)) = some (1, 40) ∧
      (Gateway.after config anyStep paidTwice).db.collectedFor 1 = 141 :=
  ⟨Gateway.after_reached _ _ _, by decide +kernel, by decide +kernel, by decide +kernel,
    by decide +kernel⟩

end Sample
end CryptoGateway
