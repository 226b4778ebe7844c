import CryptoGateway.Invariant.Books
import CryptoGateway.Runs

/-!
The decision record and its allocation. A later decision replaces the result of the first one and
keeps its attempt and its match strategy.
-/
namespace CryptoGateway
open Engine

section
variable {config : Config} {log : Log Db Watch} {db : Db} {ws : List Write}

theorem Reached.books {allow : Gateway → Event Request → Prop} {s : Gateway}
    (reached : Reached config allow s) : Books s.db :=
  reached.keeps Books.empty fun _ _ _ _ _ _ _ sane eff books => books.keep sane.ledger eff

structure DecisionRow.Describes (decision : DecisionRow) (attemptId : Id) (row : AllocationRow)
    (claim : ClaimRow) : Prop where
  attemptId : decision.attemptId = attemptId
  allocatedRaw : decision.allocatedRaw = row.allocatedRaw
  money : decision.outcome ∈ moneyOutcomes
  matchStrategy : decision.matchStrategy = claim.matchStrategy
  manual : decision.matchStrategy = .manual ↔ row.reason = .manual

def allocatedPairs (ws : List Write) : List (Id × Id) :=
  ws.filterMap fun
    | .insertAllocation _ transfer row => some (row.paymentIntentId, transfer)
    | _ => none

def DecidedOnce (_ : Log Db Watch) (db : Db) (ws : List Write) : Prop :=
  ∀ key ∈ allocatedPairs ws, db.decisions.row key = none

instance (log : Log Db Watch) (db : Db) (ws : List Write) : Decidable (DecidedOnce log db ws) :=
  inferInstanceAs (Decidable (∀ key ∈ allocatedPairs ws, _))

def AllDescribed (db : Db) : Prop :=
  ∀ a t row, db.allocations.row (a, t) = some row →
    ∃ decision claim, db.decisions.row (row.paymentIntentId, t) = some decision ∧
      db.claims.row t = some claim ∧ claim.attemptId = a ∧ decision.Describes a row claim

theorem Payment.mem_allocatedPairs (p : Payment) (db : Db) :
    (p.command.paymentIntentId, p.command.transferId) ∈ allocatedPairs (p.writes db) :=
  List.mem_filterMap.mpr
    ⟨.insertAllocation p.command.attemptId p.command.transferId p.allocation,
      by simp [Payment.writes, Payment.bookWrites], rfl⟩

theorem Payment.Sound.describes {p : Payment} (sound : p.Sound config log db) :
    (p.signed (decidedRow p.command p.result none)).Describes p.command.attemptId p.allocated
      (claimOf p.command p.attempt) where
  attemptId := by rw [signed_attemptId]; rfl
  allocatedRaw := by rw [signed_allocatedRaw, allocated_allocatedRaw]; rfl
  money := by rw [signed_outcome]; exact sound.moves
  matchStrategy := by rw [signed_matchStrategy]; rfl
  manual := by rw [signed_matchStrategy]; exact allocated_reason sound

theorem AllDescribed.keep (all : AllDescribed db) (ledger : Ledger db)
    (eff : Effect config log db ws) (once : DecidedOnce log db ws) :
    AllDescribed (applyAll ws db) := by
  intro a t row after
  rcases eff.allocation_origin ledger after with ⟨old, same⟩ | ⟨p, sound, rfl, rfl, rfl, rfl⟩
  · obtain ⟨decision, claim, decided, claimed, rest⟩ := all a t row old
    exact ⟨decision, claim, by rw [same]; exact decided,
      (claims_inserts.persists t).applyAll claimed ws, rest⟩
  · have fresh := once _ (p.mem_allocatedPairs db)
    refine ⟨_, claimOf p.command p.attempt, ?_, ?_, rfl, sound.describes⟩
    · rw [p.decisions_after, Payment.allocated_paymentIntentId, if_pos rfl, fresh]
    · rw [p.claims_after, Table.row_insert_fresh sound.unclaimed, if_pos rfl]

/-- In every run in which no money is allocated for an intent and a transfer that a
    decision is stored about, every allocation has exactly one decision, and that
    decision describes it. -/
theorem decision_describes_allocation {s : Gateway}
    (reached : Reached config (OnCommit DecidedOnce) s) {a t : Id} {row : AllocationRow}
    (found : s.db.allocations.row (a, t) = some row) :
    ∃ decision claim,
      s.db.decisions.entries.filter (fun e => e.1 = (row.paymentIntentId, t)) =
        [((row.paymentIntentId, t), decision)] ∧
      s.db.claims.row t = some claim ∧ claim.attemptId = a ∧ decision.Describes a row claim := by
  have all : AllDescribed s.db := reached.keeps_onCommit (fun _ _ _ none => by cases none)
    fun _ _ _ sane eff once all => all.keep sane.ledger eff once
  obtain ⟨decision, claim, decided, rest⟩ := all a t row found
  exact ⟨decision, claim, Table.filter_entries decided, rest⟩

end

namespace Sample

theorem decision_describes_allocation_settled :
    ∃ s row claim, ∃ decision : DecisionRow, Reached config (OnCommit DecidedOnce) s ∧
      s.db.allocations.row (3, 6) = some row ∧ s.db.claims.row 6 = some claim ∧
      decision.Describes 3 row claim := by
  have reached := Gateway.after_reached config (OnCommit DecidedOnce) settled
  obtain ⟨row, found, _⟩ := Option.map_eq_some_iff.mp (by decide +kernel :
    ((Gateway.after config (OnCommit DecidedOnce) settled).db.allocations.row (3, 6)).map
      (·.allocatedRaw) = some 100)
  obtain ⟨decision, claim, _, claimed, _, describes⟩ := decision_describes_allocation reached found
  exact ⟨_, row, claim, decision, reached, found, claimed, describes⟩

def honoredElsewhere : List (Slice Request) :=
  requoted ++ whole 7 (seconds 70) (transfer 0 100 (seconds 70)) ++
    whole 8 (seconds 71) (.submitRisk screener ⟨8, ['r'], .deny, seconds 71⟩) ++
    whole 9 (seconds 71) (.settlePending lease 10) ++
    whole 10 (seconds 72) (.proposeHonor (operator 1) (key 'p')
      ⟨.honor, 8, some 1, some 6, some 100, none, none, none, ['y']⟩) ++
    whole 11 (seconds 72) (.approveHonor (operator 2) 10 (key 'q') ['z'])

theorem honoredElsewhere_misdescribed :
    Reached config anyStep (Gateway.after config anyStep honoredElsewhere) ∧
      ((Gateway.after config anyStep honoredElsewhere).db.allocations.row (6, 8)).map
        (fun row => (row.paymentIntentId, row.allocatedRaw, row.reason)) =
          some (1, 100, .manual) ∧
      ((Gateway.after config anyStep honoredElsewhere).db.claims.row 8).map
        (fun claim => (claim.attemptId, claim.matchStrategy)) = some (6, .manual) ∧
      ((Gateway.after config anyStep honoredElsewhere).db.decisions.row (1, 8)).map
        (fun decision => (decision.outcome, decision.allocatedRaw, decision.attemptId,
          decision.matchStrategy)) = some (.partialPay, 100, 3, .historicalSlot) :=
  ⟨Gateway.after_reached _ _ _, by decide +kernel, by decide +kernel, by decide +kernel⟩

end Sample
end CryptoGateway
