import CryptoGateway.Effects
import CryptoGateway.Storage.Frames

/-!
The foreign keys as the code relies on them: an attempt agrees with its intent, quote and
collector, and a lease has the window of its attempt.
-/
namespace CryptoGateway
open Engine

structure Window where
  collectorAddressId : Id
  amountRaw : Nat
  attemptId : Id
  leasedFrom : Int
  leasedUntil : Int
deriving DecidableEq

def LeaseRow.window (row : LeaseRow) : Window :=
  ⟨row.collectorAddressId, row.amountRaw, row.attemptId, row.leasedFrom, row.leaseUntil⟩

def LeaseHistoryRow.window (row : LeaseHistoryRow) : Window :=
  ⟨row.collectorAddressId, row.amountRaw, row.attemptId, row.leasedFrom, row.leasedUntil⟩

structure AttemptTerms.Linked (terms : AttemptTerms) (db : Db) : Prop where
  memo : terms.memoReference = none
  intent : ∃ intent, db.intentTerms terms.paymentIntentId = some intent ∧
    intent.merchantId = terms.merchantId
  quote : ∃ quote, db.quotes.row terms.quoteId = some quote ∧
    quote.plan.paymentIntentId = terms.paymentIntentId ∧
    quote.plan.collectorAddressId = terms.collectorAddressId ∧
    db.collectorAsset terms.collectorAddressId = some quote.plan.assetId

def Window.Linked (window : Window) (db : Db) : Prop :=
  ∃ terms, db.attemptTerms window.attemptId = some terms ∧
    terms.collectorAddressId = window.collectorAddressId ∧
    terms.expectedAmountRaw = window.amountRaw ∧
    terms.createdAt = window.leasedFrom ∧ terms.latePaymentUntil = window.leasedUntil

structure Links (db : Db) : Prop where
  attempt : ∀ {id terms}, db.attemptTerms id = some terms → terms.Linked db
  lease : ∀ {id row}, db.leases.row id = some row → row.window.Linked db
  history : ∀ {id row}, db.leaseHistory.row id = some row → row.window.Linked db
  transfer : ∀ {id row}, db.transfers.row id = some row →
    db.collectorAsset row.collectorAddressId = some row.assetId

theorem Links.empty : Links {} := by constructor <;> intro _ _ found <;> cases found

section Keep
variable {config : Config} {log : Log Db Watch} {db : Db} {ws : List Write}

theorem AttemptTerms.Linked.applyAll {terms : AttemptTerms} (linked : terms.Linked db)
    (ws : List Write) : terms.Linked (applyAll ws db) := by
  obtain ⟨memo, ⟨intent, found, merchant⟩, quote, stored, same, place, asset⟩ := linked
  exact ⟨memo, ⟨intent, (intentTerms_persists _).applyAll found ws, merchant⟩, quote,
    (quotes_inserts.persists _).applyAll stored ws, same, place,
    (collectorAsset_persists _).applyAll asset ws⟩

theorem Window.Linked.applyAll {window : Window} (linked : window.Linked db)
    (ws : List Write) : window.Linked (applyAll ws db) := by
  obtain ⟨terms, found, agree⟩ := linked
  exact ⟨terms, (attemptTerms_persists _).applyAll found ws, agree⟩

theorem Issue.Sound.linked {q : Issue} (sound : q.Sound log db) :
    (attemptOf q.plan q.amountRaw).toAttemptTerms.Linked (applyAll q.writes db) := by
  obtain ⟨collector, found, asset⟩ := sound.collector
  refine ⟨rfl, ⟨q.intent.toIntentTerms, ?_, sound.ofMerchant⟩,
    ⟨{ plan := q.plan, amountRaw := q.amountRaw }, ?_, rfl, rfl, ?_⟩⟩
  · exact (intentTerms_persists _).applyAll (by simp [Db.intentTerms, attemptOf, sound.intent]) _
  · simp [Issue.writes, Write.quotes, attemptOf, Table.row_insert_fresh sound.newQuote]
  · exact (collectorAsset_persists _).applyAll (by simp [Db.collectorAsset, attemptOf, found,
      asset]) _

theorem Issue.Sound.window_linked {q : Issue} (sound : q.Sound log db) :
    (leaseOf q.plan q.amountRaw).window.Linked (applyAll q.writes db) := by
  refine ⟨(attemptOf q.plan q.amountRaw).toAttemptTerms, ?_, rfl, rfl, rfl, rfl⟩
  simp [Db.attemptTerms, Issue.writes, Write.attempts, leaseOf, LeaseRow.window,
    Table.row_insert_fresh sound.newAttempt]

theorem Links.keep (links : Links db) (eff : Effect config log db ws) : Links (applyAll ws db) := by
  constructor
  · intro id terms found
    rcases attemptTerms_origin found with old | ⟨row, new, rfl⟩
    · exact (links.attempt old).applyAll ws
    · obtain ⟨q, sound, rfl, _, rfl⟩ := eff.insertAttempt_mem new
      exact sound.linked
  · intro id row found
    rcases leases_origin found with old | new
    · exact (links.lease old).applyAll ws
    · obtain ⟨q, sound, rfl, _, rfl⟩ := eff.insertLease_mem new
      exact sound.window_linked
  · intro id row found
    rcases leaseHistory_inserts.origin found with old | new
    · exact (links.history old).applyAll ws
    · -- an archived lease keeps the window it had while it was live
      obtain ⟨x, sound, rfl, lease, listed, rfl⟩ := eff.insertLeaseHistory_mem new
      exact (links.lease (sound.archived _ listed).1).applyAll _
  · intro id row found
    rcases transfers_inserts.origin found with old | new
    · exact (collectorAsset_persists _).applyAll (links.transfer old) ws
    · obtain ⟨collector, stored, asset⟩ := eff.insertTransfer_mem new
      exact (collectorAsset_persists _).applyAll (by simp [Db.collectorAsset, stored, asset]) ws

end Keep
end CryptoGateway
