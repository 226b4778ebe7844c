import CryptoGateway.Properties.Intents

/-!
Merchants are kept apart: what is stored about a payment names the merchant of its intent,
and an idempotency key stands for the merchant's own resource.
-/
namespace CryptoGateway
open Engine

def Db.Owns (db : Db) (merchantId intentId : Id) : Prop :=
  (db.intentTerms intentId).map (·.merchantId) = some merchantId

/-- What a key that was spent on a route stands for belongs to the merchant. -/
def Db.Has (db : Db) (merchantId resourceId : Id) : Route → Prop
  | .quote => ∃ row, db.quotes.row resourceId = some row ∧ row.plan.merchantId = merchantId
  | _ => db.Owns merchantId resourceId

structure Billing (db : Db) : Prop where
  claim : ∀ {t row}, db.claims.row t = some row → db.Owns row.merchantId row.paymentIntentId
  allocation : ∀ {key row}, db.allocations.row key = some row →
    db.Owns row.merchantId row.paymentIntentId
  fulfillment : ∀ {i row}, db.fulfillments.row i = some row → db.Owns row.merchantId i

structure Tenancy (db : Db) : Prop extends Billing db where
  quote : ∀ {id row}, db.quotes.row id = some row →
    db.Owns row.plan.merchantId row.plan.paymentIntentId
  attempt : ∀ {id terms}, db.attemptTerms id = some terms →
    db.Owns terms.merchantId terms.paymentIntentId
  paid : ∀ {e row}, db.events.row e = some row → row.eventType = .paymentIntentPaid →
    ∃ m, row.merchantId = some m ∧ db.Owns m row.aggregateId
  spent : ∀ {m route key record}, db.idempotency.row (m, route, key) = some record →
    db.Has m record.resourceId route

section Keep
variable {config : Config} {log : Log Db Watch} {db : Db} {ws : List Write} {m i : Id}

theorem Db.Owns.applyAll (owns : db.Owns m i) (ws : List Write) : (applyAll ws db).Owns m i :=
  ((intentTerms_persists i).map (·.merchantId)).applyAll owns ws

theorem Db.Has.applyAll {route : Route} (holds : db.Has m i route) (ws : List Write) :
    (applyAll ws db).Has m i route := by
  cases route with
  | quote => exact holds.imp fun _ => And.imp_left ((quotes_inserts.persists i).applyAll · ws)
  | create | cancel => exact Db.Owns.applyAll holds ws

theorem Payment.Sound.owns {p : Payment} (sound : p.Sound config log db) :
    db.Owns p.command.merchantId p.command.paymentIntentId := by
  simp [Db.Owns, Db.intentTerms, sound.intent, sound.ofMerchant]

theorem Issue.Sound.owns {q : Issue} (sound : q.Sound log db) :
    db.Owns q.plan.merchantId q.plan.paymentIntentId := by
  simp [Db.Owns, Db.intentTerms, sound.intent, sound.ofMerchant]

theorem Payment.event_of_mem {p : Payment} {e : Id} {row : EventRow}
    (mem : .insertEvent e row ∈ p.writes db) : ∃ kind, row = p.event kind := by
  rcases part_of_mem mem with ⟨t, mem⟩ | ⟨t, mem⟩ | ⟨t, mem⟩ | ⟨t, _⟩ | ⟨t, mem⟩ | ⟨t, mem⟩ <;>
    simp [Write.table] at t
  · unfold statusWrites fulfillmentWrites at mem
    split_ifs at mem <;> simp at mem <;> exact ⟨_, mem.2⟩
  · unfold remainderWrites at mem
    split_ifs at mem <;> simp at mem
    exact ⟨_, mem.2⟩

theorem Payment.allocated_merchantId (p : Payment) :
    p.allocated.merchantId = p.command.merchantId := by
  unfold allocated
  split <;> rfl

theorem Billing.keep (billing : Billing db) (eff : Effect config log db ws) :
    Billing (applyAll ws db) := by
  rcases eff.pay_or with ⟨p, sound, rfl⟩ | other
  · constructor
    · intro t row found
      rw [p.claims_after] at found
      rcases Table.row_insert_cases found with old | ⟨_, _, rfl⟩
      · exact (billing.claim old).applyAll _
      · exact sound.owns.applyAll _
    · intro key row found
      rcases sound.allocation_rows found with ⟨_, rfl⟩ | old
      · rw [p.allocated_merchantId, p.allocated_paymentIntentId]
        exact sound.owns.applyAll _
      · exact (billing.allocation old).applyAll _
    · intro i row found
      rw [p.fulfillments_after] at found
      split at found
      · rcases Table.row_insert_cases found with old | ⟨_, rfl, rfl⟩
        · exact (billing.fulfillment old).applyAll _
        · exact sound.owns.applyAll _
      · exact (billing.fulfillment found).applyAll _
  · have out {n : TableName} (listed : n ∈ [TableName.claims, .allocations, .fulfillments]) :
        ∀ w ∈ ws, w.table ≠ n := fun w mem eq => other w mem (eq ▸ listed)
    constructor <;> intro _ _ found
    · rw [claims_same (out (by simp))] at found
      exact (billing.claim found).applyAll ws
    · rw [allocations_same (out (by simp))] at found
      exact (billing.allocation found).applyAll ws
    · rw [fulfillments_same (out (by simp))] at found
      exact (billing.fulfillment found).applyAll ws

theorem Tenancy.keep (tenancy : Tenancy db) (links : Links (applyAll ws db))
    (eff : Effect config log db ws) : Tenancy (applyAll ws db) where
  toBilling := tenancy.toBilling.keep eff
  quote {id row} found := by
    rcases quotes_inserts.origin found with old | new
    · exact (tenancy.quote old).applyAll ws
    · obtain ⟨q, sound, _, _, rfl⟩ := eff.insertQuote_mem new
      exact sound.owns.applyAll ws
  attempt found := by
    obtain ⟨intent, stored, merchant⟩ := (links.attempt found).intent
    simp [Db.Owns, stored, merchant]
  paid {e row} found paid := by
    rcases events_inserts.origin found with old | new
    · obtain ⟨m, named, owns⟩ := tenancy.paid old paid
      exact ⟨m, named, owns.applyAll ws⟩
    · obtain ⟨p, sound, rfl, _⟩ := eff.insertEvent_mem new paid
      obtain ⟨kind, rfl⟩ := p.event_of_mem new
      exact ⟨_, rfl, sound.owns.applyAll _⟩
  spent {m route key record} found := by
    rcases idempotency_inserts.origin found with old | new
    · exact (tenancy.spent old).applyAll ws
    · cases eff with
      | create id row absent =>
        simp at new
        obtain ⟨rfl, rfl, rfl, rfl⟩ := new
        simp [Db.Has, Db.Owns, Db.intentTerms, Write.intents, Table.row_insert_fresh absent]
      | cancel stored _ _ _ _ merchant =>
        simp at new
        obtain ⟨rfl, rfl, rfl, rfl⟩ := new
        exact Db.Owns.applyAll (by simp [Db.Owns, Db.intentTerms, stored, merchant]) _
      | issue q sound =>
        simp [Issue.writes] at new
        obtain ⟨rfl, rfl, rfl, rfl⟩ := new
        exact ⟨⟨q.plan, q.amountRaw⟩, by
          simp [Issue.writes, Write.quotes, Table.row_insert_fresh sound.newQuote], rfl⟩
      | aside only => exact absurd (only _ new) (by simp [Write.table, asideTables])
      | pay p => cases p.isDecision_of_mem new
      | park => cases isDecision_of_mem_park new
      | _ => simp [Sweep.writes, Expiry.writes, Sweep.archiveWrites, attestationWrites,
          StateStep.writes] at new

end Keep

/-- In every run, what a merchant's payment left behind is that merchant's. -/
theorem merchants_apart {config : Config} {allow : Gateway → Event Request → Prop} {s : Gateway}
    (reached : Reached config allow s) : Tenancy s.db := by
  refine reached.keeps ?_ fun s e log ws before _ _ sane eff tenancy => ?_
  · exact ⟨by constructor <;> intros <;> contradiction, nofun, nofun, nofun, nofun⟩
  · exact tenancy.keep (sane.links.keep eff) eff

theorem merchants_apart_settled : ∃ db : Db, Tenancy db ∧
    (db.claims.row 6).map (·.merchantId) = some 7 :=
  ⟨_, merchants_apart (Gateway.after_reached Sample.config anyStep Sample.settled),
    by decide +kernel⟩

end CryptoGateway
