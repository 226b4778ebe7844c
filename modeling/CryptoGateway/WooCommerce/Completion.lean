import CryptoGateway.WooCommerce.OrderSync

/-!
Runs of the shop: deliveries in any order, polls, and administrators who change an order. An order
is completed once, and no acknowledged payment is lost.
-/
namespace CryptoGateway.WooCommerce
open Engine

/-- What `actionForEvent` and `actionForStatus` make: only a paid fact completes, and a
    cancellation records itself. -/
structure Action.Consistent (action : Action) : Prop where
  complete : action.kind = .complete ↔ action.intentStatus = some .paid
  cancel : action.kind = .cancel → action.intentStatus = some .cancelled

theorem actionForEvent_consistent {event : WebhookEvent} {action : Action}
    (found : actionForEvent event = some action) : action.Consistent := by
  unfold actionForEvent at found
  split at found
  · cases found; exact ⟨by simp, by simp⟩
  · cases found; exact ⟨by simp, by simp⟩
  · cases found; exact ⟨by simp, by simp⟩
  · obtain ⟨remainder, _, rfl⟩ := Option.map_eq_some_iff.mp found
    exact ⟨by simp, by simp⟩
  · cases found
  · cases found

theorem actionForEvent_reports {event : WebhookEvent} {action : Action}
    (found : actionForEvent event = some action) :
    action.intentStatus = none ∨ (event.type = .paid ∧ action.intentStatus = some .paid) ∨
    ((event.type = .partiallyPaid ∨ event.type = .cancelled) ∧ action.intentStatus ≠
      some .paid) := by
  unfold actionForEvent at found
  split at found
  · rename_i kind
    cases found; exact .inr (.inl ⟨kind, rfl⟩)
  · rename_i kind
    cases found; exact .inr (.inr ⟨.inl kind, by simp⟩)
  · rename_i kind
    cases found; exact .inr (.inr ⟨.inr kind, by simp⟩)
  · obtain ⟨remainder, _, rfl⟩ := Option.map_eq_some_iff.mp found
    exact .inl rfl
  · cases found
  · cases found

theorem actionForStatus_consistent (status : Option IntentStatus) (intent : Uuid) :
    (actionForStatus status intent).Consistent := by
  cases status with
  | none => exact ⟨by simp [actionForStatus], by simp [actionForStatus]⟩
  | some s => cases s <;> exact ⟨by simp [actionForStatus], by simp [actionForStatus]⟩

theorem actionForStatus_intentStatus (status : Option IntentStatus) (intent : Uuid) :
    (actionForStatus status intent).intentStatus = status := by
  cases status with
  | none => rfl
  | some s => cases s <;> rfl

namespace Order
variable {o : Order} {action : Action} {answers : Answers} {reported : IntentStatus}

@[simp] theorem addNote_status (note : Note) : (o.addNote note).status = o.status := rfl
@[simp] theorem addNote_intentStatus (note : Note) :
    (o.addNote note).intentStatus = o.intentStatus := rfl
@[simp] theorem addNote_paymentCalls (note : Note) :
    (o.addNote note).paymentCalls = o.paymentCalls := rfl

@[simp] theorem noteConflictOnce_intentStatus :
    (o.noteConflictOnce reported).intentStatus = o.intentStatus := by
  unfold noteConflictOnce; split <;> rfl

@[simp] theorem noteConflictOnce_paymentCalls :
    (o.noteConflictOnce reported).paymentCalls = o.paymentCalls := by
  unfold noteConflictOnce; split <;> rfl

@[simp] theorem cancelIntent_paymentCalls :
    (o.cancelIntent answers).paymentCalls = o.paymentCalls := by
  unfold cancelIntent
  split
  · split
    · split <;> rfl
    · rfl
  · rfl

theorem cancelIntent_intentStatus
    (settled : o.intentStatus = some .cancelled ∨ o.intentStatus = some .paid) :
    (o.cancelIntent answers).intentStatus = o.intentStatus := by
  unfold cancelIntent
  rcases settled with known | known <;> simp [known]

@[simp] theorem updateStatus_paymentCalls (status : OrderStatus) :
    (o.updateStatus status answers).paymentCalls = o.paymentCalls := by
  unfold updateStatus
  split
  · exact cancelIntent_paymentCalls
  · rfl

theorem updateStatus_intentStatus {status : OrderStatus}
    (settled : o.intentStatus = some .cancelled ∨ o.intentStatus = some .paid ∨
      status ≠ .cancelled) :
    (o.updateStatus status answers).intentStatus = o.intentStatus := by
  unfold updateStatus
  split
  · rename_i becomes
    rcases settled with known | known | other
    · exact cancelIntent_intentStatus (.inl known)
    · exact cancelIntent_intentStatus (.inr known)
    · exact absurd becomes.1 other
  · rfl

@[simp] theorem withIntentStatus_paymentCalls (status : Option IntentStatus) :
    (o.withIntentStatus status).paymentCalls = o.paymentCalls := by cases status <;> rfl

theorem withIntentStatus_intentStatus (status : Option IntentStatus) :
    (o.withIntentStatus status).intentStatus = status.or o.intentStatus := by cases status <;> rfl

inductive Applied (order o : Order) (action : Action) (answers : Answers) : Order → Prop where
  | kept : Applied order o action answers o
  | conflict (reported : IntentStatus) :
    Applied order o action answers (o.noteConflictOnce reported)
  | completed (kind : action.kind = .complete)
      (new : action.intentStatus.isSome → order.intentStatus ≠ action.intentStatus) :
      Applied order o action answers
        ((o.addNote (.settled action.transfer)).paymentComplete action.transactionId answers)
  | held (note : Note) : Applied order o action answers
    ((o.addNote note).updateStatus .onHold answers)
  | cancelled (kind : action.kind = .cancel) (note : Note) :
      Applied order o action answers ((o.addNote note).updateStatus .cancelled answers)
  | expired (note : Note) :
      Applied order o action answers ({ o with expiredNoted := o.quoteAttempt }.addNote note)
  | noted (note : Note) : Applied order o action answers (o.addNote note)

theorem apply_cases (action : Action) (answers : Answers) (order : Order) :
    Applied order (order.withIntentStatus action.intentStatus) action answers
      (order.apply action answers).1 := by
  unfold apply
  simp only
  split
  · rename_i kind
    split
    · exact .kept
    · rename_i new
      unfold complete
      split
      · exact .kept
      · split
        · exact .completed kind fun known same => new (by simp [known, same])
        · exact .conflict _
  · split
    · exact .kept
    · split
      · exact .conflict _
      · split
        · exact .kept
        · exact .held _
  · rename_i kind
    split
    · exact .kept
    · split
      · exact .conflict _
      · split
        · exact .kept
        · exact .cancelled kind _
  · split
    · exact .expired _
    · exact .kept
  · exact .noted _
  · exact .kept

theorem Applied.intentStatus {order o' : Order} (applied : Applied order o action answers o')
    (cancelled : action.kind = .cancel → o.intentStatus = some .cancelled) :
    o'.intentStatus = o.intentStatus := by
  cases applied with
  | kept => rfl
  | conflict reported => exact noteConflictOnce_intentStatus
  | completed kind new => rfl
  | held note => exact updateStatus_intentStatus (.inr (.inr (by simp)))
  | cancelled kind note => exact updateStatus_intentStatus (.inl (cancelled kind))
  | expired note => rfl
  | noted note => rfl

theorem apply_intentStatus (o : Order) (answers : Answers) (consistent : action.Consistent) :
    (o.apply action answers).1.intentStatus = action.intentStatus.or o.intentStatus := by
  have status := withIntentStatus_intentStatus (o := o) action.intentStatus
  rw [← status]
  refine (o.apply_cases action answers).intentStatus fun kind => ?_
  rw [status, consistent.cancel kind]
  rfl

theorem Applied.paymentCalls {order o' : Order} (applied : Applied order o action answers o') :
    o'.paymentCalls = o.paymentCalls ∨ (action.kind = .complete ∧
      (action.intentStatus.isSome → order.intentStatus ≠ action.intentStatus) ∧
      ∃ transaction, o'.paymentCalls = transaction :: o.paymentCalls) := by
  cases applied with
  | kept => exact .inl rfl
  | conflict reported => exact .inl noteConflictOnce_paymentCalls
  | completed kind new => exact .inr ⟨kind, new, action.transactionId, rfl⟩
  | held note => exact .inl (updateStatus_paymentCalls _)
  | cancelled kind note => exact .inl (updateStatus_paymentCalls _)
  | expired note => exact .inl rfl
  | noted note => exact .inl rfl

theorem apply_paymentCalls (o : Order) (action : Action) (answers : Answers) :
    (o.apply action answers).1.paymentCalls = o.paymentCalls ∨
    (action.kind = .complete ∧ (action.intentStatus.isSome → o.intentStatus ≠ action.intentStatus) ∧
      ∃ transaction, (o.apply action answers).1.paymentCalls = transaction :: o.paymentCalls) := by
  rw [← withIntentStatus_paymentCalls (o := o) action.intentStatus]
  exact (o.apply_cases action answers).paymentCalls

@[simp] theorem cancelIntent_intentId : (o.cancelIntent answers).intentId = o.intentId := by
  unfold cancelIntent
  split
  · split
    · split <;> rfl
    · rfl
  · rfl

@[simp] theorem updateStatus_intentId (status : OrderStatus) :
    (o.updateStatus status answers).intentId = o.intentId := by
  unfold updateStatus
  split
  · exact cancelIntent_intentId
  · rfl

theorem updateStatus_paid {status : OrderStatus}
    (paid : (o.updateStatus status answers).intentStatus = some .paid) :
    o.intentStatus = some .paid := by
  unfold updateStatus at paid
  split at paid
  · unfold cancelIntent at paid
    repeat' split at paid
    all_goals first
      | exact paid
      | exact absurd paid (by simp)
  · exact paid

@[simp] theorem withIntentStatus_intentId (status : Option IntentStatus) :
    (o.withIntentStatus status).intentId = o.intentId := by cases status <;> rfl

@[simp] theorem noteConflictOnce_intentId :
    (o.noteConflictOnce reported).intentId = o.intentId := by
  unfold noteConflictOnce; split <;> rfl

@[simp] theorem addNote_intentId (note : Note) : (o.addNote note).intentId = o.intentId := rfl

theorem Applied.intentId {order o' : Order} (applied : Applied order o action answers o') :
    o'.intentId = o.intentId := by
  cases applied with
  | kept => rfl
  | conflict reported => exact noteConflictOnce_intentId
  | completed kind new => rfl
  | held note => exact updateStatus_intentId _
  | cancelled kind note => exact updateStatus_intentId _
  | expired note => rfl
  | noted note => rfl

theorem apply_intentId : (o.apply action answers).1.intentId = o.intentId :=
  (o.apply_cases action answers).intentId.trans (withIntentStatus_intentId _)

@[simp] theorem rememberEvent_intentId (event : Uuid) :
    (o.rememberEvent event).intentId = o.intentId := by unfold rememberEvent; split <;> rfl

@[simp] theorem rememberEvent_intentStatus (event : Uuid) :
    (o.rememberEvent event).intentStatus = o.intentStatus := by unfold rememberEvent; split <;> rfl

@[simp] theorem rememberEvent_paymentCalls (event : Uuid) :
    (o.rememberEvent event).paymentCalls = o.paymentCalls := by unfold rememberEvent; split <;> rfl

end Order

theorem confirmedCompletion_ok {o : Order} {action action' : Action} {intent : Uuid}
    {answers : Answers} (consistent : action.Consistent) (kind : action.kind = .complete)
    (confirmed : confirmedCompletion o action intent answers = .ok action') :
    action'.Consistent ∧ action'.kind = .complete ∧ action'.intentStatus = some .paid := by
  have paid := consistent.complete.mp kind
  unfold confirmedCompletion at confirmed
  split at confirmed
  · cases confirmed; exact ⟨consistent, kind, paid⟩
  · split at confirmed
    · cases confirmed
    · split at confirmed
      · cases confirmed
      · split at confirmed
        · cases confirmed
          exact ⟨⟨by simp [kind], by simp [kind]⟩, kind, rfl⟩
        · cases confirmed

theorem process_ok {event : WebhookEvent} {action : Action} {intent : Uuid} {answers : Answers}
    {o o' : Order} {changed : Bool} (consistent : action.Consistent)
    (done : process event action intent answers o = .ok (o', changed)) :
    (o' = o ∧ changed = false) ∨ (changed = true ∧ ∃ action', action'.Consistent ∧
      action'.kind = action.kind ∧ action'.intentStatus = action.intentStatus ∧
      o' = ((o.rememberEvent event.id).apply action' answers).1) := by
  unfold process at done
  split at done
  · cases done; exact .inl ⟨rfl, rfl⟩
  · split at done
    · cases done
    · rename_i action' settled
      cases done
      refine .inr ⟨rfl, action', ?_⟩
      split at settled
      · rename_i kind
        obtain ⟨keeps, complete, paid⟩ := confirmedCompletion_ok consistent kind settled
        exact ⟨keeps, complete.trans kind.symm, paid.trans (consistent.complete.mp kind).symm, rfl⟩
      · cases settled
        exact ⟨consistent, rfl, rfl, rfl⟩

theorem syncFromGateway_ok {now : Int} {answers : Answers} {o o' : Order}
    (done : syncFromGateway now answers o = .ok o') :
    ∃ read action, answers.intent = .ok read ∧ o.intentId = some read.id ∧ action.Consistent ∧
      action.intentStatus = read.status ∧
      o' = ({ o with lastChecked := now }.apply action answers).1 := by
  unfold syncFromGateway at done
  split at done
  · cases done
  · cases done
  · rename_i intent read owner answered
    split at done
    · rename_i same
      cases done
      have consistent := actionForStatus_consistent read.status intent
      refine ⟨read, _, answered, by rw [owner, same], ?_, ?_, rfl⟩
      · split
        · exact ⟨consistent.complete, consistent.cancel⟩
        · exact consistent
      · split
        · exact actionForStatus_intentStatus _ _
        · exact actionForStatus_intentStatus _ _
    · cases done

theorem findOrderByIntent_row {shop : Shop} {intent : Uuid} {id : Nat} {o : Order}
    (found : findOrderByIntent shop intent = some (id, o)) :
    shop.row id = some o ∧ o.intentId = some intent := by
  unfold findOrderByIntent at found
  split at found
  · rename_i entry only
    cases found
    have mem : (id, o) ∈ shop.entries.filter fun e => e.2.ours && e.2.intentId = some intent := by
      rw [only]; exact List.mem_cons_self
    rw [List.mem_filter, Table.mem_entries] at mem
    simp only [Bool.and_eq_true, decide_eq_true_eq] at mem
    exact ⟨mem.1, mem.2.2⟩
  · cases found

structure Processed (shop : Shop) (delivery : Delivery) (answers : Answers) where
  event : WebhookEvent
  intent : Uuid
  id : Nat
  order : Order
  asked : Action
  action : Action
  parsed : delivery.event = some event
  owner : event.intentId = some intent
  found : findOrderByIntent shop intent = some (id, order)
  acts : actionForEvent event = some asked
  consistent : action.Consistent
  kind : action.kind = asked.kind
  status : action.intentStatus = asked.intentStatus
  result : handle delivery answers shop = (shop.modify id fun _ =>
    ((order.rememberEvent event.id).apply action answers).1, .processed)

theorem handle_cases (delivery : Delivery) (answers : Answers) (shop : Shop) :
    ((handle delivery answers shop).2 ≠ .processed ∧
      ∀ k, (handle delivery answers shop).1.row k = shop.row k) ∨
    Nonempty (Processed shop delivery answers) := by
  cases result : handle delivery answers shop with
  | mk shop' reply =>
  have final := result
  unfold handle at result
  split at result
  · cases result; exact .inl ⟨by simp, fun _ => rfl⟩
  split at result
  · cases result; exact .inl ⟨by simp, fun _ => rfl⟩
  split at result
  · cases result; exact .inl ⟨by simp, fun _ => rfl⟩
  rename_i event parsed
  unfold handleEvent at result
  split at result
  · cases result; exact .inl ⟨by simp, fun _ => rfl⟩
  split at result
  · cases result; exact .inl ⟨by simp, fun _ => rfl⟩
  · cases result; exact .inl ⟨by simp, fun _ => rfl⟩
  rename_i asked intent acts owner
  split at result
  · cases result; exact .inl ⟨by simp, fun _ => rfl⟩
  rename_i id order found
  split at result
  · split at result
    · cases result; exact .inl ⟨by simp, fun _ => rfl⟩
    · rename_i order' changed done
      cases result
      rcases process_ok (actionForEvent_consistent acts) done with ⟨rfl, rfl⟩ | ⟨rfl, action, rest⟩
      · refine .inl ⟨by simp, fun k => ?_⟩
        rw [Table.row_modify]
        split
        · rename_i same
          rw [same, (findOrderByIntent_row found).1]; rfl
        · rfl
      · obtain ⟨consistent, kind, status, rfl⟩ := rest
        exact .inr ⟨⟨event, intent, id, order, asked, action, parsed, owner, found, acts,
          consistent, kind, status, final⟩⟩
  · cases result; exact .inl ⟨by simp, fun _ => rfl⟩

structure World where
  shop : Shop
  gateway : Uuid → IntentStatus

inductive Input where
  | gateway (intent : Uuid) (status : IntentStatus)
  | delivery (delivery : Delivery) (answers : Answers)
  | poll (order : Nat) (now : Int) (answers : Answers)
  | administrator (order : Nat) (status : OrderStatus) (answers : Answers)

namespace World

def step (w : World) : Input → World
  | .gateway intent status => { w with gateway := Function.update w.gateway intent status }
  | .delivery delivery answers => { w with shop := (handle delivery answers w.shop).1 }
  | .poll order now answers => { w with shop := check order now answers w.shop }
  | .administrator order status answers =>
      { w with shop := w.shop.modify order fun o => o.updateStatus status answers }

def truthful (w : World) : Input → Bool
  | .gateway intent status => w.gateway intent ≠ .paid || status = .paid
  | .delivery delivery _ =>
      delivery.event.all fun event => event.type ≠ .paid ||
        event.intentId.all fun intent => w.gateway intent = .paid
  | .poll order _ answers =>
      (w.shop.row order).all fun o =>
        match answers.intent with
        | .error _ => true
        | .ok read => o.intentId ≠ some read.id || read.status = none ||
            read.status = some (w.gateway read.id)
  | .administrator _ _ _ => true

def forward (w : World) : Input → Bool
  | .delivery delivery _ =>
      delivery.event.all fun event =>
        !(event.type = .partiallyPaid || event.type = .cancelled) ||
          event.intentId.all fun intent =>
            (findOrderByIntent w.shop intent).all fun found => found.2.intentStatus ≠ some .paid
  | _ => true

inductive Reach (ok : World → Input → Bool) (start : World) : World → Prop where
  | refl : Reach ok start start
  | step {w : World} (before : Reach ok start w) (input : Input) (allowed : ok w input = true) :
      Reach ok start (w.step input)

theorem Reach.trans {ok : World → Input → Bool} {w v u : World} (first : Reach ok w v)
    (second : Reach ok v u) : Reach ok w u := by
  induction second with
  | refl => exact first
  | step before input allowed ih => exact ih.step input allowed

def run (ok : World → Input → Bool) : List Input → World → World
  | [], w => w
  | input :: rest, w => run ok rest (if ok w input then w.step input else w)

theorem Reach.run {ok : World → Input → Bool} {start w : World} (inputs : List Input)
    (reached : Reach ok start w) : Reach ok start (w.run ok inputs) := by
  induction inputs generalizing w with
  | nil => exact reached
  | cons input rest ih =>
    apply ih
    split
    · rename_i allowed
      exact reached.step input allowed
    · exact reached

inductive Change (w : World) (id : Nat) (o : Order) : Input → Order → Prop where
  | delivered {delivery : Delivery} {answers : Answers}
      (done : Processed w.shop delivery answers) (here : done.id = id) (order : done.order = o) :
      Change w id o (.delivery delivery answers)
        ((o.rememberEvent done.event.id).apply done.action answers).1
  | polled {now : Int} {answers : Answers} {read : IntentRead} {action : Action}
      (answered : answers.intent = .ok read) (owner : o.intentId = some read.id)
      (consistent : action.Consistent) (status : action.intentStatus = read.status) :
      Change w id o (.poll id now answers) ({ o with lastChecked := now }.apply action answers).1
  | administrator (status : OrderStatus) (answers : Answers) :
      Change w id o (.administrator id status answers) (o.updateStatus status answers)

theorem step_row (w : World) (input : Input) (id : Nat) :
    (w.step input).shop.row id = w.shop.row id ∨
    ∃ o o', w.shop.row id = some o ∧ (w.step input).shop.row id = some o' ∧
      Change w id o input o' := by
  -- an input that modifies the row of one order
  have modified : ∀ (k : Nat) (f : Order → Order),
      (∀ o, k = id → w.shop.row id = some o → f o = o ∨ Change w id o input (f o)) →
      (w.shop.modify k f).row id = w.shop.row id ∨ ∃ o o', w.shop.row id = some o ∧
        (w.shop.modify k f).row id = some o' ∧ Change w id o input o' := by
    intro k f own
    by_cases same : id = k
    · subst same
      rw [Table.row_modify_self]
      cases stored : w.shop.row id with
      | none => exact .inl rfl
      | some o =>
        rcases own o rfl stored with kept | change
        · exact .inl (congrArg some kept)
        · exact .inr ⟨o, f o, rfl, rfl, change⟩
    · exact .inl (Table.row_modify_ne same f)
  cases input with
  | gateway intent status => exact .inl rfl
  | delivery delivery answers =>
    rcases handle_cases delivery answers w.shop with ⟨_, same⟩ | processed
    · exact .inl (same id)
    · obtain ⟨done⟩ := processed
      simp only [step, done.result]
      refine modified _ _ fun o here stored => ?_
      subst here
      cases (findOrderByIntent_row done.found).1.symm.trans stored
      exact .inr (.delivered done rfl rfl)
  | poll k now answers =>
    refine modified _ _ fun o here stored => ?_
    subst here
    split
    · cases synced : syncFromGateway now answers o with
      | error message => exact .inl rfl
      | ok o' =>
        obtain ⟨read, action, answered, owner, consistent, status, rfl⟩ := syncFromGateway_ok synced
        exact .inr (.polled answered owner consistent status)
    · exact .inl rfl
  | administrator k status answers =>
    refine modified _ _ fun o here stored => ?_
    subst here
    exact .inr (.administrator status answers)

theorem step_gateway {w : World} {input : Input} (truth : w.truthful input = true) {intent : Uuid}
    (paid : w.gateway intent = .paid) : (w.step input).gateway intent = .paid := by
  cases input with
  | gateway moved status =>
    by_cases same : intent = moved
    · subst same
      simp only [truthful, paid, ne_eq, not_true_eq_false, decide_false, Bool.false_or,
        decide_eq_true_eq] at truth
      simp [step, truth]
    · simp [step, same, paid]
  | delivery delivery answers => exact paid
  | poll order now answers => exact paid
  | administrator order status answers => exact paid

/-- What is recorded of an order's payment: a call of `payment_complete` is followed by the
    status paid, there is one at most, and the gateway knows of it. -/
structure Settled (w : World) (o : Order) : Prop where
  once : o.paymentCalls.length ≤ 1
  recorded : o.paymentCalls ≠ [] → o.intentStatus = some .paid
  known : o.intentStatus = some .paid → ∀ intent, o.intentId = some intent →
  w.gateway intent = .paid

structure Fits (w : World) (o : Order) (action : Action) : Prop where
  consistent : action.Consistent
  kept : o.intentStatus = some .paid → action.intentStatus = none ∨ action.intentStatus = some .paid
  known : action.intentStatus = some .paid → ∀ intent, o.intentId = some intent →
    w.gateway intent = .paid

variable {w : World} {id : Nat} {o o' : Order} {input : Input} {action : Action} {answers : Answers}

theorem Fits.paid (fits : Fits w o action) (paid : o.intentStatus = some .paid) :
    (o.apply action answers).1.intentStatus = some .paid := by
  rw [Order.apply_intentStatus o answers fits.consistent]
  rcases fits.kept paid with none_ | same
  · rw [none_, paid]; rfl
  · rw [same]; rfl

theorem Settled.apply (settled : Settled w o) (fits : Fits w o action) :
    Settled w (o.apply action answers).1 := by
  have status := Order.apply_intentStatus o answers fits.consistent
  have calls := Order.apply_paymentCalls o action answers
  constructor
  · rcases calls with same | ⟨kind, new, transaction, called⟩
    · rw [same]; exact settled.once
    · -- a completion acts only on an order that has not recorded the payment
      have paid := fits.consistent.complete.mp kind
      have first : o.paymentCalls = [] := by
        by_contra earlier
        exact new (by rw [paid]; rfl) ((settled.recorded earlier).trans paid.symm)
      rw [called, first]
      exact Nat.le_refl 1
  · intro some_
    rcases calls with same | ⟨kind, _⟩
    · rw [same] at some_
      exact fits.paid (settled.recorded some_)
    · rw [status, fits.consistent.complete.mp kind]
      rfl
  · intro paid intent owner
    rw [Order.apply_intentId] at owner
    rw [status] at paid
    cases reported : action.intentStatus with
    | none => exact settled.known (by simpa [reported] using paid) intent owner
    | some s => exact fits.known (by simpa [reported] using paid) intent owner

theorem Settled.rememberEvent (settled : Settled w o) (event : Uuid) :
    Settled w (o.rememberEvent event) := by
  constructor
  · simpa using settled.once
  · simpa using settled.recorded
  · simpa using settled.known

theorem Settled.updateStatus (settled : Settled w o) (status : OrderStatus) :
    Settled w (o.updateStatus status answers) := by
  constructor
  · simpa using settled.once
  · intro some_
    rw [Order.updateStatus_paymentCalls] at some_
    have paid := settled.recorded some_
    rw [Order.updateStatus_intentStatus (.inr (.inl paid)), paid]
  · intro paid intent owner
    rw [Order.updateStatus_intentId] at owner
    exact settled.known (Order.updateStatus_paid paid) intent owner

theorem processed_fits {delivery : Delivery} (done : Processed w.shop delivery answers)
    (truth : w.truthful (.delivery delivery answers) = true)
    (ahead : w.forward (.delivery delivery answers) = true) : Fits w done.order done.action := by
  have owner := (findOrderByIntent_row done.found).2
  simp only [truthful, done.parsed, done.owner, Option.all_some] at truth
  simp only [forward, done.parsed, done.owner, done.found, Option.all_some] at ahead
  have reports := actionForEvent_reports done.acts
  refine ⟨done.consistent, fun paid => ?_, fun reported intent own => ?_⟩
  · rw [done.status]
    rcases reports with none_ | ⟨_, same⟩ | ⟨less, _⟩
    · exact .inl none_
    · exact .inr same
    · rcases less with kind | kind <;> simp [kind, paid] at ahead
  · cases owner.symm.trans own
    rw [done.status] at reported
    rcases reports with none_ | ⟨kind, _⟩ | ⟨_, other⟩
    · cases none_.symm.trans reported
    · simpa [kind] using truth
    · exact absurd reported other

theorem Change.settled (change : Change w id o input o') (stored : w.shop.row id = some o)
    (settled : Settled w o) (truth : w.truthful input = true) (ahead : w.forward input = true) :
    Settled w o' ∧ (o.intentStatus = some .paid → o'.intentStatus = some .paid) := by
  cases change with
  | delivered done here order =>
    subst order
    have fits := processed_fits done truth ahead
    have fits' : Fits w (done.order.rememberEvent done.event.id) done.action :=
      ⟨fits.consistent, by simpa using fits.kept, by simpa using fits.known⟩
    exact ⟨(settled.rememberEvent _).apply fits', fun paid => fits'.paid (by simpa using paid)⟩
  | @polled now answers read action answered owner consistent status =>
    have fits : Fits w { o with lastChecked := now } action := by
      simp only [truthful, stored, answered, owner, Option.all_some, ne_eq, not_true_eq_false,
        decide_false, Bool.false_or, Bool.or_eq_true, decide_eq_true_eq] at truth
      refine ⟨consistent, fun paid => ?_, fun reported intent own => ?_⟩
      · rw [status]
        rcases truth with unknown | reads
        · exact .inl unknown
        · exact .inr (by rw [reads, settled.known paid read.id owner])
      · cases owner.symm.trans own
        rw [status] at reported
        rcases truth with unknown | reads
        · cases unknown.symm.trans reported
        · exact Option.some.inj (reads.symm.trans reported)
    have same : Settled w { o with lastChecked := now } :=
      ⟨settled.once, settled.recorded, settled.known⟩
    exact ⟨same.apply fits, fits.paid⟩
  | administrator status answers =>
    refine ⟨settled.updateStatus status, fun paid => ?_⟩
    rw [Order.updateStatus_intentStatus (.inr (.inl paid)), paid]

def allowed (w : World) (input : Input) : Bool := w.truthful input && w.forward input

theorem Settled.step (settled : ∀ id o, w.shop.row id = some o → Settled w o)
    (ok : w.allowed input = true) :
    ∀ id o', (w.step input).shop.row id = some o' → Settled (w.step input) o' := by
  intro id o' after
  simp only [allowed, Bool.and_eq_true] at ok
  have lift : ∀ {o : Order}, Settled w o → Settled (w.step input) o := fun s =>
    ⟨s.once, s.recorded, fun paid intent owner => step_gateway ok.1 (s.known paid intent owner)⟩
  rcases w.step_row input id with same | ⟨o, found, stored, row, change⟩
  · exact lift (settled id o' (same.symm.trans after))
  · cases row.symm.trans after
    exact lift (change.settled stored (settled id o stored) ok.1 ok.2).1

def Fresh (start : World) : Prop :=
  ∀ id o, start.shop.row id = some o → o.paymentCalls = [] ∧ o.intentStatus ≠ some .paid

theorem Reach.settled {start : World} (fresh : Fresh start) (reached : Reach allowed start w) :
    ∀ id o, w.shop.row id = some o → Settled w o := by
  induction reached with
  | refl =>
    intro id o stored
    obtain ⟨none_, unpaid⟩ := fresh id o stored
    exact ⟨by simp [none_], by simp [none_], fun paid => absurd paid unpaid⟩
  | step before input ok ih => exact Settled.step ih ok

theorem Reach.recorded {start v : World} (fresh : Fresh start) (reached : Reach allowed start w)
    (later : Reach allowed w v) (stored : w.shop.row id = some o)
    (paid : o.intentStatus = some .paid) :
    ∃ o', v.shop.row id = some o' ∧ o'.intentStatus = some .paid := by
  induction later with
  | refl => exact ⟨o, stored, paid⟩
  | @step u before input ok ih =>
    obtain ⟨p, here, recorded⟩ := ih
    rcases u.step_row input id with same | ⟨p', p'', stored', row, change⟩
    · exact ⟨p, same.trans here, recorded⟩
    · cases here.symm.trans stored'
      have settled := (reached.trans before).settled fresh id p here
      simp only [allowed, Bool.and_eq_true] at ok
      exact ⟨p'', row, (change.settled here settled ok.1 ok.2).2 recorded⟩

end World

namespace Sample

def order : Order :=
  { status := .pending, intentId := some 7, intentStatus := some .awaitingPayment }

def shop : Shop := Table.empty.insert 1 order

theorem shop_row {id : Nat} {o : Order} (stored : shop.row id = some o) : o = order := by
  unfold shop at stored
  rcases Table.row_insert_cases stored with old | ⟨_, _, eq⟩
  · cases old
  · exact eq

def opened : World := ⟨shop, fun _ => .awaitingPayment⟩

def answers : Answers := { intent := .ok ⟨7, some .paid⟩ }

def paidEvent : Delivery := { event := some { id := 2, type := .paid, intentId := some 7 } }

def partialEvent : Delivery :=
  { event := some { id := 1, type := .partiallyPaid, intentId := some 7 } }

def prompt : List Input :=
  [.gateway 7 .partiallyPaid, .delivery partialEvent answers, .gateway 7 .paid,
    .delivery paidEvent answers, .administrator 1 .refunded answers, .poll 1 1000 answers]

end Sample

/-- A later delivery or poll that reports the payment calls `payment_complete`. -/
def Order.Attempted (o : Order) : Prop :=
  (∃ event action intent answers o', event.type = .paid ∧ actionForEvent event = some action ∧
    process event action intent answers o = .ok (o', true) ∧ o'.paymentCalls ≠ o.paymentCalls) ∨
  ∃ now answers read o', answers.intent = .ok read ∧ read.status = some .paid ∧
    syncFromGateway now answers o = .ok o' ∧ o'.paymentCalls ≠ o.paymentCalls

theorem Order.Attempted.unrecorded {o : Order} (attempted : o.Attempted) :
    o.intentStatus ≠ some .paid := by
  intro paid
  have idle : ∀ (before : Order) {action : Action} {answers : Answers},
      before.intentStatus = some .paid → action.intentStatus = some .paid →
      (before.apply action answers).1.paymentCalls = before.paymentCalls := by
    intro before action answers recorded reported
    rcases before.apply_paymentCalls action answers with same | ⟨_, new, _⟩
    · exact same
    · exact absurd (recorded.trans reported.symm) (new (by rw [reported]; rfl))
  rcases attempted with ⟨event, action, intent, answers, o', kind, acts, done, moved⟩ |
    ⟨now, answers, read, o', answered, status, done, moved⟩
  · rcases process_ok (actionForEvent_consistent acts) done with ⟨_, no⟩ |
      ⟨_, action', _, _, same, rfl⟩
    · cases no
    · have reported : action.intentStatus = some .paid := by
        unfold actionForEvent at acts
        simp only [kind, Option.some.injEq] at acts
        rw [← acts]
      refine moved ?_
      rw [idle _ (by simpa using paid) (same.trans reported)]
      simp
  · obtain ⟨read', action, answered', _, _, reported, rfl⟩ := syncFromGateway_ok done
    cases answered.symm.trans answered'
    exact moved (idle { o with lastChecked := now } paid (reported.trans status))

def Order.Noted (o : Order) : Prop :=
  ∀ reported, o.conflictNoted = some reported → ∃ status, .conflict reported status ∈ o.notes

namespace Order.Noted
variable {o o' : Order} {action : Action} {answers : Answers}

theorem mono (noted : o.Noted) (same : o'.conflictNoted = o.conflictNoted)
    (more : o.notes ⊆ o'.notes) : o'.Noted := by
  intro reported marked
  obtain ⟨status, mem⟩ := noted reported (same.symm.trans marked)
  exact ⟨status, more mem⟩

theorem addNote (noted : o.Noted) (note : Note) : (o.addNote note).Noted :=
  noted.mono rfl (List.subset_cons_self note o.notes)

theorem cancelIntent (noted : o.Noted) : (o.cancelIntent answers).Noted := by
  unfold Order.cancelIntent
  split
  · split
    · split
      · exact Noted.addNote (o := { o with intentStatus := some .cancelled }) noted _
      · exact noted.addNote _
    · exact noted.addNote _
  · exact noted

theorem updateStatus (noted : o.Noted) (status : OrderStatus) :
    (o.updateStatus status answers).Noted := by
  unfold Order.updateStatus
  split
  · exact cancelIntent (o := { o with status }) noted
  · exact noted

theorem noteConflictOnce (noted : o.Noted) (reported : IntentStatus) :
    (o.noteConflictOnce reported).Noted ∧
      ∃ status, .conflict reported status ∈ (o.noteConflictOnce reported).notes := by
  unfold Order.noteConflictOnce
  split
  · rename_i marked
    exact ⟨noted, noted reported marked⟩
  · refine ⟨?_, o.status, List.mem_cons_self⟩
    rintro _ ⟨⟩
    exact ⟨o.status, List.mem_cons_self⟩

theorem withIntentStatus (noted : o.Noted) (status : Option IntentStatus) :
    (o.withIntentStatus status).Noted := by
  cases status with
  | none => exact noted
  | some s => exact noted

theorem applied {order : Order} (noted : o.Noted) (applied : Applied order o action answers o') :
    o'.Noted := by
  cases applied with
  | kept => exact noted
  | conflict reported => exact (noted.noteConflictOnce reported).1
  | completed kind new => exact noted.addNote _
  | held note => exact (noted.addNote note).updateStatus _
  | cancelled kind note => exact (noted.addNote note).updateStatus _
  | expired note => exact noted.addNote note
  | noted note => exact noted.addNote note

theorem apply (noted : o.Noted) : (o.apply action answers).1.Noted :=
  (noted.withIntentStatus action.intentStatus).applied (o.apply_cases action answers)

theorem rememberEvent (noted : o.Noted) (event : Uuid) : (o.rememberEvent event).Noted := by
  unfold Order.rememberEvent
  split
  · exact noted
  · exact noted

end Order.Noted

abbrev World.AnyInput (_ : World) (_ : Input) : Bool := true

theorem World.Reach.noted {start w : World} (fresh : ∀ id o, start.shop.row id = some o → o.Noted)
    (reached : Reach AnyInput start w) : ∀ id o, w.shop.row id = some o → o.Noted := by
  induction reached with
  | refl => exact fresh
  | @step w before input _ ih =>
    intro id o' after
    rcases w.step_row input id with same | ⟨o, o'', stored, row, change⟩
    · exact ih id o' (same.symm.trans after)
    · cases row.symm.trans after
      have noted := ih id o stored
      cases change with
      | delivered done here order => exact (noted.rememberEvent _).apply
      | @polled now answers read action answered owner consistent status =>
        exact Order.Noted.apply (o := { o with lastChecked := now }) noted
      | administrator status answers => exact noted.updateStatus status

/-- The order is paid or noted already, or the payment is news to it and `payment_complete`
    succeeds if its status calls for it. -/
def Order.Receptive (o : Order) (answers : Answers) : Prop :=
  o.isPaid = true ∨ (∃ status, .conflict .paid status ∈ o.notes) ∨
    (o.intentStatus ≠ some .paid ∧
      (o.hasStatus [.pending, .onHold, .failed, .cancelled] = true →
        answers.completes.isSome = true))

theorem Order.receptive_rememberEvent {o : Order} {answers : Answers} (event : Uuid) :
    (o.rememberEvent event).Receptive answers ↔ o.Receptive answers := by
  unfold Order.rememberEvent
  split <;> rfl

theorem Order.isPaid_paymentComplete {o : Order} (unpaid : o.isPaid = false)
    (transaction : Option TransactionId) (answers : Answers) :
    (o.paymentComplete transaction answers).isPaid = true ↔ answers.completes.isSome = true := by
  cases made : answers.completes with
  | none => simpa [Order.paymentComplete, made, Order.isPaid] using unpaid
  | some status =>
    cases status <;> simp [Order.paymentComplete, made, Order.isPaid, PaidStatus.status]

theorem Order.complete_paid {o : Order} (noted : o.Noted) (action : Action) (answers : Answers) :
    ((o.complete action answers).1.isPaid = true ∨
      ∃ status, .conflict .paid status ∈ (o.complete action answers).1.notes) ↔
    (o.isPaid = true ∨ (∃ status, .conflict .paid status ∈ o.notes) ∨
      (o.hasStatus [.pending, .onHold, .failed, .cancelled] = true →
        answers.completes.isSome = true)) := by
  unfold Order.complete
  split
  · rename_i paid
    simp [paid]
  · rename_i unpaid
    rw [Bool.not_eq_true] at unpaid
    split
    · rename_i called
      rw [show _ ↔ _ from Order.isPaid_paymentComplete (o := o.addNote _) unpaid _ answers]
      simp [unpaid, called, Order.paymentComplete, Order.addNote, or_comm]
    · rename_i other
      simp [other, (noted.noteConflictOnce .paid).2]

theorem Order.apply_paid {o : Order} {action : Action} {answers : Answers} (noted : o.Noted)
    (kind : action.kind = .complete) (reported : action.intentStatus = some .paid) :
    ((o.apply action answers).1.isPaid = true ∨
      ∃ status, .conflict .paid status ∈ (o.apply action answers).1.notes) ↔
        o.Receptive answers := by
  unfold Order.apply Order.Receptive
  simp only [kind, reported, Option.isSome_some, Bool.true_and, decide_eq_true_eq]
  split
  · rename_i repeated
    simp only [repeated, ne_eq, not_true_eq_false, false_and, or_false]
    rfl
  · rename_i new
    rw [ne_eq, and_iff_right new]
    exact Order.complete_paid (noted.withIntentStatus (some .paid)) action answers

/-- Whatever happened before, a paid event that the webhook answers as processed leaves the order
    paid, or with a note of the conflict, or open to a later report, just when the order was
    receptive. -/
theorem paid_event_not_swallowed {start w : World}
    (fresh : ∀ id o, start.shop.row id = some o → o.Noted)
    (reached : World.Reach World.AnyInput start w) {delivery : Delivery} {answers : Answers}
    {event : WebhookEvent} {intent : Uuid} {id : Nat} {o : Order}
    (parsed : delivery.event = some event) (kind : event.type = .paid)
    (owner : event.intentId = some intent) (found : findOrderByIntent w.shop intent = some (id, o))
    (answered : (handle delivery answers w.shop).2 = .processed) :
    ∃ o', (handle delivery answers w.shop).1.row id = some o' ∧
      ((o'.isPaid = true ∨ (∃ status, .conflict .paid status ∈ o'.notes) ∨ o'.Attempted) ↔
        o.Receptive answers) := by
  rcases handle_cases delivery answers w.shop with ⟨other, _⟩ | processed
  · exact absurd answered other
  obtain ⟨done⟩ := processed
  cases done.parsed.symm.trans parsed
  cases done.owner.symm.trans owner
  cases done.found.symm.trans found
  have stored := (findOrderByIntent_row found).1
  have noted := reached.noted fresh _ _ stored
  have acts := done.acts
  unfold actionForEvent at acts
  simp only [kind, Option.some.injEq] at acts
  have completion : done.action.kind = .complete := by rw [done.kind, ← acts]
  have reported := done.consistent.complete.mp completion
  refine ⟨((done.order.rememberEvent done.event.id).apply done.action answers).1,
    by rw [done.result]; simp [stored], ?_⟩
  have recorded : ((done.order.rememberEvent done.event.id).apply done.action
    answers).1.intentStatus =
      some .paid := by
    rw [Order.apply_intentStatus _ _ done.consistent, reported]
    rfl
  -- the report is on record now, so no later one is acted on
  have closed := fun attempted : Order.Attempted _ => attempted.unrecorded recorded
  rw [← Order.receptive_rememberEvent done.event.id,
    ← Order.apply_paid (noted.rememberEvent done.event.id) completion reported, or_iff_left closed]

/-- `payment_complete` fails: the event is acknowledged, the order stays unpaid without a note,
    and no later report is acted on. -/
theorem failed_completion_swallowed :
    ∃ o', (handle Sample.paidEvent { Sample.answers with completes := none } Sample.shop).2 =
      .processed ∧
      (handle Sample.paidEvent { Sample.answers with completes := none }
        Sample.shop).1.row 1 = some o' ∧
      o'.isPaid = false ∧ (∀ status, .conflict .paid status ∉ o'.notes) ∧ ¬o'.Attempted := by
  refine ⟨_, by decide, rfl, by decide, ?_, fun attempted => ?_⟩
  · intro status mem
    have only : (.conflict .paid status : Note) ∈ [Note.settled ""] := mem
    simp at only
  · exact attempted.unrecorded rfl

theorem paid_event_not_swallowed_sample :
    (handle Sample.paidEvent Sample.answers Sample.shop).2 = .processed ∧
    ∃ o', (handle Sample.paidEvent Sample.answers Sample.shop).1.row 1 = some o' ∧
      (o'.isPaid = true ∨ (∃ status, .conflict .paid status ∈ o'.notes) ∨ o'.Attempted) := by
  have noted : ∀ id o, Sample.opened.shop.row id = some o → o.Noted := by
    intro id o stored reported marked
    cases Sample.shop_row stored
    cases marked
  have processed : (handle Sample.paidEvent Sample.answers Sample.shop).2 = .processed := by decide
  obtain ⟨o', row, exactly⟩ := paid_event_not_swallowed noted .refl rfl rfl rfl rfl processed
  exact ⟨processed, o', row, exactly.mpr (.inr (.inr ⟨nofun, fun _ => rfl⟩))⟩

end CryptoGateway.WooCommerce
