import CryptoGateway.Engine.Table

/-!
The WooCommerce plugin: the webhook, the reconciliation job and the administrator's check all end
in `apply`. What the shop and the gateway answer meanwhile is an input. Text in a meta field that
may be empty is an `Option`.
-/
namespace CryptoGateway.WooCommerce
open Engine

abbrev Uuid := Nat

/-- `other` is a status that the shop or another plugin registers. -/
inductive OrderStatus where
  | pending | onHold | processing | completed | failed | cancelled | refunded
  | other (name : String)
deriving DecidableEq, Repr

inductive PaidStatus where
  | processing | completed
deriving DecidableEq, Repr

def PaidStatus.status : PaidStatus → OrderStatus
  | .processing => .processing
  | .completed => .completed

inductive IntentStatus where
  | requiresQuote | awaitingPayment | riskHold | partiallyPaid | paid | expired | cancelled
deriving DecidableEq, Repr

inductive Note where
  | settled (transfer : String)
  | partialPayment (transfer : String)
  | intentCancelled
  | quoteExpired
  | overpaid (remainderRaw : Nat) (decimals : Option Nat) (symbol : String)
  | conflict (reported : IntentStatus) (status : OrderStatus)
  | cancelNotConfigured
  | cancelRefused
  | cancelFailed (code : String)
deriving DecidableEq, Repr

/-- What `payment_complete` records: the transaction hash or the intent id. -/
inductive TransactionId where
  | intent (id : Uuid)
  | hash (text : String)
deriving DecidableEq, Repr

/-- An order with the meta fields that the handlers read. `paymentCalls` are the calls of
    `payment_complete`, the newest first. -/
structure Order where
  ours : Bool := true
  status : OrderStatus
  createdAt : Int := 0
  intentId : Option Uuid := none
  intentStatus : Option IntentStatus := none
  quoteAttempt : Option Nat := none
  lateUntil : Int := 0
  checkoutToken : Option String := none
  assetDecimals : Option Nat := none
  assetSymbol : String := ""
  events : List Uuid := []
  lastChecked : Int := 0
  expiredNoted : Option Nat := none
  conflictNoted : Option IntentStatus := none
  notes : List Note := []
  paymentCalls : List (Option TransactionId) := []
deriving DecidableEq, Repr

inductive ActionKind where
  | complete | holdPartial | cancel | expired | overpaid | none
deriving DecidableEq, Repr

structure Action where
  kind : ActionKind
  intentStatus : Option IntentStatus
  transactionId : Option TransactionId := none
  transfer : String := ""
  remainderRaw : Nat := 0
deriving DecidableEq, Repr

structure IntentRead where
  id : Uuid
  status : Option IntentStatus
deriving DecidableEq, Repr

/-- The hosted page: whether it shows the payment as paid, and its transaction hash. -/
structure CheckoutView where
  paid : Bool
  transactionHash : Option String
deriving DecidableEq, Repr

/-- What a handler meets: whether the order lock and a configured client are there, the
    gateway's answers with their error codes, and the paid status `payment_complete` gives
    the order, or none when it returns false. -/
structure Answers where
  lockFree : Bool := true
  client : Bool := true
  intent : Except String IntentRead
  checkout : Except String CheckoutView := .error "unread"
  cancel : Except String Unit := .error "unread"
  completes : Option PaidStatus := some .processing

inductive EventType where
  | paid | partiallyPaid | cancelled | overpaid | test | other
deriving DecidableEq, Repr

/-- An event envelope; `remainderRaw` is there when it is a string of digits. -/
structure WebhookEvent where
  id : Uuid
  type : EventType
  intentId : Option Uuid
  transferId : String := ""
  remainderRaw : Option Nat := none
deriving DecidableEq, Repr

namespace Order

def isPaid (o : Order) : Bool := o.status = .processing || o.status = .completed

def hasStatus (o : Order) (statuses : List OrderStatus) : Bool := statuses.contains o.status

def addNote (note : Note) (o : Order) : Order := { o with notes := note :: o.notes }

def paymentComplete (transaction : Option TransactionId) (answers : Answers) (o : Order) : Order :=
  { o with
    status := (answers.completes.map PaidStatus.status).getD o.status
    paymentCalls := transaction :: o.paymentCalls }

def cancelIntent (answers : Answers) (o : Order) : Order :=
  if o.ours && o.intentId.isSome && !([some .cancelled, some .paid, some .partiallyPaid].contains
      o.intentStatus) then
    if answers.client then
      match answers.cancel with
      | .ok _ => { o with intentStatus := some .cancelled }.addNote .intentCancelled
      | .error code =>
        o.addNote (if code = "payment_intent_not_cancellable" then .cancelRefused
          else .cancelFailed code)
    else o.addNote .cancelNotConfigured
  else o

/-- `update_status`, with the hook it fires. -/
def updateStatus (status : OrderStatus) (answers : Answers) (o : Order) : Order :=
  if status = .cancelled ∧ o.status ≠ .cancelled then { o with status }.cancelIntent answers
  else { o with status }

/-- A note once per conflicting gateway status; never a change of the order status. -/
def noteConflictOnce (reported : IntentStatus) (o : Order) : Order :=
  if o.conflictNoted = some reported then o
  else { o with conflictNoted := some reported }.addNote (.conflict reported o.status)

def complete (action : Action) (answers : Answers) (o : Order) : Order × Bool :=
  if o.isPaid then (o, false)
  else if o.hasStatus [.pending, .onHold, .failed, .cancelled] then
    ((o.addNote (.settled action.transfer)).paymentComplete action.transactionId answers, true)
  else (o.noteConflictOnce .paid, false)

def withIntentStatus (status : Option IntentStatus) (o : Order) : Order :=
  match status with
  | some s => { o with intentStatus := some s }
  | none => o

/-- Applies an action, and tells whether the order changed beyond bookkeeping. -/
def apply (action : Action) (answers : Answers) (order : Order) : Order × Bool :=
  let o := order.withIntentStatus action.intentStatus
  let repeated := action.intentStatus.isSome && order.intentStatus = action.intentStatus
  match action.kind with
  | .complete => if repeated then (o, false) else o.complete action answers
  | .holdPartial =>
    if repeated then (o, false)
    else if o.isPaid then (o.noteConflictOnce .partiallyPaid, false)
    else if o.hasStatus [.onHold] then (o, false)
    else ((o.addNote (.partialPayment action.transfer)).updateStatus .onHold answers, true)
  | .cancel =>
    if repeated then (o, false)
    else if o.isPaid then (o.noteConflictOnce .cancelled, false)
    else if o.hasStatus [.cancelled] then (o, false)
    else ((o.addNote .intentCancelled).updateStatus .cancelled answers, true)
  | .expired =>
    if !o.isPaid && o.hasStatus [.pending] && decide (o.quoteAttempt ≠ o.expiredNoted) then
      ({ o with expiredNoted := o.quoteAttempt }.addNote .quoteExpired, true)
    else (o, false)
  | .overpaid => (o.addNote (.overpaid action.remainderRaw o.assetDecimals o.assetSymbol), true)
  | .none => (o, false)

def maxRememberedEvents : Nat := 100

def seenEvent (event : Uuid) (o : Order) : Bool := o.events.contains event

def rememberEvent (event : Uuid) (o : Order) : Order :=
  if o.events.contains event then o
  else
    let seen := o.events ++ [event]
    { o with events := seen.drop (seen.length - maxRememberedEvents) }

/-- The transaction hash of a settled latest attempt, or the intent id. -/
def transactionId (answers : Answers) (intent : Uuid) (o : Order) : TransactionId :=
  match o.checkoutToken, answers.checkout with
  | some _, .ok { paid := true, transactionHash := some text } => .hash text
  | _, _ => .intent intent

end Order

def actionForEvent (event : WebhookEvent) : Option Action :=
  match event.type with
  | .paid => some ⟨.complete, some .paid, event.intentId.map .intent, event.transferId, 0⟩
  | .partiallyPaid => some ⟨.holdPartial, some .partiallyPaid, none, event.transferId, 0⟩
  | .cancelled => some ⟨.cancel, some .cancelled, none, "", 0⟩
  | .overpaid => event.remainderRaw.map fun remainder => ⟨.overpaid, none, none, "", remainder⟩
  | .test => none
  | .other => none

def actionForStatus (status : Option IntentStatus) (intent : Uuid) : Action :=
  match status with
  | some .paid => ⟨.complete, some .paid, some (.intent intent), "", 0⟩
  | some .partiallyPaid => ⟨.holdPartial, some .partiallyPaid, none, "", 0⟩
  | some .cancelled => ⟨.cancel, some .cancelled, none, "", 0⟩
  | some .expired => ⟨.expired, some .expired, none, "", 0⟩
  | some s => ⟨.none, some s, none, "", 0⟩
  | none => ⟨.none, none, none, "", 0⟩

/-- A paid event completes an unpaid order only if the intent reads as paid now. -/
def confirmedCompletion (o : Order) (action : Action) (intent : Uuid) (answers : Answers) :
    Except String Action :=
  if o.isPaid then .ok action
  else if !answers.client then .error "gateway not configured; cannot confirm a paid event"
  else
    match answers.intent with
    | .error code => .error code
    | .ok read =>
      if read.status = some .paid then
        .ok { action with
          intentStatus := some .paid, transactionId := o.transactionId answers intent }
      else .error "paid event but the intent does not read as paid"

/-- The work of the webhook under the order lock; an error leaves the order as it was. -/
def process (event : WebhookEvent) (action : Action) (intent : Uuid) (answers : Answers)
    (o : Order) : Except String (Order × Bool) :=
  if o.seenEvent event.id then .ok (o, false)
  else
    match (if action.kind = .complete then confirmedCompletion o action intent answers
      else .ok action) with
    | .error message => .error message
    | .ok action => .ok (((o.rememberEvent event.id).apply action answers).1, true)

def syncFromGateway (now : Int) (answers : Answers) (o : Order) : Except String Order :=
  match o.intentId, answers.intent with
  | none, _ => .error "not_found"
  | some _, .error code => .error code
  | some intent, .ok read =>
    if read.id = intent then
      let action := actionForStatus read.status intent
      let action :=
        if action.kind = .complete ∧ !o.isPaid then
          { action with transactionId := o.transactionId answers intent }
        else action
      .ok ({ o with lastChecked := now }.apply action answers).1
    else .error "intent_mismatch"

abbrev Shop := Table Nat Order

/-- The order that owns an intent; an intent on two orders belongs to neither. -/
def findOrderByIntent (shop : Shop) (intent : Uuid) : Option (Nat × Order) :=
  match shop.entries.filter fun e => e.2.ours && e.2.intentId = some intent with
  | [found] => some found
  | _ => none

structure Delivery where
  secretConfigured : Bool := true
  verified : Bool := true
  event : Option WebhookEvent
deriving DecidableEq, Repr

inductive Reply where
  | notConfigured | invalidSignature | invalidEvent | testReceived | ignored | noMatchingOrder
  | duplicate | processed | busy | processingFailed
deriving DecidableEq, Repr

def Reply.code : Reply → Nat
  | .notConfigured => 503
  | .invalidSignature => 401
  | .invalidEvent => 400
  | .testReceived => 200
  | .ignored => 200
  | .noMatchingOrder => 200
  | .duplicate => 200
  | .processed => 200
  | .busy => 503
  | .processingFailed => 500

def handleEvent (event : WebhookEvent) (answers : Answers) (shop : Shop) : Shop × Reply :=
  if event.type = .test then (shop, .testReceived)
  else
    match actionForEvent event, event.intentId with
    | none, _ => (shop, .ignored)
    | some _, none => (shop, .noMatchingOrder)
    | some action, some intent =>
      match findOrderByIntent shop intent with
      | none => (shop, .noMatchingOrder)
      | some (id, order) =>
        if answers.lockFree then
          match process event action intent answers order with
          | .error _ => (shop, .processingFailed)
          | .ok (order', changed) =>
            (shop.modify id fun _ => order', if changed then .processed else .duplicate)
        else (shop, .busy)

def handle (delivery : Delivery) (answers : Answers) (shop : Shop) : Shop × Reply :=
  if !delivery.secretConfigured then (shop, .notConfigured)
  else if !delivery.verified then (shop, .invalidSignature)
  else
    match delivery.event with
    | none => (shop, .invalidEvent)
    | some event => handleEvent event answers shop

/-- One order checked now, by the job or by the administrator; a failed check leaves the
    order as it was. -/
def check (id : Nat) (now : Int) (answers : Answers) (shop : Shop) : Shop :=
  shop.modify id fun o =>
    if answers.lockFree && answers.client then (syncFromGateway now answers o).toOption.getD o
    else o

end CryptoGateway.WooCommerce
