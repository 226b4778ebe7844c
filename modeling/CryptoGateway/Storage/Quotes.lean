import CryptoGateway.Storage.Intents

/-!
`gateway-storage/src/postgres/quotes.rs`: the exact-amount reservation on an address, its replay
under an idempotency key, and its expiry.
-/
namespace CryptoGateway
open Engine

structure IssuedQuote where
  id : Id
  plan : QuotePlan
  amountRaw : Nat
deriving DecidableEq, Repr

inductive IdempotentQuote where
  | issued (quote : IssuedQuote)
  | replayed (quote : IssuedQuote)
deriving DecidableEq, Repr

def IdempotentQuote.quote : IdempotentQuote → IssuedQuote
  | .issued quote => quote
  | .replayed quote => quote

structure CollectorCandidate where
  id : Id
  address : Text
  openLeases : Nat
  validFrom : Int
deriving DecidableEq, Repr

structure QuoteContext where
  candidates : List CollectorCandidate
  price : Option PriceSnapshot
  policy : Option QuotePolicySnapshot
  railHealth : Option RailHealthSnapshot
  railStopReason : Option Text
deriving DecidableEq, Repr

structure ExpiryResult where
  quotesExpired : Nat
  leasesArchived : Nat
deriving DecidableEq, Repr

def Db.findQuote (merchantId quoteId : Id) (db : Db) : Option IssuedQuote :=
  ((db.quotes.row quoteId).filter (·.plan.merchantId = merchantId)).map fun row =>
    { id := quoteId, plan := row.plan, amountRaw := row.amountRaw }

def missingQuote : RepositoryError :=
  .corruptData "idempotency record references a missing quote"

def findQuoteReplay (merchantId : Id) (key : Text) (requestHash : Digest) :
    Job RepositoryError (Option IssuedQuote) :=
  Proc.transaction do
    match ← select (·.idempotency.row (merchantId, .quote, key)) with
    | none => do
      commit
      pure none
    | some existing =>
      if existing.requestHash ≠ requestHash then .fail .idempotencyConflict
      else do
        let quote ← select (·.findQuote merchantId existing.resourceId)
        let quote ← orFail missingQuote quote
        commit
        pure (some quote)

/-- The merchant's collector policy admits the address. -/
def Catalog.receivesFor (catalog : Catalog) (merchantId : Id) (collector : CollectorRow) : Bool :=
  match catalog.merchants merchantId with
  | none => false
  | some .own => collector.merchantId = some merchantId
  | some .shared => collector.merchantId = none

def Catalog.latestPrice (catalog : Catalog) (assetId : Id) (currency : CurrencyCode) :
    Option PriceSnapshot :=
  (((catalog.prices.filter fun p => p.1 = assetId && p.2.1 = currency).map (·.2.2)).insertionSort
    fun a b => b.observedAt < a.observedAt ∨ (a.observedAt = b.observedAt ∧ b.id ≤ a.id)).head?

def Catalog.activePolicy (catalog : Catalog) (assetId : Id) (currency : CurrencyCode) :
    Option QuotePolicySnapshot :=
  (catalog.quotePolicies.find? fun p => p.1 = assetId && p.2.1 = currency && p.2.2.1).map (·.2.2.2)

def Catalog.latestRailHealth (catalog : Catalog) (assetId : Id) : Option RailHealthSnapshot :=
  (((catalog.railHealth.filter (·.1 = assetId)).map (·.2)).insertionSort
    fun a b => b.observedAt < a.observedAt ∨ (a.observedAt = b.observedAt ∧ b.id ≤ a.id)).head?

def Catalog.assetActive (catalog : Catalog) (assetId : Id) : Bool :=
  (catalog.assets assetId).any (·.active)

def Db.openRailStop (db : Db) (assetId : Id) : Option (Id × RailStopRow) :=
  db.railStops.entries.find? fun e => e.2.assetId = assetId && !e.2.cleared

def Db.openLeases (db : Db) (collectorId : Id) : Nat :=
  (db.leases.entries.filter (·.2.collectorAddressId = collectorId)).length

def collectorCandidates (merchantId assetId : Id) (at_ : Int) (db : Db) :
    List CollectorCandidate :=
  let offered := db.collectors.entries.filter fun e =>
    e.2.assetId = assetId && e.2.state = .active && decide (e.2.validFrom ≤ at_) &&
      db.catalog.assetActive e.2.assetId && db.catalog.receivesFor merchantId e.2
  let rows := offered.map fun e =>
    { id := e.1, address := e.2.addressText, openLeases := db.openLeases e.1,
      validFrom := e.2.validFrom : CollectorCandidate }
  (rows.insertionSort fun a b =>
    a.openLeases < b.openLeases ∨ (a.openLeases = b.openLeases ∧
      (a.validFrom < b.validFrom ∨ (a.validFrom = b.validFrom ∧ a.id ≤ b.id)))).take 8

def quoteContext (merchantId assetId : Id) (currency : CurrencyCode) (at_ : Int) (db : Db) :
    QuoteContext where
  candidates := collectorCandidates merchantId assetId at_ db
  price := db.catalog.latestPrice assetId currency
  policy := db.catalog.activePolicy assetId currency
  railHealth := db.catalog.latestRailHealth assetId
  railStopReason := (db.openRailStop assetId).map (·.2.reasonCode)

def loadQuoteContext (merchantId assetId : Id) (currency : CurrencyCode) :
    Job RepositoryError QuoteContext := do
  let at_ ← now
  let context ← watch (.railStop assetId) (quoteContext merchantId assetId currency at_)
  if context.candidates.isEmpty then .fail .collectorUnavailable else pure context

/-- The evidence the plan was built from still stands: everything but the
    collector row is read as of the statement's start. -/
def Catalog.supports (catalog : Catalog) (plan : QuotePlan) : Bool :=
  catalog.assetActive plan.assetId &&
  (catalog.prices.any fun p => p.2.2.id = plan.priceSnapshotId && p.1 = plan.assetId &&
    p.2.1 = plan.fiatAmount.currency && p.2.2.rateNumerator = plan.rateNumerator &&
    p.2.2.rateDenominator = plan.rateDenominator && p.2.2.sources = plan.priceSources &&
    p.2.2.observedAt = plan.priceObservedAt) &&
  (catalog.quotePolicies.any fun p => p.2.2.2.id = plan.quotePolicyId && p.1 = plan.assetId &&
    p.2.1 = plan.fiatAmount.currency && p.2.2.1 && p.2.2.2.version = plan.policyVersion &&
    p.2.2.2.quoteTtlSeconds = plan.expiresAt / 1000000 - plan.createdAt / 1000000 &&
    p.2.2.2.latePaymentWindowSeconds =
      plan.latePaymentUntil / 1000000 - plan.expiresAt / 1000000 &&
    p.2.2.2.amountSlotCount = plan.amountSlotCount &&
    p.2.2.2.maxPriceAgeSeconds = plan.maxPriceAgeSeconds &&
    p.2.2.2.maxPolicyAgeSeconds = plan.maxPolicyAgeSeconds &&
    p.2.2.2.maxRailHealthAgeSeconds = plan.maxRailHealthAgeSeconds &&
    p.2.2.2.observedAt = plan.policyObservedAt) &&
  (catalog.railHealth.any fun r => r.2.id = plan.railHealthSnapshotId && r.1 = plan.assetId &&
    r.2.health = .healthy && r.2.observedAt = plan.railHealthObservedAt)

def offeredCollector (plan : QuotePlan) (catalog : Catalog) (db : Db) : Option CollectorRow :=
  (db.collectors.row plan.collectorAddressId).filter fun row =>
    row.assetId = plan.assetId && row.state = .active && decide (row.validFrom ≤ plan.createdAt) &&
      row.addressText = plan.collectorAddress && catalog.receivesFor plan.merchantId row &&
      catalog.supports plan

def collectorForUpdate (plan : QuotePlan) : Exec (Option CollectorRow) :=
  fun seen newest _ =>
    match offeredCollector plan seen.catalog seen, offeredCollector plan seen.catalog newest with
    | some _, some row => Reply.locked [(.collector plan.collectorAddressId, .update)] (some row)
    | _, _ => Reply.value none

/-- The least free exact amount near the price. -/
def freeSlot (plan : QuotePlan) (db : Db) : Option Nat :=
  (List.range plan.amountSlotCount).find? fun slot =>
    db.leases.entries.all fun e =>
      !(e.2.collectorAddressId = plan.collectorAddressId &&
        e.2.amountRaw = plan.baseAmountRaw + slot)

def insertQuote (plan : QuotePlan) (amountRaw : Nat) : Exec (Option RepositoryError) :=
  fun _ newest _ =>
    if (newest.quotes.row plan.quoteId).isSome then Reply.value (some .unavailable)
    else Reply.wrote [.insertQuote plan.quoteId { plan, amountRaw }] none

/-- The attempt takes the plan's window; `memo_reference` is left null. -/
def attemptOf (plan : QuotePlan) (amountRaw : Nat) : AttemptRow where
  merchantId := plan.merchantId
  paymentIntentId := plan.paymentIntentId
  quoteId := plan.quoteId
  collectorAddressId := plan.collectorAddressId
  expectedAmountRaw := amountRaw
  memoReference := none
  quoteExpiresAt := plan.expiresAt
  latePaymentUntil := plan.latePaymentUntil
  createdAt := plan.createdAt
  status := .awaitingPayment

def Db.liveAttempt (db : Db) (intentId : Id) : Bool :=
  db.attempts.entries.any fun e =>
    e.2.paymentIntentId = intentId && e.2.status = .awaitingPayment

def insertAttempt (plan : QuotePlan) (amountRaw : Nat) : Exec (Option RepositoryError) :=
  fun _ newest _ =>
    if (newest.attempts.row plan.attemptId).isSome then Reply.value (some .unavailable)
    else if newest.liveAttempt plan.paymentIntentId then
      Reply.value (some .paymentIntentNotQuotable)
    else Reply.wrote [.insertAttempt plan.attemptId (attemptOf plan amountRaw)] none

def leaseOf (plan : QuotePlan) (amountRaw : Nat) : LeaseRow where
  collectorAddressId := plan.collectorAddressId
  amountRaw := amountRaw
  attemptId := plan.attemptId
  leasedFrom := plan.createdAt
  leaseUntil := plan.latePaymentUntil

def insertLease (plan : QuotePlan) (amountRaw : Nat) (leaseId : Id) :
    Exec (Option RepositoryError) :=
  fun _ newest _ =>
    if (newest.leases.row leaseId).isSome then Reply.value (some .unavailable)
    else if newest.leases.entries.any fun e =>
        (e.2.collectorAddressId = plan.collectorAddressId && e.2.amountRaw = amountRaw) ||
          e.2.attemptId = plan.attemptId then
      Reply.value (some .amountSlotsExhausted)
    else Reply.wrote [.insertLease leaseId (leaseOf plan amountRaw)] none

def insertQuoteAttemptAndLease (plan : QuotePlan) (amountRaw : Nat) :
    Job RepositoryError Unit := do
  orViolation (insertQuote plan amountRaw)
  orViolation (insertAttempt plan amountRaw)
  let leaseId ← uuid
  orViolation (insertLease plan amountRaw leaseId)

/-- Whether an expired intent may be quoted again. -/
def requotable (intentId : Id) (intent : IntentRow) : Job RepositoryError Bool :=
  if intent.status = .expired then do
    let decided ← select (·.decidedOrClaimed intentId)
    pure (!decided)
  else pure false

def updateQuotedIntent (plan : QuotePlan) : Exec Nat :=
  updateOne (.intent plan.paymentIntentId)
    (fun db => (db.findIntent plan.merchantId plan.paymentIntentId).filter fun row =>
      row.status = .requiresQuote || row.status = .expired)
    fun _ => [.setIntentStatus plan.paymentIntentId .awaitingPayment]

def issueLocked (plan : QuotePlan) : Job RepositoryError IdempotentQuote := do
  let collector ← execute (collectorForUpdate plan)
  let _ ← orFail .collectorUnavailable collector
  let slot ← watch (.slot plan.collectorAddressId plan.baseAmountRaw plan.amountSlotCount)
    (freeSlot plan)
  let slot ← orFail .amountSlotsExhausted slot
  match RawAmount.checkedAddU32 plan.baseAmountRaw slot with
  | .error _ => .fail (.corruptData "raw amount overflow")
  | .ok amountRaw => do
    insertQuoteAttemptAndLease plan amountRaw
    let updated ← execute (updateQuotedIntent plan)
    if updated ≠ 1 then .fail .paymentIntentNotQuotable
    else do
      let quote ← select (·.findQuote plan.merchantId plan.quoteId)
      let quote ← orFail (.corruptData "issued quote is missing") quote
      commit
      pure (.issued quote)

def issueQuoteIdempotently (plan : QuotePlan) (key : Text) (requestHash : Digest) :
    Job RepositoryError IdempotentQuote :=
  Proc.transaction do
    let inserted ← execute (insertIdempotency plan.merchantId .quote key
      { requestHash, resourceId := plan.quoteId })
    if !inserted then do
      let resource ← replayedResource plan.merchantId .quote key requestHash
      let quote ← select (·.findQuote plan.merchantId resource)
      let quote ← orFail missingQuote quote
      commit
      pure (.replayed quote)
    else do
      let intent ← execute (forUpdate (.intent plan.paymentIntentId)
        (·.findIntent plan.merchantId plan.paymentIntentId))
      let intent ← orFail .paymentIntentNotQuotable intent
      let again ← requotable plan.paymentIntentId intent
      if (intent.status ≠ .requiresQuote && !again) ||
          intent.amountMinor ≠ plan.fiatAmount.minorUnits ||
          intent.currency ≠ plan.fiatAmount.currency then
        .fail .paymentIntentNotQuotable
      else issueLocked plan

def byDeadline (rows : List (Int × Id)) : List Id :=
  (rows.insertionSort fun a b => a.1 < b.1 ∨ (a.1 = b.1 ∧ a.2 ≤ b.2)).map (·.2)

def dueAttempt (at_ : Int) (db : Db) (id : Id) : Option AttemptRow :=
  (db.attempts.row id).filter fun row =>
    row.status = .awaitingPayment && decide (row.quoteExpiresAt ≤ at_)

/-- `FOR UPDATE OF attempt SKIP LOCKED`. -/
def dueAttempts (at_ : Int) (limit : Nat) : Exec (List (Id × AttemptRow)) :=
  fun seen newest free =>
    let due := byDeadline (seen.attempts.keys.filterMap fun id =>
      (dueAttempt at_ seen id).map fun row => (row.quoteExpiresAt, id))
    let rows := ((due.filter fun id => free (.attempt id, .update)).filterMap fun id =>
      (dueAttempt at_ newest id).map (id, ·)).take limit
    Reply.locked (rows.map fun e => (.attempt e.1, .update)) rows

/-- The self-joined `UPDATE payment_intents`: the status it decides by is the
    snapshot's, the row it changes is the newest. -/
def expireIntent (intentId : Id) : Exec (Option PaymentIntentStatus) :=
  fun seen newest _ =>
    match seen.intents.row intentId, newest.intents.row intentId with
    | some previous, some _ =>
      { locks := [(.intent intentId, .noKeyUpdate)]
        writes := if previous.status = .awaitingPayment then [.setIntentStatus intentId .expired]
          else []
        value := some previous.status }
    | _, _ => Reply.value none

def expireAttempt (id : Id) (attempt : AttemptRow) : Job RepositoryError Unit := do
  let updated ← execute (updateOne (.attempt id) (·.attempts.row id)
    fun _ => [.setAttemptStatus id .expired])
  if updated ≠ 1 then
    .fail (.corruptData "a locked attempt due for expiry could not be expired")
  else do
    let status ← Proc.stmt (some (.expiring attempt.paymentIntentId))
      (expireIntent attempt.paymentIntentId) .done
    let _ ← orFail .unavailable status
    pure ()

def expireAttempts : List (Id × AttemptRow) → Job RepositoryError Unit
  | [] => pure ()
  | (id, attempt) :: rest => do
    expireAttempt id attempt
    expireAttempts rest

def dueLease (at_ : Int) (db : Db) (id : Id) : Option LeaseRow :=
  (db.leases.row id).filter fun row =>
    decide (row.leaseUntil ≤ at_) && (db.attempts.row row.attemptId).isSome

/-- `FOR UPDATE OF lease SKIP LOCKED`. -/
def dueLeases (at_ : Int) (limit : Nat) : Exec (List (Id × LeaseRow)) :=
  fun seen newest free =>
    let due := byDeadline (seen.leases.keys.filterMap fun id =>
      (dueLease at_ seen id).map fun row => (row.leaseUntil, id))
    let rows := ((due.filter fun id => free (.lease id, .update)).filterMap fun id =>
      (dueLease at_ newest id).map (id, ·)).take limit
    Reply.locked (rows.map fun e => (.lease e.1, .update)) rows

def historyOf (lease : LeaseRow) (at_ : Int) : LeaseHistoryRow where
  collectorAddressId := lease.collectorAddressId
  amountRaw := lease.amountRaw
  attemptId := lease.attemptId
  leasedFrom := lease.leasedFrom
  leasedUntil := lease.leaseUntil
  releasedAt := at_

def insertLeaseHistory (id : Id) (lease : LeaseRow) (at_ : Int) : Exec (Option RepositoryError) :=
  fun _ newest _ =>
    if (newest.leaseHistory.row id).isSome || (newest.leaseHistory.entries.any fun e =>
        e.2.attemptId = lease.attemptId) then Reply.value (some .unavailable)
    else Reply.wrote [.insertLeaseHistory id (historyOf lease at_)] none

def archiveLease (at_ : Int) (id : Id) (lease : LeaseRow) : Job RepositoryError Unit := do
  orViolation (insertLeaseHistory id lease at_)
  execute fun _ _ _ => Reply.wrote [.deleteLease id] ()

def archiveLeases (at_ : Int) : List (Id × LeaseRow) → Job RepositoryError Unit
  | [] => pure ()
  | (id, lease) :: rest => do
    archiveLease at_ id lease
    archiveLeases at_ rest

def expireQuotesAndArchiveLeases (at_ : Int) (limit : Nat) : Job RepositoryError ExpiryResult :=
  Proc.transaction do
    let attempts ← execute (dueAttempts at_ limit)
    expireAttempts attempts
    let leases ← execute (dueLeases at_ limit)
    archiveLeases at_ leases
    commit
    pure { quotesExpired := attempts.length, leasesArchived := leases.length }

end CryptoGateway
