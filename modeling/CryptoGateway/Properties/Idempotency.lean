import CryptoGateway.Engine.Answers
import CryptoGateway.Refinement.Calls
import CryptoGateway.Runs

/-!
The merchant API under an idempotency key: creating an intent, cancelling it and
issuing a quote, however the calls with one key interleave.
-/
namespace CryptoGateway
open Engine Proc

inductive ApiCall where
  | create (input : CreatePaymentIntent)
  | cancel (intentId : Id) (reason : Option Text)
  | issue (input : IssueQuote)

namespace ApiCall

def request (merchantId : Id) (key : Text) : ApiCall → Request
  | .create input => .createIntent merchantId key input
  | .cancel intentId reason => .cancelIntent merchantId key intentId reason
  | .issue input => .issueQuote merchantId key input

def route : ApiCall → Route
  | .create _ => .create
  | .cancel _ _ => .cancel
  | .issue _ => .quote

def hash : ApiCall → Digest
  | .create input => .create input.amountMinor input.currency input.reference input.description
      input.metadata
  | .cancel intentId reason => .cancel intentId ((reason.map Text.trim).filter (!·.isEmpty))
  | .issue input => .quote input.paymentIntentId input.assetId

def conflict : ApiCall → Failure
  | .issue _ => .quote (.repository .idempotencyConflict)
  | _ => .service (.repository .idempotencyConflict)

end ApiCall

def IdempotentCreate.isReplay : IdempotentCreate → Bool
  | .created _ _ => false
  | .replayed _ _ => true

def IdempotentQuote.isReplay : IdempotentQuote → Bool
  | .issued _ => false
  | .replayed _ => true

def Response.resource : Response → Option Id
  | .intent result => some result.id
  | .quote result => some result.quote.id
  | _ => none

def Response.isReplay : Response → Bool
  | .intent result => result.isReplay
  | .quote result => result.isReplay
  | _ => false

def Failure.isValidation : Failure → Bool
  | .service .invalidIdempotencyKey => true
  | .service .invalidCancellationReason => true
  | .service (.money _) => true
  | .service (.paymentIntent _) => true
  | .quote .invalidIdempotencyKey => true
  | _ => false

section Settles
variable {ε α : Type}

def Spends (merchantId : Id) (route : Route) (key : Text) (hash : Digest)
    (ws : List Write) : Prop :=
  ∃ resource, .insertIdempotency merchantId route key ⟨hash, resource⟩ ∈ ws

def Keyed (merchantId : Id) (route : Route) (key : Text) (hash : Digest) (isReplay : α → Bool)
    (ws : List Write) (job : Job ε α) : Prop :=
  job.Settles (fun a ws => isReplay a = false ∧ Spends merchantId route key hash ws)
    (fun a _ => isReplay a = true) ws

variable {merchantId : Id} {route : Route} {key : Text} {hash : Digest} {isReplay : α → Bool}
  {ws : List Write}

theorem Spends.bind {β : Type} {p : Job ε β} {f : β → Job ε α}
    (spends : Spends merchantId route key hash ws) (quiet : p.Quiet)
    (rest : ∀ b ws, Spends merchantId route key hash ws →
      Keyed merchantId route key hash isReplay ws (f b)) :
    Keyed merchantId route key hash isReplay ws (p.bind f) :=
  Quiet.settles_bind quiet fun b ws' more => rest b ws' (spends.imp fun _ mem => more mem)

theorem insertIdempotency_keyed {resource : Id} {f : Bool → Job ε α}
    (fresh : ∀ ws, Spends merchantId route key hash ws →
      Keyed merchantId route key hash isReplay ws (f true))
    (spent : Keyed merchantId route key hash isReplay [] (f false)) :
    Keyed merchantId route key hash isReplay []
      ((execute (insertIdempotency merchantId route key ⟨hash, resource⟩)).bind f) := by
  intro seen newest grant
  show Proc.Settles _ _ ([] ++ (insertIdempotency _ _ _ _ seen newest grant).writes)
    (f (insertIdempotency _ _ _ _ seen newest grant).value)
  unfold insertIdempotency
  split
  · exact fresh _ ⟨resource, List.mem_cons_self⟩
  · exact spent

theorem replayedResource_settles {F : Id → List Write → Prop} :
    (replayedResource merchantId route key hash).Settles F (fun _ ws' => ws' = ws) ws := by
  intro existing
  cases existing with
  | none => trivial
  | some record =>
    show Proc.Settles _ _ _ (if record.requestHash ≠ hash then _ else _)
    split
    · trivial
    · rfl

theorem createIdempotently_keyed (intent : PaymentIntent) :
    Keyed intent.merchantId .create key hash IdempotentCreate.isReplay []
      (createIdempotently intent key hash) := by
  refine Settles.transaction (insertIdempotency_keyed (fun ws spends => ?_) ?_)
  · refine spends.bind (execute_quiet _) fun refused ws spends => ?_
    cases refused with
    | some error => trivial
    | none => exact .inr ⟨_, rfl, rfl, spends⟩
  · refine Settles.bind (F := fun _ _ => False) replayedResource_settles (fun _ _ => False.elim)
      fun resource ws same => ?_
    subst same
    intro intent
    cases intent with
    | none => trivial
    | some row => exact .inl ⟨rfl, rfl⟩

theorem cancelLocked_keyed (intentId : Id) (spends : Spends merchantId .cancel key hash ws) :
    Keyed merchantId .cancel key hash (Option.all IdempotentCreate.isReplay) ws
      (cancelLocked merchantId intentId) := by
  refine spends.bind (execute_quiet _) fun _ ws spends => ?_
  refine spends.bind (execute_quiet _) fun _ ws spends => ?_
  refine spends.bind (enqueueOutbox_quiet _ _ _) fun _ ws spends => ?_
  refine spends.bind (select_quiet _) fun _ ws spends => ?_
  refine spends.bind (orFail_quiet _ _) fun _ ws spends => ?_
  exact .inr ⟨_, rfl, rfl, spends⟩

theorem cancelIdempotently_keyed (intentId : Id) :
    Keyed merchantId .cancel key hash (Option.all IdempotentCreate.isReplay) []
      (cancelIdempotently merchantId intentId key hash) := by
  refine Settles.transaction (insertIdempotency_keyed (fun ws spends => ?_) ?_)
  · refine spends.bind (execute_quiet _) fun intent ws spends => ?_
    cases intent with
    | none => exact rfl
    | some intent =>
      refine spends.bind (select_quiet _) fun _ ws spends => ?_
      split
      · trivial
      · exact cancelLocked_keyed intentId spends
  · refine Settles.bind (F := fun _ _ => False) replayedResource_settles (fun _ _ => False.elim)
      fun resource ws same => ?_
    subst same
    intro intent
    refine .inl ⟨rfl, ?_⟩
    cases intent <;> rfl

theorem issueLocked_keyed {plan : QuotePlan} (spends : Spends merchantId .quote key hash ws) :
    Keyed merchantId .quote key hash IdempotentQuote.isReplay ws (issueLocked plan) := by
  refine spends.bind (execute_quiet _) fun _ ws spends => ?_
  refine spends.bind (orFail_quiet _ _) fun _ ws spends => ?_
  refine spends.bind (fun _ => trivial) fun _ ws spends => ?_
  refine spends.bind (orFail_quiet _ _) fun slot ws spends => ?_
  split
  · trivial
  refine spends.bind ?_ fun _ ws spends => ?_
  · refine Quiet.bind (orViolation_quiet _) fun _ => Quiet.bind (orViolation_quiet _) fun _ => ?_
    exact Quiet.bind uuid_quiet fun _ => orViolation_quiet _
  refine spends.bind (execute_quiet _) fun updated ws spends => ?_
  split
  · trivial
  refine spends.bind (select_quiet _) fun _ ws spends => ?_
  refine spends.bind (orFail_quiet _ _) fun _ ws spends => ?_
  exact .inr ⟨_, rfl, rfl, spends⟩

theorem issueQuoteIdempotently_caught (plan : QuotePlan) :
    (Proc.caught (issueQuoteIdempotently plan key hash) :
      Job QuoteServiceError (Except RepositoryError IdempotentQuote)).Settles
      (fun r ws => ∃ q, r = .ok q ∧ q.isReplay = false ∧ Spends plan.merchantId .quote key hash ws)
      (fun r ws => (∃ q, r = .ok q ∧ q.isReplay = true) ∨ ∃ e, r = .error e ∧ ws = []) [] := by
  refine Settles.caught (insertIdempotency_keyed (fun ws spends => ?_) ?_)
  · refine spends.bind (execute_quiet _) fun _ ws spends => ?_
    refine spends.bind (orFail_quiet _ _) fun intent ws spends => ?_
    refine spends.bind ?_ fun again ws spends => ?_
    · unfold requotable
      split
      · exact Quiet.bind (select_quiet _) fun _ => trivial
      · trivial
    split
    · trivial
    · exact issueLocked_keyed spends
  · refine Settles.bind (F := fun _ _ => False) replayedResource_settles (fun _ _ => False.elim)
      fun resource ws same => ?_
    subst same
    intro quote
    cases quote with
    | none => trivial
    | some quote => exact .inl ⟨rfl, rfl⟩

theorem createIntent_keyed (input : CreatePaymentIntent) :
    Keyed merchantId .create key (ApiCall.create input).hash IdempotentCreate.isReplay []
      (createIntent merchantId key input) := by
  unfold createIntent
  split
  · trivial
  cases CurrencyCode.new input.currency with
  | error e => trivial
  | ok currency =>
  show Keyed _ _ _ _ _ _ ((liftExcept ServiceError.money
    (FiatAmount.parsePositive currency input.amountMinor)).bind _)
  cases FiatAmount.parsePositive currency input.amountMinor with
  | error e => trivial
  | ok amount =>
    intro id
    show Settles _ _ _ ((liftExcept ServiceError.paymentIntent (PaymentIntent.create id merchantId
      amount input.reference input.description input.metadata)).bind _)
    cases created : PaymentIntent.create id merchantId amount input.reference input.description
      input.metadata with
    | error e => trivial
    | ok intent =>
      obtain ⟨_, rfl⟩ := create_opens created
      exact Settles.mapError (createIdempotently_keyed intent) _

theorem cancelIntent_keyed (intentId : Id) (reason : Option Text) :
    Keyed merchantId .cancel key (ApiCall.cancel intentId reason).hash IdempotentCreate.isReplay []
      (cancelIntent merchantId key intentId reason) := by
  unfold cancelIntent
  split
  · trivial
  simp only
  split
  · trivial
  refine Settles.bind (Settles.mapError (cancelIdempotently_keyed intentId) _)
    (fun result ws fits => ?_) fun result ws repeats => ?_
  · cases result with
    | none => cases fits.1
    | some answer => exact ⟨answer, rfl, fits⟩
  · cases result with
    | none => trivial
    | some answer => exact repeats

theorem issueOnCandidates_keyed (input : IssueQuote) (intent : IntentRow) (context : QuoteContext)
    (candidates : List CollectorCandidate) (lastRefusal : Option RepositoryError) :
    Keyed merchantId .quote key (ApiCall.issue input).hash IdempotentQuote.isReplay []
      (issueOnCandidates merchantId key input intent context candidates lastRefusal) := by
  induction candidates generalizing lastRefusal with
  | nil => trivial
  | cons candidate rest ih =>
    intro at_ quoteId attemptId
    show Settles _ _ _ ((liftExcept QuoteServiceError.quote (QuotePlan.build quoteId attemptId
      merchantId input.paymentIntentId input.assetId candidate.id candidate.address
      { currency := intent.currency, minorUnits := intent.amountMinor } context.price
      context.policy context.railHealth at_)).bind _)
    cases built : QuotePlan.build quoteId attemptId merchantId input.paymentIntentId input.assetId
      candidate.id candidate.address
      { currency := intent.currency, minorUnits := intent.amountMinor } context.price
      context.policy context.railHealth at_ with
    | error e => trivial
    | ok plan =>
      obtain ⟨_, _, rfl⟩ := build_createdAt built
      refine Settles.bind (p := Proc.caught _) (issueQuoteIdempotently_caught plan) ?_ ?_
      · rintro _ ws ⟨q, rfl, fits⟩
        exact ⟨q, rfl, fits⟩
      · rintro _ ws (⟨q, rfl, repeats⟩ | ⟨e, rfl, rfl⟩)
        · exact repeats
        · cases e with
          | amountSlotsExhausted => exact ih _
          | collectorUnavailable => exact ih _
          | _ => trivial

theorem findQuoteReplay_settles {F : Option IssuedQuote → List Write → Prop} :
    (findQuoteReplay merchantId key hash).Settles F (fun _ ws => ws = []) [] := by
  refine Settles.transaction fun existing => ?_
  cases existing with
  | none => exact .inl ⟨rfl, rfl⟩
  | some record =>
    show Settles _ _ _ (if record.requestHash ≠ hash then _ else _)
    split
    · trivial
    · intro quote
      cases quote with
      | none => trivial
      | some quote => exact .inl ⟨rfl, rfl⟩

theorem loadQuoteContext_settles {assetId : Id} {currency : CurrencyCode}
    {F : QuoteContext → List Write → Prop} :
    (loadQuoteContext merchantId assetId currency).Settles F (fun _ ws => ws = []) [] := by
  intro at_ context
  show Settles _ _ _ (if context.candidates.isEmpty then _ else _)
  split
  · trivial
  · rfl

theorem issueQuote_keyed (maxOpenLeases : Option Nat) (input : IssueQuote) :
    Keyed merchantId .quote key (ApiCall.issue input).hash IdempotentQuote.isReplay []
      (issueQuote maxOpenLeases merchantId key input) := by
  have never : ∀ {β : Type} {f : β → Job QuoteServiceError IdempotentQuote}
      {p : Job QuoteServiceError β}, p.Settles (fun _ _ => False) (fun _ ws => ws = []) [] →
      (∀ b, Keyed merchantId .quote key (ApiCall.issue input).hash
        IdempotentQuote.isReplay [] (f b)) →
      Keyed merchantId .quote key (ApiCall.issue input).hash IdempotentQuote.isReplay []
      (p.bind f) := by
    intro β f p reads rest
    refine Settles.bind reads (fun _ _ => False.elim) ?_
    rintro b _ rfl
    exact rest b
  unfold issueQuote
  split
  · trivial
  refine never (Settles.mapError findQuoteReplay_settles _) fun replay => ?_
  cases replay with
  | some quote => exact rfl
  | none =>
    refine never (fun _ => rfl) fun intent => ?_
    refine never (by cases intent <;> trivial) fun intent => ?_
    refine never (Settles.mapError loadQuoteContext_settles _) fun context => ?_
    cases context.railStopReason with
    | some reason => trivial
    | none =>
      simp only
      split
      · trivial
      · exact issueOnCandidates_keyed input intent context _ _

theorem ApiCall.keyed (config : Config) (merchantId : Id) (key : Text) (call : ApiCall) :
    Keyed merchantId call.route key call.hash Response.isReplay []
      (program config (call.request merchantId key)) := by
  cases call with
  | create input =>
    exact Settles.map (Settles.mapError (createIntent_keyed input) _) _ (fun _ _ fits => fits)
      fun _ _ repeats => repeats
  | cancel intentId reason =>
    exact Settles.map (Settles.mapError (cancelIntent_keyed intentId reason) _) _
      (fun _ _ fits => fits) fun _ _ repeats => repeats
  | issue input =>
    exact Settles.map (Settles.mapError (issueQuote_keyed _ input) _) _ (fun _ _ fits => fits)
      fun _ _ repeats => repeats

end Settles

section Answers
variable {config : Config} {log : Log Db Watch} {db : Db} {merchantId : Id} {key : Text}

theorem ApiCall.answers (call : ApiCall) (sane : Sane config db) :
    wp (contract config) (program config (call.request merchantId key))
      (fun response c => ∃ resource, response.resource = some resource ∧
        c.db.Spent merchantId call.route key call.hash resource)
      (fun _ _ => True) ⟨[], [], log, db⟩ := by
  cases call with
  | create input =>
    refine (wp_answer _ _ _ _).mpr (wp_mono (createIntent_spec merchantId key input sane) ?_ ?_)
    · exact fun r c done => ⟨r.id, rfl, done.2⟩
    · exact fun _ _ _ => trivial
  | cancel intentId reason =>
    refine (wp_answer _ _ _ _).mpr (wp_mono (cancelIntent_spec merchantId key intentId
      reason sane) ?_ ?_)
    · exact fun r c done => ⟨r.id, rfl, done.2⟩
    · exact fun _ _ _ => trivial
  | issue input =>
    refine (wp_answer _ _ _ _).mpr (wp_mono
      (issueQuote_spec (P := False) _ merchantId key input sane False.elim) ?_ ?_)
    · exact fun r c done => ⟨r.quote.id, rfl, done.2.1⟩
    · exact fun _ _ _ => trivial

variable {route : Route} {hash spentOn : Digest} {resource : Id}

theorem wp_spentKey {α : Type} {id : Id} {f : Bool → Job RepositoryError α}
    {g : Id → Job RepositoryError α}
    (replays : f false = replayedResource merchantId route key hash >>= g)
    (stored : db.Spent merchantId route key spentOn resource) (other : hash ≠ spentOn) :
    wp (contract config)
      (Proc.transaction (execute (insertIdempotency merchantId route key ⟨hash, id⟩) >>= f))
      (fun _ _ => False) (fun e _ => e = .idempotencyConflict) ⟨[], [], log, db⟩ := by
  refine wp_transaction_error ?_ fun e log db known _ => known
  rw [wp_bind]
  refine wp_insertIdempotency spentKey_stable stored (fun record db _ stored _ => ?_)
    fun db _ stored unspent => ?_
  · rw [replays, wp_bind]
    exact wp_replayedResource stored (fun _ _ => rfl) fun _ _ _ same => absurd same other
  · cases unspent.symm.trans stored

theorem ApiCall.conflicts (call : ApiCall)
    (stored : db.Spent merchantId call.route key spentOn resource) (other : call.hash ≠ spentOn) :
    wp (contract config) (program config (call.request merchantId key)) (fun _ _ => False)
      (fun e _ => e = call.conflict ∨ e.isValidation = true) ⟨[], [], log, db⟩ := by
  cases call with
  | create input =>
    refine (wp_answer _ _ _ _).mpr ?_
    unfold createIntent
    split
    · exact .inr rfl
    rw [wp_bind]
    refine wp_liftExcept (fun _ _ => .inr rfl) fun currency _ => ?_
    rw [wp_bind]
    refine wp_liftExcept (fun _ _ => .inr rfl) fun amount _ => ?_
    rw [wp_bind]
    refine wp_uuid spentKey_stable stored fun id db _ stored => ?_
    rw [wp_bind]
    refine wp_liftExcept (fun _ _ => .inr rfl) fun intent created => ?_
    obtain ⟨_, rfl⟩ := create_opens created
    rw [wp_mapError]
    refine wp_mono (wp_spentKey rfl stored other) (fun _ _ no => no) ?_
    rintro _ _ rfl
    exact .inl rfl
  | cancel intentId reason =>
    refine (wp_answer _ _ _ _).mpr ?_
    unfold cancelIntent
    split
    · exact .inr rfl
    simp only
    split
    · exact .inr rfl
    rw [wp_bind, wp_mapError]
    refine wp_mono (wp_spentKey rfl stored other) (fun _ _ no => no.elim) ?_
    rintro _ _ rfl
    exact .inl rfl
  | issue input =>
    refine (wp_answer _ _ _ _).mpr ?_
    unfold issueQuote
    split
    · exact .inr rfl
    rw [wp_bind, wp_mapError]
    have looked : wp (contract config) (findQuoteReplay merchantId key (ApiCall.issue input).hash)
        (fun _ _ => False) (fun e _ => e = .idempotencyConflict) ⟨[], [], log, db⟩ := by
      refine wp_transaction_error ?_ fun e log db known _ => known
      rw [wp_bind]
      refine wp_select spentKey_stable stored fun db _ stored => ?_
      rw [applyAll_nil, show db.idempotency.row (merchantId, .quote, key) = _ from stored]
      show wp _ (if spentOn ≠ _ then _ else _) _ _ _
      rw [if_pos (Ne.symm other)]
      rfl
    refine wp_mono looked (fun _ _ no => no.elim) ?_
    rintro _ _ rfl
    exact .inl rfl

end Answers

section Enters
variable {ε α : Type} {merchantId : Id} {route : Route} {key : Text} {hash : Digest}

theorem insertIdempotency_enters {row : IdempotencyRow} {next : Bool → Job ε α}
    (one : (next true).OneTransaction) : Proc.Enters (.idempotency merchantId route key, .update)
      (fun db : Db => db.idempotency.row (merchantId, route, key) = none)
      (Proc.stmt none (insertIdempotency merchantId route key row) next) := by
  refine ⟨fun _ _ _ _ => rfl, fun seen newest grant unspent => ?_⟩
  have inserts : insertIdempotency merchantId route key row seen newest grant =
      Reply.wrote [.insertIdempotency merchantId route key row] true := by
    simp only [insertIdempotency, unspent]
  rw [inserts]
  exact ⟨by simp [Reply.wrote, required, Store.needs, Write.needs], one⟩

theorem createIdempotently_enters (intent : PaymentIntent) :
    (createIdempotently intent key hash).Enters
    (.idempotency intent.merchantId .create key, .update)
      fun db => db.idempotency.row (intent.merchantId, .create, key) = none := by
  refine insertIdempotency_enters (CommitsLast.transaction ?_)
  show CommitsLast ((execute (insertIntent intent)).bind _)
  refine Quiet.bind (execute_quiet _) fun refused => ?_
  cases refused with
  | some error => trivial
  | none => exact ⟨_, rfl⟩

theorem orFail_one {δ : Type} {p : Job ε (Option α)}
    (first : p.Turns (fun next => ∃ a, next = .done (some a)) (fun next => next = .done none))
    (f : ε → δ) (error : δ) : ((p.transaction.mapError f).bind (orFail error)).OneTransaction := by
  have inside : p.transaction.Turns (fun next => ∃ a, next = .done (some a))
      (fun next => next = .done none ∨ next.Failed) := by
    refine Turns.handle first ?_ ?_ fun e => .inr ⟨e, rfl⟩
    · rintro _ ⟨a, rfl⟩
      exact ⟨a, rfl⟩
    · rintro _ rfl
      exact .inl rfl
  have mapped : (p.transaction.mapError f).Turns (fun next => ∃ a, next = .done (some a))
      (fun next => next = .done none ∨ next.Failed) := by
    refine Turns.handle inside ?_ ?_ fun _ => trivial
    · rintro _ ⟨a, rfl⟩
      exact ⟨a, rfl⟩
    · rintro _ (rfl | ⟨e, rfl⟩)
      · exact .inl rfl
      · exact .inr ⟨_, rfl⟩
  refine Turns.bind mapped ?_ ?_ fun result => by cases result <;> trivial
  · rintro _ ⟨a, rfl⟩
    exact ⟨a, rfl⟩
  · rintro _ (rfl | ⟨e, rfl⟩)
    · exact ⟨_, rfl⟩
    · exact ⟨e, rfl⟩

theorem cancelIdempotently_enters (intentId : Id) :
    (((cancelIdempotently merchantId intentId key hash).mapError ServiceError.repository).bind
      (orFail .notFound)).Enters (.idempotency merchantId .cancel key, .update)
      fun db => db.idempotency.row (merchantId, .cancel, key) = none := by
  refine insertIdempotency_enters (orFail_one ?_ _ _)
  show Turns _ _
    ((execute (forUpdate (.intent intentId) (·.findIntent merchantId intentId))).bind _)
  refine Quiet.bind (execute_quiet _) fun found => ?_
  cases found with
  | none => exact rfl
  | some intent =>
    refine Quiet.bind (select_quiet _) fun _ => ?_
    split
    · trivial
    refine Quiet.bind (execute_quiet _) fun _ => Quiet.bind (execute_quiet _) fun _ => ?_
    refine Quiet.bind (enqueueOutbox_quiet _ _ _) fun _ => Quiet.bind (select_quiet _) fun _ => ?_
    exact Quiet.bind (orFail_quiet _ _) fun cancelled => ⟨_, rfl⟩

theorem ApiCall.enters {config : Config} {call : ApiCall} (direct : call.route ≠ .quote) :
    (program config (call.request merchantId key)).Enters
      (.idempotency merchantId call.route key, .update)
      fun db => db.idempotency.row (merchantId, call.route, key) = none := by
  cases call with
  | issue input => exact absurd rfl direct
  | create input =>
    refine Enters.map (Enters.mapError ?_ _) _
    unfold createIntent
    split
    · trivial
    cases CurrencyCode.new input.currency with
    | error e => trivial
    | ok currency =>
    show Enters _ _ ((liftExcept ServiceError.money
      (FiatAmount.parsePositive currency input.amountMinor)).bind _)
    cases FiatAmount.parsePositive currency input.amountMinor with
    | error e => trivial
    | ok amount =>
      intro id
      show Enters _ _ ((liftExcept ServiceError.paymentIntent (PaymentIntent.create id merchantId
        amount input.reference input.description input.metadata)).bind _)
      cases created : PaymentIntent.create id merchantId amount input.reference input.description
        input.metadata with
      | error e => trivial
      | ok intent =>
        obtain ⟨_, rfl⟩ := create_opens created
        exact Enters.mapError (createIdempotently_enters intent) _
  | cancel intentId reason =>
    refine Enters.map (Enters.mapError ?_ _) _
    unfold cancelIntent
    split
    · trivial
    simp only
    split
    · trivial
    · exact cancelIdempotently_enters intentId

end Enters

def Makes (db : Db) (merchantId resource : Id) (ws : List Write) : Route → Prop
  | .create => ∃ key record row, db.intents.row resource = none ∧ row.merchantId = merchantId ∧
      ws = [.insertIdempotency merchantId .create key record, .insertIntent resource row]
  | .cancel => ∃ (key : Text) (record : IdempotencyRow) (live : List Id) (eventId : Id),
      (∀ a, a ∈ live ↔ db.Live resource a) ∧
      ws = [.insertIdempotency merchantId .cancel key record,
          .setIntentStatus resource .cancelled] ++ live.map (.setAttemptStatus · .cancelled) ++
        [.insertEvent eventId (cancelledEvent merchantId resource)]
  | .quote => ∃ q : Issue, db.quotes.row resource = none ∧ q.plan.merchantId = merchantId ∧
      q.plan.quoteId = resource ∧ ws = q.writes

theorem Effect.insertIdempotency_mem {config : Config} {log : Log Db Watch} {db : Db}
    {ws : List Write} {merchantId : Id} {route : Route} {key : Text} {record : IdempotencyRow}
    (eff : Effect config log db ws) (mem : .insertIdempotency merchantId route key record ∈ ws) :
    db.idempotency.row (merchantId, route, key) = none ∧
      Makes db merchantId record.resourceId ws route ∧
      (applyAll ws db).idempotency.row (merchantId, route, key) = some record := by
  cases eff with
  | create id row absent opens unspent =>
    simp at mem
    obtain ⟨rfl, rfl, rfl, rfl⟩ := mem
    exact ⟨unspent, ⟨_, _, row, absent, rfl, rfl⟩, spent_of_insert unspent⟩
  | cancel found cancellable untouched all unspent ofMerchant =>
    simp at mem
    obtain ⟨rfl, rfl, rfl, rfl⟩ := mem
    exact ⟨unspent, ⟨_, _, _, _, all, rfl⟩, spent_of_insert unspent⟩
  | issue q sound =>
    simp [Issue.writes] at mem
    obtain ⟨rfl, rfl, rfl, rfl⟩ := mem
    exact ⟨sound.unspent, ⟨q, sound.newQuote, rfl, rfl, rfl⟩, spent_of_insert sound.unspent⟩
  | aside only => exact absurd (only _ mem) (by simp [Write.table, asideTables])
  | pay p => cases p.isDecision_of_mem mem
  | park => cases isDecision_of_mem_park mem
  | _ => simp [Sweep.writes, Expiry.writes, Sweep.archiveWrites, attestationWrites,
      StateStep.writes] at mem

structure AppliesOnce (config : Config) (allow : Gateway → Event Request → Prop) (merchantId : Id)
    (key : Text) (s : Gateway) : Prop where
  /-- A call that writes is the first to, and spends the key on the one thing it makes. -/
  applied : ∀ {call i log ws}, Serves config allow (ApiCall.request merchantId key call) s i →
    s.committing (Event.run (Q := Request) i) = some (log, ws) → ws ≠ [] →
    s.db.idempotency.row (merchantId, call.route, key) = none ∧
    ∃ resource, (applyAll ws s.db).Spent merchantId call.route key call.hash resource ∧
      Makes s.db merchantId resource ws call.route
  /-- The record stays, and no step of any call changes the database any more. -/
  once : ∀ {route record s'}, s.db.idempotency.row (merchantId, route, key) = some record →
    System.Reach (program config) allow s s' →
    s'.db.idempotency.row (merchantId, route, key) = some record ∧
    ∀ {call i e s''}, call.route = route →
      Serves config allow (ApiCall.request merchantId key call) s' i →
      s'.step (program config) e = some s'' → e.session = some i → s''.db = s'.db
  /-- A call that succeeds has the body the key is spent with, and returns what the key
      is spent on. -/
  answered : ∀ {call i c response}, Serves config allow (ApiCall.request merchantId key call) s i →
    s.sessions[i]? = some c → c.code = some (.done response) →
    ∃ resource, response.resource = some resource ∧
      s.db.Spent merchantId call.route key call.hash resource
  /-- A call that is still running once the key is spent succeeds only as a replay. -/
  marked : ∀ {call i s' c response},
    Serves config allow (ApiCall.request merchantId key call) s i →
    s.db.idempotency.row (merchantId, call.route, key) ≠ none → ¬s.Shows Session.Ended i →
    System.Reach (program config) allow s s' → s'.sessions[i]? = some c →
    c.code = some (.done response) → response.isReplay = true
  /-- A call with another body that starts on a spent key ends in a conflict, unless its
      own content is refused before. -/
  conflict : ∀ {call start i record c},
    ServesSince config allow (ApiCall.request merchantId key call) start s i →
    start.db.idempotency.row (merchantId, call.route, key) = some record →
    call.hash ≠ record.requestHash → s.sessions[i]? = some c →
    (∀ response, c.code ≠ some (.done response)) ∧
    ∀ failure, c.code = some (.fail failure) →
      failure = call.conflict ∨ failure.isValidation = true
  /-- For creating and cancelling, so does one that is still running when the key is
      spent; a running request for a quote may meet a refusal of its own before. -/
  contended : ∀ {call i record s' c}, call.route ≠ .quote →
    Serves config allow (ApiCall.request merchantId key call) s i →
    s.db.idempotency.row (merchantId, call.route, key) = some record →
    call.hash ≠ record.requestHash → ¬s.Shows Session.Ended i →
    System.Reach (program config) allow s s' → s'.sessions[i]? = some c →
    ∀ failure, c.code = some (.fail failure) →
      failure = call.conflict ∨ failure.isValidation = true
  /-- No step of a call that ends in an error changes the database. -/
  refused : ∀ {call i e s' s'' c failure},
    Serves config allow (ApiCall.request merchantId key call) s i →
    s.step (program config) e = some s' → e.session = some i →
    System.Reach (program config) allow s' s'' → s''.sessions[i]? = some c →
    c.code = some (.fail failure) → s'.db = s.db
  /-- A call does come to its answer when the other processes hold no locks. -/
  returns : ∀ {call i c p}, Serves config allow (ApiCall.request merchantId key call) s i →
    s.sessions[i]? = some c → c.code = some p → s.Alone i →
    (∀ s e, e.session = some i → allow s e) →
    ∃ s', System.Reach (program config) allow s s' ∧
      s'.Shows (fun c => ∃ p, c.code = some p ∧ (p.Succeeded ∨ p.Failed)) i

section
variable {config : Config} {allow : Gateway → Event Request → Prop} {s s' : Gateway}
  {merchantId : Id} {key : Text} {call : ApiCall} {i : Nat}
  {c : Session Db Write Row Watch Failure Response}

/-- A session that serves a call, in the terms of `Keyed`. -/
abbrev KeyedSession (merchantId : Id) (key : Text) (call : ApiCall)
    (c : Session Db Write Row Watch Failure Response) : Prop :=
  c.Settling (fun response ws => response.isReplay = false ∧
    Spends merchantId call.route key call.hash ws) (fun response _ => response.isReplay = true)

theorem Serves.keyed (serves : Serves config allow (call.request merchantId key) s i) :
    s.Shows (KeyedSession merchantId key call) i := by
  refine serves.shows_ (.inl ?_) fun _ _ => Session.Settling.follows
  rintro _ ⟨⟩
  exact call.keyed config merchantId key

theorem Serves.spends (serves : Serves config allow (call.request merchantId key) s i)
    {log : Log Db Watch} {ws : List Write}
    (commits : s.committing (Event.run (Q := Request) i) = some (log, ws)) (writes : ws ≠ []) :
    s.db.idempotency.row (merchantId, call.route, key) = none ∧
      ∃ resource, (applyAll ws s.db).Spent merchantId call.route key call.hash resource ∧
        Makes s.db merchantId resource ws call.route := by
  obtain ⟨_, ⟨_, resource, mem⟩, _⟩ := serves.keyed.settling_committing commits writes
  obtain ⟨unspent, makes, spent⟩ := (serves.reached.effect commits).insertIdempotency_mem mem
  exact ⟨unspent, resource, spent, makes⟩

variable {record : IdempotencyRow}

theorem Reached.spent_later (reached : Reached config allow s) {route : Route}
    (stored : s.db.idempotency.row (merchantId, route, key) = some record)
    (later : System.Reach (program config) allow s s') :
    s'.db.idempotency.row (merchantId, route, key) = some record :=
  reached.keeps_later (P := fun db => db.idempotency.row (merchantId, route, key) = some record)
    stored (fun _ _ _ ws _ _ _ _ here => (idempotency_inserts.persists _).applyAll here ws) later

theorem Serves.marked (serves : Serves config allow (call.request merchantId key) s i)
    (spent : s.db.idempotency.row (merchantId, call.route, key) ≠ none)
    (running : ¬s.Shows Session.Ended i) (later : System.Reach (program config) allow s s')
    {response : Response} (found : s'.sessions[i]? = some c)
    (answered : c.code = some (.done response)) : response.isReplay = true := by
  obtain ⟨record, stored⟩ := Option.ne_none_iff_exists'.mp spent
  obtain ⟨c₀, found₀, settling⟩ := serves.keyed
  have settles := settling.resolve_right fun ended =>
    running ⟨c₀, found₀, fun p code => .inl (ended p code)⟩
  have shows_ := System.Shows.settles_reach ⟨c₀, found₀, settles⟩ (fun r commits fits => ?_) later
  · exact shows_.of found _ answered
  obtain ⟨_, resource, mem⟩ := fits
  have reached := (serves.later r).reached
  obtain ⟨unspent, _⟩ := (reached.effect commits).insertIdempotency_mem mem
  cases unspent.symm.trans (serves.reached.spent_later stored r)

theorem ServesSince.conflict {start : Gateway}
    (serves : ServesSince config allow (call.request merchantId key) start s i)
    (stored : start.db.idempotency.row (merchantId, call.route, key) = some record)
    (other : call.hash ≠ record.requestHash) : s.Shows (Safe (contract config) (fun _ => False)
      (fun e => e = call.conflict ∨ e.isValidation = true) s.db) i := by
  obtain ⟨reached, rfl, allowed, later⟩ := serves
  have started : Reached config allow { start with sessions :=
      start.sessions ++ [{ code := some (program config (call.request merchantId key)) }] } :=
    .step reached rfl allowed
  have safe : Safe (contract config) (fun _ => False)
      (fun e => e = call.conflict ∨ e.isValidation = true) start.db
      { code := some (program config (call.request merchantId key)) } := by
    rintro _ ⟨⟩
    exact call.conflicts stored other
  exact Assured.reach (Lasting.const _ _ _) (fun _ r => (started.later r).sound)
    (by simp) safe later

theorem Serves.contended (direct : call.route ≠ .quote)
    (serves : Serves config allow (call.request merchantId key) s i)
    (stored : s.db.idempotency.row (merchantId, call.route, key) = some record)
    (other : call.hash ≠ record.requestHash) (running : ¬s.Shows Session.Ended i) :
    s.Shows (Safe (contract config) (fun _ => False)
      (fun e => e = call.conflict ∨ e.isValidation = true) s.db) i := by
  obtain ⟨before, after, reached, allowed, taken, rfl, later⟩ := serves
  cases taken
  have started : Reached config allow { before with sessions :=
      before.sessions ++ [{ code := some (program config (call.request merchantId key)) }] } :=
    .step reached rfl allowed
  have stage : Session.Stage (contract config) (fun _ => False)
      (fun e => e = call.conflict ∨ e.isValidation = true)
      (.idempotency merchantId call.route key, .update)
      (fun db => db.idempotency.row (merchantId, call.route, key) = none)
      (fun db => db.idempotency.row (merchantId, call.route, key) = some record)
      { code := some (program config (call.request merchantId key)) } :=
    .outside rfl rfl rfl ⟨ApiCall.enters direct, fun _ _ _ stored => call.conflicts stored other⟩
  have here : (before.sessions ++ [{ code := some (program config
      (call.request merchantId key)) }])[before.sessions.length]? =
      some { code := some (program config (call.request merchantId key)) } := by simp
  have entered := System.Reach.entered (fun _ r => (started.later r).sound)
    (fun _ _ unspent => ?_) (fun r commits spent => ?_) (by simp [clash, Mode.conflicts])
    here stage rfl later
  · obtain ⟨c, found, _, knows⟩ := entered
    rcases knows stored with ended | safe
    · exact absurd ⟨c, found, ended⟩ running
    · exact ⟨c, found, safe⟩
  · -- an unspent key was unspent before
    by_contra spent
    obtain ⟨old, stored'⟩ := Option.ne_none_iff_exists'.mp spent
    cases unspent.symm.trans ((idempotency_inserts.persists _).applyAll stored' _)
  · rcases idempotency_inserts.origin spent with old | mem
    · exact .inl old
    · refine .inr ⟨?_, _, mem, by simp [Store.needs, Write.needs]⟩
      exact (((started.later r).effect commits).insertIdempotency_mem mem).1

theorem spent_lasting : Lasting (contract config) (fun (response : Response) _ db => ∃ resource,
    response.resource = some resource ∧ db.Spent merchantId call.route key call.hash resource)
    (fun (_ : Failure) _ _ => True) where
  post response log db db' move := by
    rintro ⟨resource, returned, spent⟩
    exact ⟨resource, returned, spentKey_stable move spent⟩
  fault failure log := stable_true

/-- The API is idempotent under every merchant and key. -/
theorem api_idempotent (reached : Reached config allow s) (merchantId : Id) (key : Text) :
    AppliesOnce config allow merchantId key s where
  applied serves commits writes := serves.spends commits writes
  once := by
    intro route record s' stored later
    have stored' := reached.spent_later stored later
    refine ⟨stored', ?_⟩
    rintro call i e s'' rfl serves taken own
    rcases System.step_db taken with ⟨_, same⟩ | ⟨log, ws, commits, moved⟩
    · exact same
    obtain ⟨j, _, rfl, _, _⟩ := System.committing_eq_some commits
    cases own
    by_cases writes : ws = []
    · rw [moved, writes, applyAll_nil]
    · cases (serves.spends commits writes).1.symm.trans stored'
  answered := by
    intro call i c response serves found answered
    exact ((serves.assured spent_lasting fun db sane => call.answers sane).of found).done answered
  marked serves spent running later found answered :=
    serves.marked spent running later found answered
  conflict serves stored other found := by
    have safe := (serves.conflict stored other).of found
    exact ⟨fun response answered => safe.done answered, fun failure failed => safe.fail failed⟩
  contended := by
    intro call i record s' c direct serves stored other running later found failure failed
    obtain ⟨c₀, found₀, safe⟩ := serves.contended direct stored other running
    obtain ⟨c', found', safe'⟩ := Assured.reach (Lasting.const _ _ _)
      (fun _ r => (serves.later r).reached.sound) found₀ safe later
    cases found.symm.trans found'
    exact safe'.fail failed
  refused serves taken own later found failed :=
    serves.keyed.settling_refused taken own later found failed
  returns _ found code alone may := alone.finishes may found code

end

namespace Sample

def racing : List (Slice Request) :=
  [.start (.createIntent 7 (key 'a') (order 'r')), .work 0 0 3,
    .start (.createIntent 7 (key 'a') (order 'r')), .work 1 0 2,
    .start (.createIntent 7 (key 'a') (order 'q')), .work 2 0 2]

def raced : Gateway := Gateway.after config anyStep (racing ++ [.work 0 0 99])

def answeredAll : Gateway := raced.perform (program config) anyStep [.work 1 0 99, .work 2 0 99]

theorem api_idempotent_raced :
    ∃ record response, Reached config anyStep raced ∧
      raced.db.idempotency.row (7, .create, key 'a') = some record ∧
      answeredAll.response 1 = some response ∧ response.isReplay = true ∧
      response.resource = some record.resourceId ∧
      answeredAll.failure 2 = some (.service (.repository .idempotencyConflict)) := by
  have reached : Reached config anyStep raced := Gateway.after_reached _ _ _
  have later : System.Reach (program config) anyStep raced answeredAll := .perform _ .refl
  have once := api_idempotent reached 7 (key 'a')
  have second : Serves config anyStep
      (ApiCall.request 7 (key 'a') (.create (order 'r'))) raced 1 :=
    Gateway.after_serves config anyStep (racing.take 2) _ _ trivial
  have third : Serves config anyStep
      (ApiCall.request 7 (key 'a') (.create (order 'q'))) raced 2 :=
    Gateway.after_serves config anyStep (racing.take 4) _ _ trivial
  obtain ⟨record, stored, hash⟩ := Option.map_eq_some_iff.mp (by decide +kernel :
    (raced.db.idempotency.row (7, .create, key 'a')).map (·.requestHash) =
      some (ApiCall.create (order 'r')).hash)
  obtain ⟨response, answered⟩ := Option.isSome_iff_exists.mp (by decide +kernel :
    (answeredAll.response 1).isSome = true)
  obtain ⟨c₁, found₁, code₁⟩ := Gateway.response_eq_some answered
  obtain ⟨failure, refused⟩ := Option.isSome_iff_exists.mp (by decide +kernel :
    (answeredAll.failure 2).isSome = true)
  obtain ⟨c₂, found₂, code₂⟩ := Gateway.failure_eq_some refused
  -- the second gets what the first made
  have replay := once.marked second (fun unspent => by cases unspent.symm.trans stored)
    (Gateway.not_ended (by decide +kernel) (by decide +kernel) (by decide +kernel))
    later found₁ code₁
  obtain ⟨resource, returned, spent⟩ :=
    (api_idempotent (reached.later later) 7 (key 'a')).answered (second.later later) found₁ code₁
  have same := (once.once stored later).1
  cases same.symm.trans spent
  -- the third meets the record
  have direct : (ApiCall.create (order 'q')).route ≠ .quote := nofun
  have conflict := once.contended direct third stored
    (by rw [hash]; decide)
    (Gateway.not_ended (by decide +kernel) (by decide +kernel) (by decide +kernel)) later found₂
    failure code₂
  refine ⟨_, response, reached, stored, answered, replay, returned, ?_⟩
  rw [refused]
  rcases conflict with rfl | invalid
  · rfl
  · have valid : (answeredAll.failure 2).map Failure.isValidation = some false := by decide +kernel
    rw [refused] at valid
    cases invalid.symm.trans (Option.some.inj valid)

/-- A request for a quote of an unknown intent has looked for a replay when another one
    spends the key. -/
def overtaken : Gateway := Gateway.after config anyStep (opening.take 8 ++
  [.start (.issueQuote 7 (key 'b') ⟨2, 1⟩), .work 4 0 1] ++
    whole 5 0 (.issueQuote 7 (key 'b') ⟨1, 1⟩))

def refusedOtherwise : Gateway := overtaken.perform (program config) anyStep [.work 4 0 99]

theorem overtaken_not_in_conflict : ∃ record failure, Reached config anyStep overtaken ∧
    Serves config anyStep (ApiCall.request 7 (key 'b') (.issue ⟨2, 1⟩)) overtaken 4 ∧
    overtaken.db.idempotency.row (7, .quote, key 'b') = some record ∧
    (ApiCall.issue ⟨2, 1⟩).hash ≠ record.requestHash ∧ ¬overtaken.Shows Session.Ended 4 ∧
    System.Reach (program config) anyStep overtaken refusedOtherwise ∧
    refusedOtherwise.failure 4 = some failure ∧
    failure ≠ (ApiCall.issue ⟨2, 1⟩).conflict ∧ failure.isValidation = false := by
  obtain ⟨record, stored, hash⟩ := Option.map_eq_some_iff.mp (by decide +kernel :
    (overtaken.db.idempotency.row (7, .quote, key 'b')).map (·.requestHash) =
      some (ApiCall.issue ⟨1, 1⟩).hash)
  have refused : refusedOtherwise.failure 4 = some (.quote .paymentIntentNotFound) := by
    decide +kernel
  refine ⟨record, _, Gateway.after_reached _ _ _, ?_, stored, by rw [hash]; decide,
    Gateway.not_ended (by decide +kernel) (by decide +kernel) (by decide +kernel),
    .perform _ .refl, refused, nofun, rfl⟩
  exact Gateway.after_serves config anyStep (opening.take 8) _ _ trivial

end Sample
end CryptoGateway
