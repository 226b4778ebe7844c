import CryptoGateway.Refinement.Quotes
import CryptoGateway.Refinement.HonorProposals
import CryptoGateway.Refinement.Verification

/-!
Every request keeps the contract, so every reachable database is sane and moves
only by the effects that the contract permits.
-/
namespace CryptoGateway
open Engine

variable {config : Config} {log : Log Db Watch} {db : Db}

section Intents

theorem create_opens {id merchantId : Id} {amount : FiatAmount} {reference : Text}
    {description : Option Text} {metadata : Text} {intent : PaymentIntent}
    (created : PaymentIntent.create id merchantId amount reference description metadata =
      .ok intent) : intent.status = .requiresQuote ∧ intent.merchantId = merchantId := by
  unfold PaymentIntent.create at created
  repeat' split at created
  all_goals cases created
  exact ⟨rfl, rfl⟩

theorem createIntent_spec (merchantId : Id) (key : Text) (input : CreatePaymentIntent)
    (sane : Sane config db) : wp (contract config) (createIntent merchantId key input)
      (fun r c => Between (contract config) c ∧ c.db.Spent merchantId .create key
        (.create input.amountMinor input.currency input.reference input.description input.metadata)
        r.id) (fun _ => Between (contract config)) ⟨[], [], log, db⟩ := by
  unfold createIntent
  split
  · exact ⟨rfl, rfl, sane⟩
  rw [wp_bind]
  refine wp_liftExcept (fun _ _ => ⟨rfl, rfl, sane⟩) fun currency _ => ?_
  rw [wp_bind]
  refine wp_liftExcept (fun _ _ => ⟨rfl, rfl, sane⟩) fun amount _ => ?_
  rw [wp_bind]
  refine wp_uuid stable_true trivial fun id db sane _ => ?_
  rw [wp_bind]
  refine wp_liftExcept (fun _ _ => ⟨rfl, rfl, sane⟩) fun intent created => ?_
  obtain ⟨opens, rfl⟩ := create_opens created
  rw [wp_mapError]
  exact createIdempotently_spec opens key _

theorem createIntent_refines (merchantId : Id) (key : Text) (input : CreatePaymentIntent) :
    Refines config (createIntent merchantId key input) :=
  fun _ _ sane => wp_mono (createIntent_spec merchantId key input sane) (fun _ _ done => done.1)
    fun _ _ failed => failed

theorem cancelIntent_spec (merchantId : Id) (key : Text) (intentId : Id) (reason : Option Text)
    (sane : Sane config db) : wp (contract config) (cancelIntent merchantId key intentId reason)
      (fun r c => Between (contract config) c ∧ c.db.Spent merchantId .cancel key
        (.cancel intentId ((reason.map Text.trim).filter (!·.isEmpty))) r.id)
      (fun _ => Between (contract config)) ⟨[], [], log, db⟩ := by
  unfold cancelIntent
  split
  · exact ⟨rfl, rfl, sane⟩
  simp only
  split
  · exact ⟨rfl, rfl, sane⟩
  rw [wp_bind, wp_mapError]
  refine wp_mono (cancelIdempotently_spec merchantId intentId key _) (fun r c done => ?_)
    fun _ _ failed => failed
  exact wp_orFail (fun _ => done.1) fun answer found => ⟨done.1, done.2 answer found⟩

theorem cancelIntent_refines (merchantId : Id) (key : Text) (intentId : Id)
    (reason : Option Text) : Refines config (cancelIntent merchantId key intentId reason) :=
  fun _ _ sane => wp_mono (cancelIntent_spec merchantId key intentId reason sane)
    (fun _ _ done => done.1) fun _ _ failed => failed

end Intents

section Quotes

theorem build_createdAt {quoteId attemptId merchantId intentId assetId collectorId : Id}
    {address : Text} {amount : FiatAmount} {price : Option PriceSnapshot}
    {policy : Option QuotePolicySnapshot} {rail : Option RailHealthSnapshot} {at_ : Int}
    {plan : QuotePlan}
    (built : QuotePlan.build quoteId attemptId merchantId intentId assetId collectorId
      address amount
      price policy rail at_ = .ok plan) :
    plan.createdAt = at_ ∧ plan.assetId = assetId ∧ plan.merchantId = merchantId := by
  unfold QuotePlan.build at built
  simp only [bind, Except.bind] at built
  repeat' split at built
  all_goals cases built
  exact ⟨rfl, rfl, rfl⟩

/-- What a request for a quote that is refused with `error` found: every look for an amount but
    the newest found all of them leased, and so did the newest if no address was left to try. -/
structure TurnedAway (error : QuoteServiceError) (log : Log Db Watch) : Prop where
  spilled : Spilled log
  exhausted : error = .repository .amountSlotsExhausted → AllExhausted log
  unavailable : error = .repository .collectorUnavailable → ∀ r ∈ slotReads log, r.Exhausted

theorem issueOnCandidates_spec {merchantId : Id} {key : Text} {input : IssueQuote}
    {intent : IntentRow} {context : QuoteContext} {candidates : List CollectorCandidate}
    {lastRefusal : Option RepositoryError} (sane : Sane config db)
    (railOpen : ∃ m, (Watch.railStop input.assetId, m) ∈ log ∧
      m.db.openRailStop input.assetId = none)
    {P : Prop} (exhausted : P → ∀ r ∈ slotReads log, r.Exhausted)
    (looked : lastRefusal = some .amountSlotsExhausted → slotReads log ≠ []) :
    wp (contract config) (issueOnCandidates merchantId key input intent context
      candidates lastRefusal)
      (fun q c => Between (contract config) c ∧ c.db.Spent merchantId .quote key
        (.quote input.paymentIntentId input.assetId) q.quote.id ∧ (P → Spilled c.log))
      (fun e c => Between (contract config) c ∧ (P → TurnedAway e c.log)) ⟨[], [], log, db⟩ := by
  induction candidates generalizing log db lastRefusal with
  | nil =>
    refine ⟨⟨rfl, rfl, sane⟩, fun p => ⟨fun r mem => exhausted p r (List.mem_of_mem_tail mem),
      fun same => ⟨looked ?_, exhausted p⟩, fun _ => exhausted p⟩⟩
    cases lastRefusal with
    | none => cases same
    | some refusal => cases same; rfl
  | cons candidate rest ih =>
    have before : P → Spilled log := fun p r mem => exhausted p r (List.mem_of_mem_tail mem)
    unfold issueOnCandidates
    rw [wp_bind]
    refine wp_watchedClock stable_true trivial fun m sane _ => ?_
    rw [wp_bind]
    refine wp_uuid stable_true trivial fun quoteId db sane _ => ?_
    rw [wp_bind]
    refine wp_uuid stable_true trivial fun attemptId db sane _ => ?_
    rw [wp_bind]
    cases built : QuotePlan.build quoteId attemptId merchantId input.paymentIntentId input.assetId
      candidate.id candidate.address
      { currency := intent.currency, minorUnits := intent.amountMinor } context.price
      context.policy context.railHealth m.now with
    | error e => exact ⟨⟨rfl, rfl, sane⟩, fun p => ⟨before p, by simp, by simp⟩⟩
    | ok plan =>
      obtain ⟨createdAt, assetId, rfl⟩ := build_createdAt built
      obtain ⟨seen, mem, clear⟩ := railOpen
      have planned : Planned plan ((.planned, m) :: log) := by
        refine ⟨⟨seen, ?_, by rw [assetId]; exact clear⟩, m, by simp, createdAt⟩
        rw [assetId]
        exact List.mem_cons_of_mem _ mem
      simp only [liftExcept, wp_pure]
      rw [wp_bind, wp_caught]
      -- a refused address leaves the session where the next one can be tried
      refine wp_mono (issueQuoteIdempotently_spec planned key _) (fun q c done => ?_)
        fun error c failed => ?_
      · obtain ⟨between, spent, searched⟩ := done
        refine ⟨between, spent, ?_⟩
        rcases searched with same | ⟨m, same⟩
        · rw [same]; exact before
        · rw [same]; exact exhausted
      obtain ⟨held, writes, log', db'⟩ := c
      obtain ⟨⟨rfl, rfl, sane'⟩, searched⟩ := failed
      have more : log ⊆ log' := by
        rcases searched with ⟨rfl, _⟩ | ⟨m', rfl, _⟩ <;> intro x mem <;> simp [mem]
      have spilled : P → Spilled log' := by
        rcases searched with ⟨rfl, _⟩ | ⟨m', rfl, _⟩
        · exact before
        · exact exhausted
      -- only a full address lets the request look at the next one
      have all : ¬error.Other → P → ∀ r ∈ slotReads log', r.Exhausted := by
        intro address p
        rcases searched with ⟨rfl, _⟩ | ⟨m', rfl, other | ⟨rfl, none_⟩⟩
        · exact exhausted p
        · exact absurd other address
        · simp only [slotReads_slot, List.mem_cons, forall_eq_or_imp]
          exact ⟨freeSlot_eq_none.mp none_, exhausted p⟩
      split
      · rename_i same; cases same
      · rename_i same
        cases same
        refine ih sane' ⟨seen, more mem, clear⟩ (all fun other => other.1 rfl) fun _ => ?_
        rcases searched with ⟨_, other⟩ | ⟨m', rfl, _⟩
        · exact absurd rfl other
        · simp
      · rename_i same
        cases same
        exact ih sane' ⟨seen, more mem, clear⟩ (all fun other => other.2 rfl) (by simp)
      · rename_i error' other reachable same
        cases same
        refine ⟨⟨rfl, rfl, sane'⟩, fun p => ⟨spilled p, fun exhausted => ?_, fun unavailable => ?_⟩⟩
        · cases exhausted
          exact absurd rfl other
        · cases unavailable
          exact absurd rfl reachable

theorem issueQuote_spec (maxOpenLeases : Option Nat) (merchantId : Id) (key : Text)
    (input : IssueQuote) (sane : Sane config db) {P : Prop} (fresh : P → slotReads log = []) :
    wp (contract config) (issueQuote maxOpenLeases merchantId key input)
      (fun q c => Between (contract config) c ∧ c.db.Spent merchantId .quote key
        (.quote input.paymentIntentId input.assetId) q.quote.id ∧ (P → Spilled c.log))
      (fun e c => Between (contract config) c ∧ (P → TurnedAway e c.log)) ⟨[], [], log, db⟩ := by
  have spilled : ∀ {log' : Log Db Watch}, slotReads log' = slotReads log → P → Spilled log' := by
    intro log' same p
    rw [Spilled, same, fresh p]
    simp
  have refused : ∀ {e : QuoteServiceError} {log' : Log Db Watch}, slotReads log' = slotReads log →
      e ≠ .repository .amountSlotsExhausted → P → TurnedAway e log' := by
    intro e log' same other p
    refine ⟨spilled same p, fun exhausted => absurd exhausted other, fun _ r mem => ?_⟩
    rw [same, fresh p] at mem
    cases mem
  unfold issueQuote
  split
  · exact ⟨⟨rfl, rfl, sane⟩, refused rfl (by simp)⟩
  rw [wp_bind, wp_mapError]
  refine wp_mono (findQuoteReplay_spec merchantId key _) (fun replay c found => ?_)
    fun e c failed => ?_
  · obtain ⟨held, writes, log', db'⟩ := c
    obtain ⟨⟨rfl, rfl, sane⟩, same, stored⟩ := found
    cases same
    cases replay with
    | some quote => exact ⟨⟨rfl, rfl, sane⟩, stored quote rfl, spilled rfl⟩
    | none =>
      unfold findById
      rw [wp_bind, wp_mapError]
      refine wp_select stable_true trivial fun db sane _ => ?_
      rw [wp_bind]
      refine wp_orFail (fun _ => ⟨⟨rfl, rfl, sane⟩, refused rfl (by simp)⟩) fun intent _ => ?_
      rw [wp_bind, wp_mapError]
      unfold loadQuoteContext
      rw [wp_bind]
      refine wp_now stable_true trivial fun at_ db sane _ => ?_
      rw [wp_bind]
      refine wp_watch stable_true trivial fun m sane _ => ?_
      split
      · exact ⟨⟨rfl, rfl, sane⟩, refused rfl (by simp)⟩
      rw [wp_pure]
      split
      · exact ⟨⟨rfl, rfl, sane⟩, refused rfl (by simp)⟩
      · rename_i clear
        simp only
        split
        · exact ⟨⟨rfl, rfl, sane⟩, refused rfl (by simp)⟩
        · refine issueOnCandidates_spec sane ⟨m, List.mem_cons_self, ?_⟩
            (fun p r mem => ?_) (by simp)
          · simpa [quoteContext] using clear
          · have none_ : slotReads ((Watch.railStop input.assetId, m) :: log') = [] := fresh p
            rw [none_] at mem
            cases mem
  · obtain ⟨between, same, other⟩ := failed
    refine ⟨between, ?_⟩
    exact refused (by rw [same]) fun exhausted => other (QuoteServiceError.repository.inj exhausted)

theorem issueQuote_refines (maxOpenLeases : Option Nat) (merchantId : Id) (key : Text)
    (input : IssueQuote) : Refines config (issueQuote maxOpenLeases merchantId key input) :=
  fun _ _ sane => wp_mono (issueQuote_spec maxOpenLeases merchantId key input sane
    (P := False) nofun)
    (fun _ _ done => done.1) fun _ _ failed => failed.1

theorem expireDue_refines (limit : Nat) : Refines config (expireDue limit) := by
  unfold expireDue
  split
  · exact .fail _
  intro log db sane
  rw [wp_bind]
  refine wp_watchedClock stable_true trivial fun m sane _ => ?_
  rw [wp_mapError]
  exact expireQuotesAndArchiveLeases_spec ⟨m, List.mem_cons_self, rfl⟩

end Quotes

section Settlement

structure PendingTransfer.Listed (transfer : PendingTransfer) (db : Db) : Prop where
  stored : ∃ row, db.transfers.row transfer.facts.transferId = some row ∧
    row.amountRaw = transfer.facts.amountRaw ∧ row.blockTime = transfer.facts.blockTime
  final : transfer.facts.state = .finalized → db.Final transfer.facts.transferId

theorem PendingTransfer.Listed.kept {transfer : PendingTransfer} {ws : List Write}
    (listed : transfer.Listed db) (eff : Effect config log db ws) :
    transfer.Listed (applyAll ws db) := by
  obtain ⟨row, stored, time⟩ := listed.stored
  exact ⟨⟨row, (transfers_inserts.persists _).applyAll stored ws, time⟩,
    fun state => eff.final_stays (listed.final state)⟩

theorem listed_stable {held : List (Lock Row)} (transfer : PendingTransfer) :
    Steady config held transfer.Listed := .of_effect fun _ eff listed => listed.kept eff

theorem pendingTransfer_listed {t : Id} {transfer : PendingTransfer}
    (found : pendingTransfer db t = some transfer) : transfer.Listed db := by
  simp only [pendingTransfer, bind, Option.bind_eq_some_iff, Option.ite_none_right_eq_some] at found
  obtain ⟨row, stored, state, hstate, _, _, _, same⟩ := found
  cases same
  refine ⟨⟨row, stored, rfl, rfl⟩, fun final => ⟨state.stateVersion, ?_⟩⟩
  have final : state.state = .finalized := final
  rw [hstate, ← final]

structure Slot (attemptId : Id) (blockTime : Int) (terms : AttemptTerms) (db : Db) : Prop where
  attempt : db.attemptTerms attemptId = some terms
  started : terms.createdAt ≤ blockTime
  open_ : blockTime < terms.latePaymentUntil

theorem slot_stable {held : List (Lock Row)} {a : Id} {blockTime : Int} {terms : AttemptTerms} :
    Steady config held (Slot a blockTime terms) :=
  fun _ _ move slot =>
    ⟨(attemptTerms_persists _).stable held _ move slot.attempt, slot.started, slot.open_⟩

theorem candidate_window {a : Id} {window : Window} {c : AttemptCandidate} (sane : Sane config db)
    (linked : window.Linked db) (same : window.attemptId = a)
    (found : candidate db a window.leasedFrom window.leasedUntil = some c) :
    ∃ terms, db.attemptTerms c.attemptId = some terms ∧ terms.createdAt = c.leasedFrom ∧
      terms.latePaymentUntil = c.leasedUntil ∧ c.memoReference = none := by
  obtain ⟨attempt, stored, rfl⟩ := Option.map_eq_some_iff.mp found
  obtain ⟨terms, isTerms, _, _, from_, until_⟩ := linked
  subst same
  have known : db.attemptTerms window.attemptId = some attempt.toAttemptTerms := by
    simp [Db.attemptTerms, stored]
  cases known.symm.trans isTerms
  exact ⟨_, known, from_, until_, (sane.links.attempt known).memo⟩

theorem matchCandidates_window {facts : TransferFacts} {c : AttemptCandidate}
    (sane : Sane config db) (mem : c ∈ db.leases.entries.filterMap (liveCandidate facts db) ++
      db.leaseHistory.entries.filterMap (archivedCandidate facts db)) :
    ∃ terms, db.attemptTerms c.attemptId = some terms ∧ terms.createdAt = c.leasedFrom ∧
      terms.latePaymentUntil = c.leasedUntil ∧ c.memoReference = none := by
  rcases List.mem_append.mp mem with mem | mem
  · obtain ⟨⟨id, lease⟩, listed, found⟩ := List.mem_filterMap.mp mem
    simp only [liveCandidate, bind, Option.bind_eq_some_iff, Option.ite_none_right_eq_some] at found
    obtain ⟨c', found, _, same⟩ := found
    cases same
    exact candidate_window sane (sane.links.lease (Table.mem_entries.mp listed)) rfl found
  · obtain ⟨⟨id, lease⟩, listed, found⟩ := List.mem_filterMap.mp mem
    simp only [archivedCandidate, bind, Option.bind_eq_some_iff,
      Option.ite_none_right_eq_some] at found
    obtain ⟨c', found, _, same⟩ := found
    cases same
    exact candidate_window sane (sane.links.history (Table.mem_entries.mp listed)) rfl found

theorem matchTransfer_slot {facts : TransferFacts} {candidates : List AttemptCandidate}
    {attemptId intentId : Id} {strategy : MatchStrategy} {late : Bool} (sane : Sane config db)
    (read : candidates = db.leases.entries.filterMap (liveCandidate facts db) ++
      db.leaseHistory.entries.filterMap (archivedCandidate facts db))
    (found : matchTransfer facts candidates = .matched attemptId intentId strategy late) :
    ∃ terms, Slot attemptId facts.blockTime terms db := by
  have windows := fun c (mem : c ∈ candidates) => matchCandidates_window sane (read ▸ mem)
  obtain ⟨c, mem, rfl, _, _, owns⟩ := matchTransfer_matched
    (fun c mem => (windows c mem).choose_spec.2.2.2) found
  obtain ⟨terms, known, from_, until_, _⟩ := windows c mem
  simp only [AttemptCandidate.ownsSlot, Bool.and_eq_true, decide_eq_true_eq] at owns
  exact ⟨terms, known, by rw [from_]; exact owns.1.2, by rw [until_]; exact owns.2⟩

section Reads
variable {held : List (Lock Row)} {K : Db → Prop}
  {fault : RepositoryError → Assertion}

theorem wp_findSettlementPolicy {currency : CurrencyCode}
    {post : Option SettlementPolicy → Assertion} (stable : Steady config held K) (now : K db)
    (faults : ∀ e db, Sane config db → fault e ⟨held, [], log, db⟩)
    (cont : ∀ policy db, Sane config db → K db → post policy ⟨held, [], log, db⟩) :
    wp (contract config) (findSettlementPolicy currency) post fault ⟨held, [], log, db⟩ := by
  unfold findSettlementPolicy
  rw [wp_bind]
  refine wp_select stable now fun db sane known => ?_
  split
  · exact cont none db sane known
  · rw [wp_bind]
    refine wp_select stable known fun db sane known => ?_
    split
    · exact faults _ db sane
    · exact cont _ db sane known

theorem wp_latestRisk {order : RowOrder Id} {transferId : Id} {post : RiskDecision → Assertion}
    (stable : Steady config held K) (now : K db)
    (cont : ∀ asked m : Moment Db, Sane config m.db → K m.db →
      post (m.db.latestRisk order asked.now transferId)
        ⟨held, [], (.risk transferId, m) :: (.screening transferId, asked) :: log, m.db⟩) :
    wp (contract config) (latestRisk order transferId) post fault ⟨held, [], log, db⟩ := by
  unfold latestRisk
  rw [wp_bind]
  refine wp_watchedClock stable now fun asked _ known => ?_
  exact wp_watch stable known fun m sane known => cont asked m sane known

end Reads

variable {order : RowOrder Id} {lease : ComponentLease}

theorem settleMatch_spec
    {transfer : PendingTransfer} {attemptId : Id} {strategy : MatchStrategy} {late : Bool}
    {terms : AttemptTerms} (automatic : strategy ≠ .manual) (listed : transfer.Listed db)
    (slot : Slot attemptId transfer.facts.blockTime terms db) :
    wp (contract config) (settleMatch order lease transfer attemptId strategy late)
      (fun _ => Between (contract config)) (fun _ => Between (contract config))
      ⟨[], [], log, db⟩ := by
  have stable : Steady config [] fun db =>
      transfer.Listed db ∧ Slot attemptId transfer.facts.blockTime terms db :=
    (listed_stable transfer).and slot_stable
  unfold settleMatch
  rw [wp_bind, wp_mapError]
  refine wp_watch stable ⟨listed, slot⟩ fun m sane known => ?_
  rw [wp_bind]
  refine wp_orFail (fun _ => ⟨rfl, rfl, sane⟩) fun attempt read => ?_
  simp only [applyAll_nil, bind, Option.bind_eq_some_iff, Option.some.injEq] at read
  obtain ⟨row, stored, intent, _, rfl⟩ := read
  have ofTerms : row.toAttemptTerms = terms := by
    have isTerms := known.2.attempt
    simpa [Db.attemptTerms, stored] using isTerms
  rw [wp_bind, wp_mapError]
  refine wp_findSettlementPolicy stable known (fun _ db sane => ⟨rfl, rfl, sane⟩)
    fun policy db sane known => ?_
  cases policy with
  | none => exact ⟨rfl, rfl, sane⟩
  | some policy =>
    simp only
    rw [wp_bind, wp_mapError]
    refine wp_latestRisk stable known fun asked seen sane known => ?_
    rw [wp_bind]
    refine wp_liftExcept (fun _ _ => ⟨rfl, rfl, sane⟩) fun outcome decision => ?_
    rw [wp_bind, wp_mapError]
    refine settle_spec (show Matched _ terms transfer.facts.amountRaw _ from
      ⟨known.2.attempt, by rw [ofTerms], automatic, fun moves => ?_⟩) fun moves => ?_
    · obtain ⟨final, _⟩ := decideSettlement_moves decision moves
      obtain ⟨row, stored, amount, time⟩ := known.1.stored
      exact ⟨known.1.final final, row, stored, amount, by rw [time]; exact known.2.started,
        by rw [time]; exact known.2.open_⟩
    · obtain ⟨_, passed, takes⟩ := decideSettlement_moves decision moves
      exact ⟨⟨order, asked, seen, by simp [lookup_cons_of_ne], by simp, passed⟩, m,
        by simp [lookup_cons_of_ne], by rw [← ofTerms]; exact takes⟩

theorem settleTransfer_spec {transfer : PendingTransfer} (listed : transfer.Listed db) :
    wp (contract config) (settleTransfer order lease transfer) (fun _ => Between (contract config))
      (fun _ => Between (contract config)) ⟨[], [], log, db⟩ := by
  unfold settleTransfer
  rw [wp_bind, wp_mapError]
  refine wp_select (listed_stable transfer) listed fun db sane listed => ?_
  split
  · rename_i found
    obtain ⟨terms, slot⟩ := matchTransfer_slot sane rfl found
    exact settleMatch_spec (matchTransfer_automatic found) listed slot
  · exact Refines.bind (.mapError (recordUnresolved_refines _ _ _) _) (fun _ => .pure _) _ _ sane
  · exact Refines.bind (.mapError (recordUnresolved_refines _ _ _) _) (fun _ => .pure _) _ _ sane

theorem settleTransfers_spec {transfers : List PendingTransfer}
    (sane : Sane config db) (listed : ∀ t ∈ transfers, t.Listed db) :
    wp (contract config) (settleTransfers order lease transfers)
      (fun _ => Between (contract config)) (fun _ => Between (contract config))
      ⟨[], [], log, db⟩ := by
  induction transfers generalizing log db with
  | nil => exact ⟨rfl, rfl, sane⟩
  | cons transfer rest ih =>
    unfold settleTransfers
    rw [wp_bind]
    have others : ∀ t ∈ rest, t.Listed db := fun t mem => listed t (List.mem_cons_of_mem _ mem)
    refine wp_mono (wp_frame (P := fun db => ∀ t ∈ rest, t.Listed db)
      (fun _ eff known t mem => (known t mem).kept eff)
      (settleTransfer_spec (listed transfer List.mem_cons_self)) others)
      (fun handled c done => ?_) fun _ _ failed => failed.1
    obtain ⟨held, writes, log', db'⟩ := c
    obtain ⟨⟨rfl, rfl, sane'⟩, others⟩ := done
    rw [wp_bind]
    exact ih sane' others

theorem settlePending_refines (order : RowOrder Id) (lease : ComponentLease) (limit : Nat) :
    Refines config (settlePending order lease limit) := by
  unfold settlePending
  split
  · exact .fail _
  intro log db sane
  rw [wp_bind, wp_mapError]
  refine wp_select stable_true trivial fun db sane _ => ?_
  rw [wp_bind]
  refine settleTransfers_spec sane fun t mem => ?_
  have mem := List.mem_of_mem_take mem
  rw [List.mem_insertionSort] at mem
  obtain ⟨id, _, found⟩ := List.mem_filterMap.mp mem
  exact pendingTransfer_listed found

end Settlement

section Operators

theorem requireManual_refines (credential : OperatorCredential) (key reason : Text) :
    Refines config (requireManual credential key reason) := by
  unfold requireManual
  split
  · exact .fail _
  split
  · exact .fail _
  split
  · exact .fail _
  · exact .pure _

theorem resolveManual_refines (credential : OperatorCredential) (key : Text)
    (resolution : ManualResolution) :
    Refines config (resolveManual config.honorPolicy credential key resolution) := by
  refine .bind (requireManual_refines _ _ _) fun _ => ?_
  split
  · exact .fail _
  split
  · exact .fail _
  · rename_i small
    refine .bind .now fun at_ => resolveManualInStore_refines fun honors raw named => ?_
    simpa [honors, named] using small

theorem proposeHonor_refines (policy : HonorApprovalPolicy) (credential : OperatorCredential)
    (key : Text) (resolution : ManualResolution) :
    Refines config (proposeHonor policy credential key resolution) := by
  refine .bind (requireManual_refines _ _ _) fun _ => ?_
  split
  · exact .fail _
  split
  · exact .fail _
  · exact .bind .now fun at_ => .bind .orFail fun expiresAt =>
      proposeHonorInStore_refines _ _ _ _ _ _ _

theorem approveHonor_refines (credential : OperatorCredential) (proposalId : Id)
    (key reason : Text) : Refines config (approveHonor credential proposalId key reason) :=
  .bind (requireManual_refines _ _ _) fun _ => .bind .now fun _ =>
  approveHonorInStore_refines _ _ _ _ _

theorem rejectHonor_refines (credential : OperatorCredential) (proposalId : Id)
    (key reason : Text) : Refines config (rejectHonor credential proposalId key reason) :=
  .bind (requireManual_refines _ _ _) fun _ => .bind .now fun _ =>
  rejectHonorInStore_refines _ _ _ _ _

theorem openRail_refines (credential : OperatorCredential) (assetId : Id) (reasonCode : Text) :
    Refines config (openRail credential assetId reasonCode) := by
  unfold openRail
  split
  · exact .fail _
  split
  · exact .fail _
  · exact .mapError (openRailStop_refines _ _ _) _

theorem clearRail_refines (credential : OperatorCredential) (assetId : Id) (reason : Text) :
    Refines config (clearRail credential assetId reason) := by
  unfold clearRail
  split
  · exact .fail _
  split
  · exact .fail _
  · refine .bind (.mapError (clearRailStop_refines _) _) fun cleared => ?_
    split
    · exact .pure _
    · exact .fail _

theorem wp_asideViolation {exec : Exec (Option RepositoryError)} {log : Log Db Watch} {db : Db}
    {post : Unit → Assertion} {fault : RepositoryError → Assertion}
    (aside : ∀ seen newest grant, (∃ refused, exec seen newest grant = Reply.value refused) ∨
      ∃ w, exec seen newest grant = Reply.wrote [w] none ∧ w.table ∈ asideTables)
    (cont : ∀ db, Sane config db → post () ⟨[], [], log, db⟩) :
    wp (contract config) (orViolation exec) (fun _ => wp (contract config) commit post fault)
      (fun _ => Between (contract config)) ⟨[], [], log, db⟩ := by
  refine wp_orViolation stable_true trivial fun _ db grant reply sane _ eq => ?_
  obtain ⟨refused, same⟩ | ⟨w, same, outside⟩ := aside _ _ _ <;> rw [same] at eq <;> subst eq
  · exact ⟨fun _ _ => ⟨rfl, rfl, sane⟩, fun _ => wp_commits stable_true trivial
      (fun _ _ _ => .aside (by simp [Reply.value])) cont⟩
  · exact ⟨fun _ refused => (by cases refused), fun _ => wp_commits stable_true trivial
      (fun _ _ _ => .aside (by simpa [Reply.wrote] using outside)) cont⟩

theorem recordRiskEvaluation_refines (submission : RiskRow) :
    Refines config (recordRiskEvaluation submission) := by
  refine .bind .uuid fun id log db sane => ?_
  rw [wp_bind]
  simp only [wp_bind]
  refine wp_asideViolation (fun _ _ _ => ?_) fun db sane => ⟨rfl, rfl, sane⟩
  unfold insertRiskEvaluation
  split
  · exact .inl ⟨_, rfl⟩
  split
  · exact .inl ⟨_, rfl⟩
  · exact .inr ⟨_, rfl, by simp [Write.table, asideTables]⟩

theorem submitRiskEvaluation_refines (credential : OperatorCredential) (submission : RiskRow) :
    Refines config (submitRiskEvaluation credential submission) := by
  unfold submitRiskEvaluation
  split
  · exact .fail _
  split
  · exact .fail _
  refine .bind .now fun at_ => .bind .orFail fun earliest => .bind .orFail fun latest => ?_
  split
  · exact .fail _
  refine .bind .select fun allowed => ?_
  split
  · exact .mapError (recordRiskEvaluation_refines _) _
  · exact .fail _

end Operators

section Verifier

theorem intake_refines (source : ChainSource) (principal : Text) (lease : ComponentLease)
    (kind : ObservationKind) (collectors : List CollectorWatch)
    (transfers : List ObservedTransfer) (cursor : Option (Id × CursorPosition)) :
    Refines config (intake source principal lease kind collectors transfers cursor) :=
  .bind .now fun _ => .bind (recordObservations_refines _ _ _ _ _) fun _ => .pure _

theorem evidenceFor_event {db : Db} {event : ChainEventKey} {r : EvidenceReading}
    (mem : r ∈ db.evidenceFor event) : r.transfer.event = event := by
  obtain ⟨e, listed, reading⟩ := List.mem_filterMap.mp mem
  rw [List.mem_insertionSort, Db.observationsOf, List.mem_filter] at listed
  obtain ⟨source, _, rfl⟩ := Option.map_eq_some_iff.mp reading
  simp only [Bool.and_eq_true, decide_eq_true_eq] at listed
  exact listed.2.1

theorem RefinesFrom.evidenceFor_bind {known : Log Db Watch} {ε β : Type} {event : ChainEventKey}
    {wrap : RepositoryError → ε} {next : List EvidenceReading → Job ε β}
    (rest : ∀ m : Moment Db, RefinesFrom config ((.evidence event, m) :: known)
      (next (m.db.evidenceFor event))) :
    RefinesFrom config known ((evidenceFor event).mapError wrap >>= next) := by
  intro log db sub sane
  rw [wp_bind, wp_mapError]
  exact wp_watch stable_true trivial fun m sane _ =>
    rest m _ _ (List.cons_subset_cons _ sub) sane

variable {policy : FinalityPolicy}

theorem verify_reached {known : Log Db Watch} {m : Moment Db} {at_ : Int}
    {verdict : Verdict} {event : ChainEventKey} (read : (.evidence event, m) ∈ known)
    (decided : verify (m.db.evidenceFor event) policy at_ = .ok verdict) :
    verdict.Reached known event := by
  rintro fact rfl
  obtain ⟨r, mem, gives⟩ := canonicalTransfer_given (verify_verified decided).transfer
  have about : fact.transfer.event = event :=
    gives.event.symm.trans (evidenceFor_event (List.mem_filter.mp mem).1)
  exact ⟨about, .inr ⟨m, policy, at_, by rw [about]; exact read, by rw [about]; exact decided⟩⟩

variable (verifier : Verifier) (lease : ComponentLease) (event : ChainEventKey)

theorem lookup_refines (asked : Nat) : Refines config (verifier.lookup asked event) :=
  .bind (fun _ _ _ => wp_watch stable_true trivial fun _ sane _ => ⟨rfl, rfl, sane⟩)
    fun _ => .liftExcept

theorem reread_refines (asked : Nat) : Refines config (verifier.reread lease asked event) := by
  refine .bind (lookup_refines _ _ _) fun answer => ?_
  cases answer with
  | none => exact .pure _
  | some transfer =>
    refine .bind (.mapError .select _) fun collectors => ?_
    split
    · exact .pure _
    · exact .bind .now fun _ => .bind (.mapError (recordObservations_refines _ _ _ _ _) _)
        fun _ => .pure _

variable {event} {known : Log Db Watch}

theorem record_refines {verdict : Verdict} (reached : verdict.Reached known event)
    (performed failed : Nat) :
    RefinesFrom config known (Verifier.record lease event verdict performed failed) :=
  .bind (Refines.from .now) fun _ => .bind (.mapError (commitVerdict_refines reached _ _) _)
    fun _ => Refines.from (.pure _)

theorem RefinesFrom.verify_bind {β : Type} {m : Moment Db}
    {at_ : Int} {next : Verdict → Job VerificationServiceError β}
    (read : (.evidence event, m) ∈ known) (rest : ∀ verdict : Verdict, verdict.Reached known event →
      RefinesFrom config known (next verdict)) : RefinesFrom config known
      (CryptoGateway.liftExcept .verification (verify (m.db.evidenceFor event) policy at_) >>=
        next) := by
  cases decided : verify (m.db.evidenceFor event) policy at_ with
  | error e => exact Refines.from (.fail _)
  | ok verdict => exact rest verdict (verify_reached read decided)

theorem conclude_refines {m : Moment Db}
    (read : (.evidence event, m) ∈ known) (readThisPass : Bool) (asked performed failed : Nat) :
    RefinesFrom config known (verifier.conclude lease event policy (m.db.evidenceFor event)
      readThisPass asked performed failed) := by
  refine .bind (Refines.from .now) fun at_ => .verify_bind read fun verdict reached => ?_
  split
  · refine .bind (Refines.from (.caught (reread_refines _ _ _ _))) fun answer => ?_
    split
    · exact .evidenceFor_bind fun m => .bind (Refines.from .now) fun _ =>
        .verify_bind List.mem_cons_self fun verdict reached => record_refines _ reached _ _
    · exact record_refines _ reached _ _
  · exact record_refines _ reached _ _

theorem examine_refines : RefinesFrom config known (verifier.examine lease event) := by
  refine .bind (Refines.from (.mapError .select _)) fun policy => ?_
  cases policy with
  | none => exact Refines.from (.pure _)
  | some policy =>
    refine .evidenceFor_bind fun m => ?_
    split
    · exact conclude_refines _ _ List.mem_cons_self _ _ _ _
    · refine .bind (Refines.from (.caught (reread_refines _ _ _ _))) fun answer => ?_
      split
      · exact .evidenceFor_bind fun m => conclude_refines _ _ List.mem_cons_self _ _ _ _
      · exact conclude_refines _ _ List.mem_cons_self _ _ _ _
      · split
        · exact Refines.from (.pure _)
        · exact conclude_refines _ _ List.mem_cons_self _ _ _ _

theorem verifyEvents_refines (events : List ChainEventKey) :
    Refines config (verifyEvents verifier lease events) := by
  induction events with
  | nil => exact .pure _
  | cons event rest ih =>
    refine .bind (fun log db sane => ?_) fun _ => .bind ih fun _ => .pure _
    exact examine_refines _ _ log db (List.Subset.refl _) sane

theorem verifyPending_refines (order : RowOrder ChainEventKey) (limit : Nat) :
    Refines config (verifyPending order verifier lease limit) := by
  unfold verifyPending
  split
  · exact .fail _
  · exact .bind .now fun _ => .bind (.mapError .select _) fun events =>
      .bind (verifyEvents_refines _ _ _) fun _ => .pure _

end Verifier

section Program

theorem administer_refines {write : Write} (aside : write.table ∈ asideTables) :
    Refines config (administer write) := by
  intro log db sane
  unfold administer
  rw [wp_bind]
  refine wp_wrote stable_true trivial fun db sane _ => ?_
  exact wp_commits stable_true trivial (fun _ _ _ => .aside (by simpa using aside))
    fun db sane => ⟨rfl, rfl, sane⟩

theorem registerCollector_refines (row : CollectorRow) :
    Refines config (registerCollector row) := by
  refine .bind .uuid fun id => .transaction fun log db sane => ?_
  rw [wp_bind]
  refine @wp_insert config [] [] log db _ _ (.insertCollector id row)
    (fun db => db.collectors.row id = none) _ _ (fun _ newest _ accepted => ?_) stable_true trivial
    (fun _ _ _ => trivial) fun db sane _ absent => ?_
  · split at accepted
    · cases accepted
    · rename_i free
      exact ⟨if_neg free, by simpa using free⟩
  · exact wp_commits ((collectors_guarded id).stable (.inr (by simp)) none) absent
      (fun _ _ absent => .register absent) fun db sane => ⟨rfl, rfl, sane⟩

theorem stopQuotingCollector_refines (collectorId : Id) :
    Refines config (stopQuotingCollector collectorId) := by
  refine .transaction fun log db sane => ?_
  rw [wp_bind]
  refine wp_updateOne stable_true trivial (fun _ _ _ _ _ _ => trivial) fun row db sane _ found => ?_
  obtain ⟨stored, active⟩ := Option.filter_eq_some_iff.mp found
  exact wp_commits ((collectors_guarded collectorId).stable (.inl List.mem_cons_self) (some row))
    stored (fun _ _ stored => .stopQuoting stored (by simpa using active))
    fun db sane => ⟨rfl, rfl, sane⟩

theorem retireCollector_refines (collectorId : Id) (compromised : Bool) :
    Refines config (retireCollector collectorId compromised) := by
  refine .transaction fun log db sane => ?_
  rw [wp_bind]
  refine wp_forUpdate stable_true trivial (fun _ _ _ _ _ _ => trivial) fun row db sane _ found => ?_
  rw [wp_bind]
  refine wp_orFail (fun absent => by cases absent) fun _ _ => ?_
  have stored : db.collectors.row collectorId = some row := (Option.filter_eq_some_iff.mp found).1
  have pinned : Steady config [(.collector collectorId, .update)] fun db =>
      db.collectors.row collectorId = some row :=
    (collectors_guarded collectorId).stable (.inr List.mem_cons_self) _
  rw [wp_bind]
  refine wp_watch pinned stored fun m sane stored => ?_
  split
  · trivial
  have counted : Steady config [(.collector collectorId, .update)] fun db =>
      db.collectors.row collectorId = some row ∧ ∀ k lease, db.leases.row k = some lease →
        lease.collectorAddressId = collectorId → m.db.leases.row k = some lease :=
    pinned.and (reserved_stable List.mem_cons_self)
  rw [wp_bind]
  refine wp_updateOne counted ⟨stored, fun _ _ found _ => found⟩
    (fun seen db before _ known missing => ?_) fun row db sane known _ => ?_
  · simp [before.1, known.1] at missing
  · exact wp_commits (counted.mono fun _ mem => by simp [List.mem_singleton.mp mem]) known
      (fun _ _ known => .retire known.1 ⟨m, by simp, known.2⟩) fun db sane => ⟨rfl, rfl, sane⟩

theorem wp_answer {ε α : Type} {wrap : ε → Failure} {respond : α → Response} (job : Job ε α)
    (post : Response → Assertion) (fault : Failure → Assertion)
    (c : Ctx Db Write Row Watch) : wp (contract config) (answer wrap respond job) post fault c =
      wp (contract config) job (fun a c => post (respond a) c) (fun e c => fault (wrap e) c) c := by
  unfold answer
  rw [wp_bind, wp_mapError]
  rfl

theorem answer_refines {ε α : Type} {wrap : ε → Failure} {respond : α → Response}
    {job : Job ε α} (refines : Refines config job) : Refines config (answer wrap respond job) :=
  .bind (.mapError refines wrap) fun _ => .pure _

theorem program_refines (request : Request) : Refines config (program config request) := by
  cases request with
  | createIntent => exact answer_refines (createIntent_refines _ _ _)
  | cancelIntent => exact answer_refines (cancelIntent_refines _ _ _ _)
  | issueQuote => exact answer_refines (issueQuote_refines _ _ _ _)
  | expireDue => exact answer_refines (expireDue_refines _)
  | settlePending => exact answer_refines (settlePending_refines _ _ _)
  | resolveManual => exact answer_refines (resolveManual_refines _ _ _)
  | proposeHonor => exact answer_refines (proposeHonor_refines _ _ _ _)
  | approveHonor => exact answer_refines (approveHonor_refines _ _ _ _)
  | rejectHonor => exact answer_refines (rejectHonor_refines _ _ _ _)
  | openRailStop => exact answer_refines (openRail_refines _ _ _)
  | clearRailStop => exact answer_refines (clearRail_refines _ _ _)
  | submitRisk => exact answer_refines (submitRiskEvaluation_refines _ _)
  | intake => exact answer_refines (intake_refines _ _ _ _ _ _ _)
  | verifyPending => exact answer_refines (verifyPending_refines _ _ _ _)
  | commitVerdict lease event verdict about =>
    refine answer_refines fun log db sane => ?_
    rw [wp_bind]
    refine wp_watchedClock stable_true trivial fun m sane _ => ?_
    refine commitVerdict_refines ?_ lease m.now _ _ (List.Subset.refl _) sane
    rintro fact rfl
    exact ⟨about, .inl ⟨m, by rw [show fact.transfer.event = event from about]; simp⟩⟩
  | purgeObservations => exact answer_refines (purgeObservations_refines _ _ _)
  | acquireLease =>
    exact answer_refines (.bind .now fun at_ => acquireComponentLease_refines _ _ _ _)
  | replaceCatalog =>
    exact answer_refines (administer_refines (by simp [Write.table, asideTables]))
  | registerCollector => exact answer_refines (registerCollector_refines _)
  | stopQuoting => exact answer_refines (stopQuotingCollector_refines _)
  | retireCollector => exact answer_refines (retireCollector_refines _ _)

end Program
end CryptoGateway
