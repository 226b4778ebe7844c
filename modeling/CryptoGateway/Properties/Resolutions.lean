import CryptoGateway.Refinement.Calls
import CryptoGateway.Runs

/-!
One manual decision for one operator and one idempotency key, whichever of the two
entry points is called and however the calls interleave.
-/
namespace CryptoGateway
open Engine

inductive ManualCall where
  | resolve (resolution : ManualResolution)
  | approve (proposalId : Id) (reason : Text)

namespace ManualCall

def request (credential : OperatorCredential) (key : Text) : ManualCall → Request
  | .resolve resolution => .resolveManual credential key resolution
  | .approve proposalId reason => .approveHonor credential proposalId key reason

/-- The call asks for what `row` records: the same content, or the same proposal. -/
def Repeats (operator : Id) (key : Text) (row : ResolutionRow) (db : Db) : ManualCall → Prop
  | .resolve resolution => manualResolutionHash resolution = row.requestHash
  | .approve proposalId _ => ∃ proposal, db.proposals.row proposalId = some proposal ∧
      proposal.Spends operator key row

def Unknown (db : Db) : ManualCall → Prop
  | .resolve _ => False
  | .approve proposalId _ => db.proposals.row proposalId = none

end ManualCall

def ResolutionRow.result (row : ResolutionRow) (replayed : Bool) : ManualResolutionResult where
  id := row.id
  action := row.action
  transferId := row.transferId
  paymentIntentId := row.paymentIntentId
  attemptId := row.attemptId
  merchantId := row.merchantId
  allocatedRaw := row.allocatedRaw
  remainderRaw := row.remainderRaw
  replayed := replayed

section Facts
variable {config : Config} {log : Log Db Watch} {db : Db} {ws : List Write} {operator : Id}
  {key : Text} {row : ResolutionRow}

theorem Effect.repeats_iff (eff : Effect config log db ws)
    (stored : db.resolutions.row (operator, key) = some row) (call : ManualCall) :
    call.Repeats operator key row (applyAll ws db) ↔ call.Repeats operator key row db := by
  cases call with
  | resolve resolution => exact .rfl
  | approve proposalId reason =>
    constructor
    · rintro ⟨proposal, found, spends⟩
      rcases proposals_origin found with old | put | set
      · exact ⟨proposal, old, spends⟩
      · have pending := (eff.insertProposal_pending put).1
        rw [spends.approved] at pending
        cases pending
      · obtain ⟨_, _, _, other | ⟨o, k, r, spends', put, _⟩⟩ := eff.setProposalDecision_mem set
        · exact absurd spends.approved other.1
        · cases spends'.decidedByKeyId.symm.trans spends.decidedByKeyId
          cases spends'.decisionIdempotencyKey.symm.trans spends.decisionIdempotencyKey
          cases (eff.insertResolution_mem put).1.unspent.symm.trans stored
    · rintro ⟨proposal, found, spends⟩
      refine ⟨proposal, eff.decided_stays found ?_, spends⟩
      rw [spends.approved]
      decide

/-- What a call knows once its key is spent on `row`: whether it repeats the decision,
    and that its proposal is missing only if it was when the call began. -/
structure Spent (operator : Id) (key : Text) (row : ResolutionRow) (call : ManualCall)
    (repeats unknown : Prop) (db : Db) : Prop where
  stored : db.resolutions.row (operator, key) = some row
  repeats : call.Repeats operator key row db ↔ repeats
  unknown : call.Unknown db → unknown

theorem ManualCall.unknown_before {call : ManualCall} (unknown : call.Unknown (applyAll ws db)) :
    call.Unknown db := by
  cases call with
  | resolve resolution => exact unknown
  | approve proposalId reason =>
    by_contra known
    obtain ⟨proposal, found⟩ := Option.ne_none_iff_exists'.mp known
    exact proposal_stored found ws unknown

variable {call : ManualCall} {repeats unknown : Prop}

theorem Spent.keep (spent : Spent operator key row call repeats unknown db)
    (eff : Effect config log db ws) :
    Spent operator key row call repeats unknown (applyAll ws db) where
  stored := (resolutions_inserts.persists (operator, key)).applyAll spent.stored ws
  repeats := (eff.repeats_iff spent.stored call).trans spent.repeats
  unknown missing := spent.unknown (ManualCall.unknown_before missing)

theorem spent_stable {held : List (Lock Row)} :
    Stable (contract config) held (Spent operator key row call repeats unknown) :=
  .of_effect fun _ eff spent => spent.keep eff

end Facts

section Replays
variable {config : Config} {held : List (Lock Row)} {log : Log Db Watch} {db : Db}
  {operator : Id} {key : Text} {row : ResolutionRow} {hash : Digest}

theorem wp_loadReplay (stored : db.resolutions.row (operator, key) = some row) :
    wp (contract config) (loadResolution operator key hash true)
      (fun r c => c.writes = [] ∧ hash = row.requestHash ∧ r = row.result true)
      (fun e _ => hash ≠ row.requestHash ∧ e = .repository .idempotencyConflict)
      ⟨held, [], log, db⟩ := by
  unfold loadResolution
  rw [wp_bind]
  refine wp_select ((resolutions_inserts.persists (operator, key)).stable held row) stored
    fun db _ stored => ?_
  rw [wp_bind, applyAll_nil, stored]
  show wp _ (if row.requestHash ≠ hash then _ else _) _ _ _
  split
  · rename_i other
    exact ⟨Ne.symm other, rfl⟩
  · rename_i same
    exact ⟨rfl, (not_not.mp same).symm, rfl⟩

theorem resolveManualInStore_replays {credential : OperatorCredential}
    {resolution : ManualResolution} {at_ : Int}
    (stored : db.resolutions.row (credential.keyId, key) = some row) :
    wp (contract config) (resolveManualInStore credential key hash resolution at_)
      (fun r _ => hash = row.requestHash ∧ r = row.result true)
      (fun e _ => hash ≠ row.requestHash ∧ e = .repository .idempotencyConflict)
      ⟨[], [], log, db⟩ := by
  have stable : ∀ held, Stable (contract config) held fun db =>
      db.resolutions.row (credential.keyId, key) = some row :=
    fun held => (resolutions_inserts.persists _).stable held row
  refine wp_transaction_error ?_ fun e log db known _ => known
  rw [wp_bind]
  refine wp_locked (stable _) stored fun db _ stored => ?_
  rw [wp_bind]
  refine wp_select (stable _) stored fun db _ stored => ?_
  rw [applyAll_nil, stored, Option.isSome_some, if_pos rfl, wp_bind]
  refine wp_mono (wp_loadReplay stored) (fun r c loaded => ?_) fun _ _ failed => failed
  obtain ⟨held, writes, log, db⟩ := c
  obtain ⟨rfl, same⟩ := loaded
  rw [wp_bind]
  exact wp_commitsNothing fun db _ => same

theorem Resolved.spends (resolved : Resolved db) {id : Id} {proposal : ProposalRow}
    (stored : db.resolutions.row (operator, key) = some row)
    (found : db.proposals.row id = some proposal) (named : proposal.resolutionId = some row.id) :
    proposal.Spends operator key row ∧ proposal.requestHash = row.requestHash := by
  have approved : proposal.status = .approved := by
    by_contra other
    cases (resolved.unresolved found other).symm.trans named
  obtain ⟨o, k, r, spends, stored', hash⟩ := resolved.approved found approved
  have same : r.id = row.id := Option.some.inj (spends.resolutionId.symm.trans named)
  cases resolved.uniqueId stored' stored same
  cases stored'.symm.trans stored
  exact ⟨spends, hash.symm⟩

theorem approveHonorInStore_replays {approver : OperatorCredential} {proposalId : Id}
    {reason : Text} {at_ : Int} {repeats unknown : Prop}
    (spent : Spent approver.keyId key row (.approve proposalId reason) repeats unknown db) :
    wp (contract config) (approveHonorInStore approver proposalId key reason at_)
      (fun r _ => repeats ∧ r = row.result true)
      (fun e _ => ¬repeats ∧ (e = .repository .idempotencyConflict ∨
        e = .honorProposalNotFound ∧ unknown)) ⟨[], [], log, db⟩ := by
  refine wp_transaction_error ?_ fun e log db known _ => known
  rw [wp_bind]
  refine wp_locked spent_stable spent fun db _ spent => ?_
  rw [wp_bind]
  refine wp_select spent_stable spent fun db _ spent => ?_
  rw [applyAll_nil, spent.stored, wp_bind]
  unfold lockedProposal
  rw [wp_bind]
  refine wp_forUpdate spent_stable spent (fun seen db before _ now missing => ?_)
    fun proposal db sane spent found => ?_
  · -- the proposal is missing: it was when the call began, and it repeats nothing
    have when_ : ∃ db, Spent approver.keyId key row (.approve proposalId reason) repeats
        unknown db ∧ db.proposals.row proposalId = none := by
      rcases missing with absent | absent
      · exact ⟨seen, before, absent⟩
      · exact ⟨db, now, absent⟩
    obtain ⟨db, spent, absent⟩ := when_
    refine ⟨fun holds => ?_, .inr ⟨rfl, spent.unknown absent⟩⟩
    obtain ⟨proposal, found, _⟩ := spent.repeats.mpr holds
    cases absent.symm.trans found
  · rw [applyAll_nil] at found
    show wp _ (if proposal.resolutionId ≠ some row.id then _ else _) _ _ _
    split
    · rename_i other
      refine ⟨fun holds => ?_, .inl rfl⟩
      obtain ⟨proposal', found', spends⟩ := spent.repeats.mpr holds
      cases found.symm.trans found'
      exact other spends.resolutionId
    · rename_i named
      obtain ⟨spends, hash⟩ := sane.resolved.spends spent.stored found (not_not.mp named)
      have repeated : repeats := spent.repeats.mp ⟨proposal, found, spends⟩
      rw [wp_bind]
      refine wp_mono (wp_loadReplay spent.stored) (fun r c loaded => ?_)
        fun e c failed => absurd hash failed.1
      obtain ⟨held, writes, log, db⟩ := c
      obtain ⟨rfl, _, replay⟩ := loaded
      rw [wp_bind]
      exact wp_commitsNothing fun db _ => ⟨repeated, replay⟩

end Replays

section Calls
variable {config : Config} {credential : OperatorCredential} {key : Text}

theorem requireManual_cases (credential : OperatorCredential) (key reason : Text) :
    (∃ e, requireManual credential key reason = .fail e) ∨
      requireManual credential key reason = .done () := by
  unfold requireManual
  repeat' split
  all_goals first | exact .inl ⟨_, rfl⟩ | exact .inr rfl

def ManualCall.inStore (credential : OperatorCredential) (key : Text) (at_ : Int) :
    ManualCall → Job OperationsError ManualResolutionResult
  | .resolve resolution =>
      resolveManualInStore credential key (manualResolutionHash resolution) resolution at_
  | .approve proposalId reason => approveHonorInStore credential proposalId key reason at_

theorem ManualCall.program_cases (config : Config) (credential : OperatorCredential) (key : Text)
    (call : ManualCall) : (∃ e, program config (call.request credential key) = .fail e) ∨
      program config (call.request credential key) =
        .clock none fun at_ => answer .operations .resolution
        (call.inStore credential key at_) := by
  cases call with
  | resolve resolution =>
    rcases requireManual_cases credential key resolution.reason with ⟨e, checks⟩ | checks
    · refine .inl ⟨.operations e, ?_⟩
      simp only [request, program, resolveManual, checks]
      rfl
    · have passed : resolveManual config.honorPolicy credential key resolution =
          if !validateManualResolution resolution then .fail .invalidManualResolution
          else if resolution.action = .honor ∧
              resolution.allocateRaw.any config.honorPolicy.requiresSecondOperator then
            .fail .dualControlRequired
          else .clock none fun at_ => inStore credential key at_ (.resolve resolution) := by
        unfold resolveManual
        rw [checks]
        rfl
      simp only [request, program, passed]
      split
      · exact .inl ⟨.operations .invalidManualResolution, rfl⟩
      split
      · exact .inl ⟨.operations .dualControlRequired, rfl⟩
      · exact .inr rfl
  | approve proposalId reason =>
    rcases requireManual_cases credential key reason with ⟨e, checks⟩ | checks
    · refine .inl ⟨.operations e, ?_⟩
      simp only [request, program, approveHonor, checks]
      rfl
    · refine .inr ?_
      simp only [request, program, approveHonor, checks]
      rfl

theorem ManualCall.inStore_one (call : ManualCall) (at_ : Int) :
    (call.inStore credential key at_).OneTransaction := by
  cases call with
  | resolve resolution => exact resolveManualInStore_one _ _ _ _ _
  | approve proposalId reason => exact approveHonorInStore_one _ _ _ _ _

theorem ManualCall.inStore_commits (call : ManualCall) (at_ : Int) :
    (call.inStore credential key at_).Commits (Records credential.keyId key)
      (fun _ _ => True) [] := by
  cases call with
  | resolve resolution => exact resolveManualInStore_commits
  | approve proposalId reason => exact approveHonorInStore_commits

theorem ManualCall.one (call : ManualCall) :
    (program config (call.request credential key)).OneTransaction := by
  rcases call.program_cases config credential key with ⟨e, eq⟩ | eq
  · rw [eq]; trivial
  · rw [eq]
    exact fun at_ => Proc.OneTransaction.map
      (Proc.OneTransaction.mapError (call.inStore_one at_) _) _

theorem ManualCall.commits (call : ManualCall) :
    (program config (call.request credential key)).Commits (Records credential.keyId key)
      (fun _ _ => True) [] := by
  rcases call.program_cases config credential key with ⟨e, eq⟩ | eq
  · rw [eq]; trivial
  · rw [eq]
    intro at_
    have stored : ((call.inStore credential key at_).mapError Failure.operations).Commits
        (Records credential.keyId key) (fun _ _ => True) [] :=
      Proc.Commits.handle (call.inStore_commits at_) fun _ _ => trivial
    exact Proc.Commits.bind stored fun _ _ _ => trivial

def Replayed (row : ResolutionRow) (repeats : Prop) (response : Response) : Prop :=
  repeats ∧ response = .resolution (row.result true)

def Refused (repeats unknown : Prop) (failure : Failure) : Prop :=
  ¬repeats ∧ (failure = .operations (.repository .idempotencyConflict) ∨
    failure = .operations .honorProposalNotFound ∧ unknown)

theorem ManualCall.inStore_replays {log : Log Db Watch} {db : Db} {row : ResolutionRow}
    {call : ManualCall} {repeats unknown : Prop} (at_ : Int)
    (spent : Spent credential.keyId key row call repeats unknown db) :
    wp (contract config) (call.inStore credential key at_)
      (fun r _ => repeats ∧ r = row.result true)
      (fun e _ => ¬repeats ∧ (e = .repository .idempotencyConflict ∨
        e = .honorProposalNotFound ∧ unknown)) ⟨[], [], log, db⟩ := by
  cases call with
  | approve proposalId reason => exact approveHonorInStore_replays spent
  | resolve resolution =>
    refine wp_mono (resolveManualInStore_replays spent.stored) (fun r c replayed => ?_)
      fun e c refused => ?_
    · exact ⟨spent.repeats.mp replayed.1, replayed.2⟩
    · exact ⟨fun holds => refused.1 (spent.repeats.mpr holds), .inl refused.2⟩

theorem ManualCall.knocks {row : ResolutionRow} {call : ManualCall} {repeats unknown : Prop}
    {p : Job Failure Response} (here : program config (call.request credential key) = p)
    (passed : ∀ e, p ≠ .fail e) :
    Knocks (contract config) (Replayed row repeats) (Refused repeats unknown)
      (.resolutionScope credential.keyId key, .update) (fun _ => True)
      (Spent credential.keyId key row call repeats unknown) p := by
  have one : (program config (call.request credential key)).OneTransaction := call.one
  rcases call.program_cases config credential key with ⟨e, eq⟩ | eq
  · exact absurd (here.symm.trans eq) (passed e)
  rw [here] at eq one
  subst eq
  refine ⟨?_, fun log db sane spent => ?_⟩
  · cases call with
    | resolve resolution =>
      exact fun at_ => ⟨fun _ _ _ _ => rfl, fun _ _ _ _ =>
        ⟨by simp [required, Reply.locked], one at_ _⟩⟩
    | approve proposalId reason =>
      exact fun at_ => ⟨fun _ _ _ _ => rfl, fun _ _ _ _ =>
        ⟨by simp [required, Reply.locked], one at_ _⟩⟩
  · refine wp_clock spent_stable spent fun m sane spent => ?_
    rw [wp_answer]
    refine wp_mono (ManualCall.inStore_replays _ spent) (fun r c replayed => ?_)
      fun e c refused => ?_
    · exact ⟨replayed.1, by rw [replayed.2]⟩
    · refine ⟨refused.1, ?_⟩
      rcases refused.2 with rfl | ⟨rfl, unknown⟩
      · exact .inl rfl
      · exact .inr ⟨rfl, unknown⟩

end Calls

structure ResolvesOnce (config : Config) (allow : Gateway → Event Request → Prop) (operator : Id)
    (key : Text) (s : Gateway) : Prop where
  /-- A call that writes is the first to, and spends the key with what it writes. -/
  applied : ∀ {credential call i log ws}, credential.keyId = operator →
    Serves config allow (ManualCall.request credential key call) s i →
    s.committing (Event.run (Q := Request) i) = some (log, ws) → ws ≠ [] →
    s.db.resolutions.row (operator, key) = none ∧
      ∃ row, (applyAll ws s.db).resolutions.row (operator, key) = some row
  /-- The decision stays, and no step of any call changes the database any more. -/
  once : ∀ {row s'}, s.db.resolutions.row (operator, key) = some row →
    System.Reach (program config) allow s s' →
    s'.db.resolutions.row (operator, key) = some row ∧
    ∀ {credential call i e s''}, credential.keyId = operator →
      Serves config allow (ManualCall.request credential key call) s' i →
      s'.step (program config) e = some s'' → e.session = some i → s''.db = s'.db
  /-- A call that is still running once the key is spent returns the first result
      marked replayed if it repeats the decision, and a conflict if not. -/
  answered : ∀ {credential call start i row s' c}, credential.keyId = operator →
    ServesSince config allow (ManualCall.request credential key call) start s i →
    s.db.resolutions.row (operator, key) = some row → ¬s.Shows Session.Ended i →
    System.Reach (program config) allow s s' → s'.sessions[i]? = some c →
    (∀ response, c.code = some (.done response) →
      Replayed row (call.Repeats operator key row s'.db) response) ∧
    ∀ failure, c.code = some (.fail failure) →
      Refused (call.Repeats operator key row s'.db) (call.Unknown start.db) failure
  /-- No step of a call that ends in an error changes the database. -/
  refused : ∀ {credential call i e s' s'' c failure}, credential.keyId = operator →
    Serves config allow (ManualCall.request credential key call) s i →
    s.step (program config) e = some s' → e.session = some i →
    System.Reach (program config) allow s' s'' → s''.sessions[i]? = some c →
    c.code = some (.fail failure) → s'.db = s.db
  /-- A call does come to its answer when the other processes hold no locks. -/
  returns : ∀ {credential call i c p}, credential.keyId = operator →
    Serves config allow (ManualCall.request credential key call) s i →
    s.sessions[i]? = some c → c.code = some p → s.Alone i →
    (∀ s e, e.session = some i → allow s e) →
    ∃ s', System.Reach (program config) allow s s' ∧
      s'.Shows (fun c => ∃ p, c.code = some p ∧ (p.Succeeded ∨ p.Failed)) i

section
variable {config : Config} {allow : Gateway → Event Request → Prop} {s : Gateway}
  {log : Log Db Watch} {call : ManualCall}

theorem Effect.records {db : Db} {ws : List Write} {operator : Id}
    {key : Text} (eff : Effect config log db ws) (records : Records operator key ws)
    (writes : ws ≠ []) : ∃ row, .insertResolution operator key row ∈ ws := by
  rcases records with none | recorded | ⟨id, decision, mem, approved, by_, under⟩
  · exact absurd none writes
  · exact recorded
  · obtain ⟨_, _, _, other | ⟨o, k, row, spends, put, _⟩⟩ := eff.setProposalDecision_mem mem
    · exact absurd approved other.1
    · cases spends.decidedByKeyId.symm.trans by_
      cases spends.decisionIdempotencyKey.symm.trans under
      exact ⟨row, put⟩

theorem Serves.records {credential : OperatorCredential} {key : Text} {i : Nat} {ws : List Write}
    (serves : Serves config allow (call.request credential key) s i)
    (commits : s.committing (Event.run (Q := Request) i) = some (log, ws)) :
    Records credential.keyId key ws := by
  have shows_ : s.Shows (·.Commits (Records credential.keyId key)) i :=
    serves.shows_ (by rintro _ ⟨⟩; exact call.commits) fun _ _ => Session.Commits.follows
  exact shows_.committing commits

theorem Spent.turned {db : Db} {ws : List Write} {operator : Id} {key : Text}
    {row : ResolutionRow} {repeats unknown : Prop}
    (eff : Effect config log db ws) (missing : call.Unknown db → unknown)
    (before : ¬Spent operator key row call repeats unknown db)
    (after : Spent operator key row call repeats unknown (applyAll ws db)) :
    ∃ w ∈ ws, (.resolutionScope operator key, .update) ∈ Store.needs Db w := by
  rcases resolutions_inserts.origin after.stored with stored | put
  · refine absurd ⟨stored, ?_, missing⟩ before
    exact (eff.repeats_iff stored call).symm.trans after.repeats
  · exact ⟨_, put, by simp [Store.needs]⟩

theorem ServesSince.answered {credential : OperatorCredential} {key : Text}
    {start s' : Gateway} {i : Nat} {row : ResolutionRow}
    {c : Session Db Write Row Watch Failure Response}
    (serves : ServesSince config allow (call.request credential key) start s i)
    (stored : s.db.resolutions.row (credential.keyId, key) = some row)
    (running : ¬s.Shows Session.Ended i) (later : System.Reach (program config) allow s s')
    (found : s'.sessions[i]? = some c) : (∀ response, c.code = some (.done response) →
      Replayed row (call.Repeats credential.keyId key row s'.db) response) ∧
    ∀ failure, c.code = some (.fail failure) →
      Refused (call.Repeats credential.keyId key row s'.db) (call.Unknown start.db) failure := by
  obtain ⟨reached, rfl, allowed, after⟩ := serves
  have started : Reached config allow { start with sessions :=
      start.sessions ++ [{ code := some (program config (call.request credential key)) }] } :=
    .step reached rfl allowed
  have missing : ∀ {s₁ : Gateway}, System.Reach (program config) allow _ s₁ →
      call.Unknown s₁.db → call.Unknown start.db := fun r =>
    started.keeps_later (P := fun db => call.Unknown db → call.Unknown start.db) id
      (fun _ _ _ _ _ _ _ _ before unknown => before (ManualCall.unknown_before unknown)) r
  have spent : Spent credential.keyId key row call (call.Repeats credential.keyId key row s.db)
      (call.Unknown start.db) s.db := ⟨stored, .rfl, missing after⟩
  have stage : Session.Stage (contract config)
      (Replayed row (call.Repeats credential.keyId key row s.db))
      (Refused (call.Repeats credential.keyId key row s.db) (call.Unknown start.db))
      (.resolutionScope credential.keyId key, .update) (fun _ => True)
      (Spent credential.keyId key row call (call.Repeats credential.keyId key row s.db)
        (call.Unknown start.db))
      { code := some (program config (call.request credential key)) } := by
    rcases call.program_cases config credential key with ⟨e, eq⟩ | eq
    · refine .ended ?_
      rintro _ ⟨⟩
      exact .inr ⟨e, eq⟩
    · refine .outside rfl rfl rfl (ManualCall.knocks rfl fun e failed => ?_)
      cases eq.symm.trans failed
  have here : (start.sessions ++ [{ code := some (program config
      (call.request credential key)) }])[start.sessions.length]? =
      some { code := some (program config (call.request credential key)) } := by simp
  obtain ⟨c₀, found₀, _, knows⟩ := System.Reach.entered (fun _ r => (started.later r).sound)
    (fun _ _ _ => trivial)
    (fun r commits after => or_iff_not_imp_left.mpr fun before => ⟨trivial,
      Spent.turned ((started.later r).effect commits) (missing r) before after⟩)
    (by simp [clash, Mode.conflicts]) here stage rfl after
  rcases knows spent with finished | safe
  · exact absurd ⟨c₀, found₀, finished⟩ running
  obtain ⟨c', found', safe'⟩ := Assured.reach (Lasting.const _ _ _)
    (fun _ r => ((started.later after).later r).sound) found₀ safe later
  cases found.symm.trans found'
  have same : Spent credential.keyId key row call (call.Repeats credential.keyId key row s.db)
      (call.Unknown start.db) s'.db :=
    (started.later after).keeps_later spent (fun _ _ _ _ _ _ _ eff here => here.keep eff) later
  constructor
  · intro response code
    exact ⟨same.repeats.mpr (safe'.done code).1, (safe'.done code).2⟩
  · intro failure code
    exact ⟨fun holds => (safe'.fail code).1 (same.repeats.mp holds), (safe'.fail code).2⟩

/-- Manual resolutions are idempotent under every operator and idempotency key. -/
theorem manual_resolution_idempotent (reached : Reached config allow s) (operator : Id)
    (key : Text) : ResolvesOnce config allow operator key s where
  applied := by
    rintro credential call i log ws rfl serves commits writes
    have eff := reached.effect commits
    obtain ⟨row, mem⟩ := eff.records (serves.records commits) writes
    exact ⟨(eff.insertResolution_mem mem).1.unspent, row, eff.resolution_stored mem⟩
  once := by
    intro row s' stored later
    have stored' := reached.keeps_later
      (P := fun db => db.resolutions.row (operator, key) = some row)
      stored (fun s _ _ ws _ _ _ _ here => (resolutions_inserts.persists _).applyAll here ws) later
    refine ⟨stored', ?_⟩
    rintro credential call i e s'' rfl serves taken own
    rcases System.step_db taken with ⟨_, same⟩ | ⟨log, ws, commits, moved⟩
    · exact same
    obtain ⟨j, _, rfl, _, _⟩ := System.committing_eq_some commits
    cases own
    have eff := (reached.later later).effect commits
    by_cases writes : ws = []
    · rw [moved, writes, applyAll_nil]
    · obtain ⟨row', mem⟩ := eff.records (serves.records commits) writes
      cases (eff.insertResolution_mem mem).1.unspent.symm.trans stored'
  answered := by
    rintro credential call start i row s' c rfl serves stored running later found
    exact serves.answered stored running later found
  refused := by
    rintro credential call i e s' s'' c failure rfl serves taken own later found failed
    have ahead : s.Shows (·.Ahead Proc.OneTransaction) i :=
      serves.shows_ (by rintro _ ⟨⟩; exact call.one) fun _ _ => Session.Ahead.oneTransaction
    exact ahead.refused taken own later found failed
  returns _ _ found code alone may := alone.finishes may found code

end

namespace Sample

def honoredPart : List (Slice Request) :=
  opening ++ whole 5 0 (transfer 0 40 1) ++ whole 6 0 (.settlePending lease 10) ++
    whole 7 0 (.resolveManual (operator 1) (key 'p') (honor 5 40))

def honoredAgain : Gateway :=
  let start := Gateway.after config anyStep honoredPart
  { start with sessions := start.sessions ++
      [{ code := some (program config (.resolveManual (operator 1) (key 'p') (honor 5 40))) }] }

def honoredTwice : Gateway :=
  honoredAgain.perform (program config) anyStep [.work 8 0 99]

theorem manual_resolution_idempotent_again :
    ∃ row, Reached config anyStep honoredAgain ∧
      honoredAgain.db.resolutions.row (1, key 'p') = some row ∧ row.allocatedRaw = some 40 ∧
      honoredTwice.response 8 = some (.resolution (row.result true)) := by
  have serves : ServesSince config anyStep
      (ManualCall.request (operator 1) (key 'p') (.resolve (honor 5 40)))
      (Gateway.after config anyStep honoredPart) honoredAgain 8 :=
    ⟨Gateway.after_reached config anyStep honoredPart, by decide +kernel, trivial, .refl⟩
  have reached : Reached config anyStep honoredAgain := serves.reached
  have later : System.Reach (program config) anyStep honoredAgain honoredTwice := .perform _ .refl
  obtain ⟨row, stored, allocated⟩ := Option.map_eq_some_iff.mp (by decide +kernel :
    (honoredAgain.db.resolutions.row (1, key 'p')).map (·.allocatedRaw) = some (some 40))
  have running : ¬honoredAgain.Shows Session.Ended 8 := by
    rintro ⟨c, found, ended⟩
    have last : (Gateway.after config anyStep honoredPart).sessions.length = 8 := by decide +kernel
    simp only [honoredAgain, ← last, List.getElem?_concat_length, Option.some.injEq] at found
    subst found
    rcases ended _ rfl with ⟨response, eq⟩ | ⟨failure, eq⟩ <;> cases eq
  obtain ⟨response, answered⟩ := Option.isSome_iff_exists.mp (by decide +kernel :
    (honoredTwice.response 8).isSome = true)
  obtain ⟨c, found, code⟩ := Gateway.response_eq_some answered
  have once := manual_resolution_idempotent reached 1 (key 'p')
  have replayed := (once.answered rfl serves stored running later found).1 response code
  exact ⟨row, reached, stored, allocated, by rw [answered, replayed.2]⟩

end Sample
end CryptoGateway
