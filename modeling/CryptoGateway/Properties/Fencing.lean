import CryptoGateway.Engine.Answers
import CryptoGateway.Engine.Fences
import CryptoGateway.Refinement.Calls
import CryptoGateway.Runs

/-!
Component leases and the writes they guard: tokens only grow, a takeover brings a new one, and
nothing is committed under a token that is not the stored one.
-/
namespace CryptoGateway
open Engine Proc

section Guarded

def ComponentLease.Held (lease : ComponentLease) (db : Db) : Prop :=
  ∃ row, db.componentLeases.row lease.component = some row ∧ row.holder = lease.holder ∧
    row.fenceToken = lease.fenceToken

def ComponentLease.lock (lease : ComponentLease) : Lock Row :=
  (.componentLease lease.component, .share)

variable {lease : ComponentLease}

theorem ComponentLease.held_of_heldAt {at_ : Int} {db : Db} (held : lease.heldAt at_ db = true) :
    lease.Held db := by
  unfold ComponentLease.heldAt at held
  split at held
  · cases held
  · rename_i row found
    simp only [Bool.and_eq_true, decide_eq_true_eq] at held
    exact ⟨row, found, held.1.1, held.1.2⟩

theorem ComponentLease.held_apply (lease : ComponentLease) (w : Write) (db : Db)
    (apart : ∀ n ∈ Store.needs Db w, clash n lease.lock = false) (held : lease.Held db) :
    lease.Held (Store.apply w db) := by
  rcases componentLeases_guarded lease.component w db with same | need | need
  · obtain ⟨row, found, matched⟩ := held
    exact ⟨row, same.trans found, matched⟩
  · exact absurd (apart _ need) (by simp [clash, Mode.conflicts, ComponentLease.lock])
  · exact absurd (apart _ need) (by simp [clash, Mode.conflicts, ComponentLease.lock])

theorem holdLease_guards (lease : ComponentLease) :
    (holdLease lease).Guards lease.lock lease.Held (fun up ws => up = true ∧ ws = [])
      (fun _ _ => True) false [] := by
  intro at_ seen newest grant
  by_cases held : (lease.heldAt at_ seen && lease.heldAt at_ newest) = true
  · refine ⟨true, fun _ => .inr ⟨rfl, ?_, ?_⟩, ?_⟩
    · simp [held, required, Reply.locked, ComponentLease.lock]
    · exact ComponentLease.held_of_heldAt (Bool.and_eq_true_iff.mp held).2
    · simp only [held, if_true]
      exact ⟨rfl, rfl⟩
  · refine ⟨false, by simp, ?_⟩
    simp only [held]
    trivial

theorem Guards.under_lease {α : Type} {body : Job RepositoryError α}
    (rest : body.Guards lease.lock lease.Held Idle (fun _ _ => True) true []) :
    ((holdLease lease).bind fun _ => body).Guards lease.lock lease.Held Idle (fun _ _ => True)
      false [] := by
  refine Guards.bind (holdLease_guards lease) ?_
  rintro _ _ _ ⟨rfl, rfl⟩
  exact rest

end Guarded

section Quiet

theorem insertObservations_quiet (source : ChainSource) (principal : Text)
    (observations : List ResolvedObservation) (report : IntakeReport) :
    (insertObservations source principal observations report).Quiet := by
  induction observations generalizing report with
  | nil => trivial
  | cons observation rest ih =>
    refine Quiet.bind uuid_quiet fun _ => Quiet.bind (execute_quiet _) fun inserted => ?_
    cases inserted with
    | invalid => trivial
    | recorded => exact ih _
    | duplicate => exact ih _

theorem moveCursor_quiet (source : ChainSource)
    (cursor : Option (Id × ObservationKind × CursorPosition)) :
    (moveCursor source cursor).Quiet := by
  cases cursor with
  | none => trivial
  | some lane =>
    refine Quiet.bind (execute_quiet _) fun moved => ?_
    rcases moved with error | _ | _
    · trivial
    · refine Quiet.bind (select_quiet _) fun holderToken => ?_
      split <;> trivial
    · trivial

theorem insertAttestations_quiet (transferId : Id) (attestations : List (Id × AttestationRole)) :
    (insertAttestations transferId attestations).Quiet := by
  induction attestations with
  | nil => trivial
  | cons attestation rest ih =>
    intro refused
    cases refused with
    | some error => trivial
    | none => exact ih

theorem advanceState_quiet (transferId : Id) (target : TransferState) (rounds : Nat) :
    (advanceState transferId target rounds).Quiet := by
  induction rounds with
  | zero => trivial
  | succ rounds ih =>
    refine Quiet.bind (select_quiet _) fun _ => Quiet.bind (orFail_quiet _ _) fun current => ?_
    split
    · trivial
    · refine Quiet.bind (execute_quiet _) fun swapped => ?_
      split
      · trivial
      · exact Quiet.bind (orViolation_quiet _) fun _ => ih

theorem openTransferLifecycle_quiet (transferId : Id) : (openTransferLifecycle transferId).Quiet :=
  Quiet.bind (orViolation_quiet _) fun _ => Quiet.bind (orViolation_quiet _) fun _ =>
    orViolation_quiet _

theorem commitVerified_quiet (event : ChainEventKey) (verified : VerifiedTransfer) (at_ : Int) :
    (commitVerified event verified at_).Quiet := by
  refine Quiet.bind uuid_quiet fun fresh => Quiet.bind (execute_quiet _) fun inserted => ?_
  cases inserted with
  | invalid => trivial
  | created =>
    refine Quiet.bind (openTransferLifecycle_quiet _) fun _ => ?_
    refine Quiet.bind (insertAttestations_quiet _ _) fun _ => ?_
    exact Quiet.bind (advanceState_quiet _ _ _) fun _ => Quiet.bind (execute_quiet _)
      fun _ => trivial
  | conflict =>
    refine Quiet.bind (select_quiet _) fun _ => Quiet.bind (orFail_quiet _ _) fun _ => ?_
    refine Quiet.bind (insertAttestations_quiet _ _) fun _ => ?_
    exact Quiet.bind (advanceState_quiet _ _ _) fun _ => Quiet.bind (execute_quiet _)
      fun _ => trivial

theorem applyVerdict_quiet (event : ChainEventKey) (verdict : Verdict) (at_ : Int) :
    (applyVerdict event verdict at_).Quiet := by
  cases verdict with
  | verified verified => exact commitVerified_quiet _ _ _
  | conflicted =>
    exact Quiet.bind (execute_quiet _) fun _ => Quiet.bind (execute_quiet _) fun _ => trivial
  | insufficient => exact Quiet.bind (execute_quiet _) fun _ => trivial
  | rejected => exact Quiet.bind (execute_quiet _) fun _ => trivial

theorem lockProcessing_quiet (transferId : Id) : (lockProcessing transferId).Quiet :=
  Quiet.bind (execute_quiet _) fun _ => orFail_quiet _ _

theorem finishWithoutMoney_quiet (command : SettlementCommand) (state : ProcessingState)
    (outcome : DecisionOutcome) (reason : Text) (at_ : Int) :
    (finishWithoutMoney command state outcome reason at_).Quiet :=
  Quiet.bind (setProcessing_quiet _ _) fun _ => Quiet.bind (execute_quiet _) fun _ =>
  execute_quiet _

theorem applyOutcome_quiet (command : SettlementCommand) (at_ : Int) :
    (applyOutcome command at_).Quiet := by
  unfold applyOutcome
  split
  · exact Quiet.bind (finishWithoutMoney_quiet _ _ _ _ _) fun _ => trivial
  · exact Quiet.bind (finishWithoutMoney_quiet _ _ _ _ _) fun _ => trivial
  · exact allocateAndFinish_quiet _ _ _ _ _
  · exact allocateAndFinish_quiet _ _ _ _ _
  · exact allocateAndFinish_quiet _ _ _ _ _

end Quiet

section Fenced
variable {lease : ComponentLease} {ε β : Type}

theorem commit_guards {α : Type} (a : α) (ws : List Write) :
    (commit.bind fun _ => (.done a : Job ε α)).Guards lease.lock lease.Held Idle (fun _ _ => True)
      true ws := ⟨fun _ => rfl, rfl, rfl⟩

theorem recordObservations_fenced (source : ChainSource) (principal : Text)
    (observations : List ResolvedObservation)
    (cursor : Option (Id × ObservationKind × CursorPosition)) :
    (recordObservations source principal lease observations cursor).Fenced lease.lock
    lease.Held := by
  refine Guards.fenced (Guards.under_lease ?_)
  refine Quiet.guards_bind (insertObservations_quiet _ _ _ _) fun _ _ => ?_
  exact Quiet.guards_bind (moveCursor_quiet _ _) fun _ _ => commit_guards _ _

theorem commitVerdict_fenced (event : ChainEventKey) (verdict : Verdict) (at_ : Int) :
    (commitVerdict lease event verdict at_).Fenced lease.lock lease.Held := by
  refine Guards.fenced (Guards.under_lease ?_)
  exact Quiet.guards_bind (applyVerdict_quiet _ _ _) fun _ _ => commit_guards _ _

theorem parkRefused_guards (command : SettlementCommand) (refusal : Text) :
    (parkRefused lease command refusal).Guards lease.lock lease.Held Idle (fun _ _ => True)
      false [] := by
  refine Guards.under_lease (Quiet.guards_bind (lockProcessing_quiet _) fun row ws => ?_)
  split
  · exact commit_guards _ _
  · refine Quiet.guards_bind now_quiet fun at_ _ => ?_
    exact Quiet.guards_bind (finishWithoutMoney_quiet _ _ _ _ _) fun _ _ => commit_guards _ _

theorem settle_fenced (command : SettlementCommand) :
    (settle lease command).Fenced lease.lock lease.Held := by
  refine Guards.fenced (Guards.under_lease (Quiet.guards_bind (lockProcessing_quiet _)
    fun row ws => ?_))
  split
  · exact commit_guards _ _
  · refine Quiet.guards_bind now_quiet fun at_ _ => ?_
    refine Quiet.guards_bind (applyOutcome_quiet command at_).caught fun result ws => ?_
    split
    · exact commit_guards _ _
    · exact parkRefused_guards _ _
    · trivial

theorem recordUnresolved_fenced (transfer : PendingTransfer) (unresolved : UnresolvedTransfer) :
    (recordUnresolved lease transfer unresolved).Fenced lease.lock lease.Held := by
  refine Guards.fenced (Guards.under_lease ?_)
  refine Quiet.guards_bind (execute_quiet _) fun _ _ => ?_
  exact Quiet.guards_bind (enqueueOutbox_quiet _ _ _) fun _ _ => commit_guards () _

theorem select_fenced (query : Db → β) :
    (select query : Job ε β).Fenced lease.lock lease.Held := fun _ => ⟨rfl, rfl⟩

theorem watch_fenced (tag : Watch) (query : Db → β) :
    (watch tag query : Job ε β).Fenced lease.lock lease.Held := fun _ => ⟨rfl, rfl⟩

theorem now_fenced : (now : Job ε Int).Fenced lease.lock lease.Held := fun _ => ⟨rfl, rfl⟩

theorem pure_fenced (b : β) : (.done b : Job ε β).Fenced lease.lock lease.Held := ⟨rfl, rfl⟩

theorem orFail_fenced (error : ε) (found : Option β) :
    (orFail error found).Fenced lease.lock lease.Held := by cases found <;> exact ⟨rfl, rfl⟩

theorem liftExcept_fenced {δ : Type} (wrap : ε → δ) (result : Except ε β) :
    (liftExcept wrap result).Fenced lease.lock lease.Held := by cases result <;> exact ⟨rfl, rfl⟩

theorem intake_fenced (source : ChainSource) (principal : Text) (kind : ObservationKind)
    (collectors : List CollectorWatch) (transfers : List ObservedTransfer)
    (cursor : Option (Id × CursorPosition)) :
    (intake source principal lease kind collectors transfers cursor).Fenced lease.lock lease.Held :=
  Fenced.bind now_fenced fun _ => Fenced.bind (recordObservations_fenced _ _ _ _) fun _ =>
    pure_fenced _

theorem findSettlementPolicy_fenced (currency : CurrencyCode) :
    (findSettlementPolicy currency).Fenced lease.lock lease.Held := by
  refine Fenced.bind (select_fenced _) fun policy => ?_
  cases policy with
  | none => exact pure_fenced _
  | some policy =>
    refine Fenced.bind (select_fenced _) fun tiers => ?_
    split <;> exact ⟨rfl, rfl⟩

theorem latestRisk_fenced (order : RowOrder Id) (transferId : Id) :
    (latestRisk order transferId).Fenced lease.lock lease.Held :=
  Fenced.bind (fun _ => ⟨rfl, rfl⟩) fun _ => watch_fenced _ _

theorem settleMatch_fenced (order : RowOrder Id) (transfer : PendingTransfer) (attemptId : Id)
    (strategy : MatchStrategy) (late : Bool) :
    (settleMatch order lease transfer attemptId strategy late).Fenced lease.lock lease.Held := by
  refine Fenced.bind (Fenced.mapError (watch_fenced _ _) _) fun _ => ?_
  refine Fenced.bind (orFail_fenced _ _) fun attempt => ?_
  refine Fenced.bind (Fenced.mapError (findSettlementPolicy_fenced _) _) fun found => ?_
  cases found with
  | none => exact pure_fenced _
  | some policy =>
    refine Fenced.bind (Fenced.mapError (latestRisk_fenced _ _) _) fun risk => ?_
    refine Fenced.bind (liftExcept_fenced _ _) fun outcome => ?_
    exact Fenced.bind (Fenced.mapError (settle_fenced _) _) fun record => pure_fenced _

theorem settleTransfer_fenced (order : RowOrder Id) (transfer : PendingTransfer) :
    (settleTransfer order lease transfer).Fenced lease.lock lease.Held := by
  refine Fenced.bind (Fenced.mapError (select_fenced _) _) fun candidates => ?_
  split
  · exact settleMatch_fenced _ _ _ _ _
  · exact Fenced.bind (Fenced.mapError (recordUnresolved_fenced _ _) _) fun _ => pure_fenced _
  · exact Fenced.bind (Fenced.mapError (recordUnresolved_fenced _ _) _) fun _ => pure_fenced _

theorem settlePending_fenced (order : RowOrder Id) (limit : Nat) :
    (settlePending order lease limit).Fenced lease.lock lease.Held := by
  unfold settlePending
  split
  · exact ⟨rfl, rfl⟩
  refine Fenced.bind (Fenced.mapError (select_fenced _) _) fun transfers => ?_
  refine Fenced.bind ?_ fun _ => pure_fenced _
  induction transfers with
  | nil => exact pure_fenced _
  | cons transfer rest ih =>
    exact Fenced.bind (settleTransfer_fenced _ _) fun _ => Fenced.bind ih fun _ => pure_fenced _

variable {verifier : Verifier} {event : ChainEventKey}

theorem reread_fenced (asked : Nat) :
    (verifier.reread lease asked event).Fenced lease.lock lease.Held := by
  refine Fenced.bind (Fenced.bind (watch_fenced _ _) fun _ => liftExcept_fenced _ _) fun known => ?_
  cases known with
  | none => exact pure_fenced _
  | some transfer =>
    refine Fenced.bind (Fenced.mapError (select_fenced _) _) fun collectors => ?_
    split
    · exact pure_fenced _
    · exact Fenced.bind now_fenced fun _ =>
        Fenced.bind (Fenced.mapError (recordObservations_fenced _ _ _ _) _) fun _ => pure_fenced _

theorem record_fenced (verdict : Verdict) (performed failed : Nat) :
    (Verifier.record lease event verdict performed failed).Fenced lease.lock lease.Held :=
  Fenced.bind now_fenced fun _ =>
    Fenced.bind (Fenced.mapError (commitVerdict_fenced _ _ _) _) fun _ => pure_fenced _

theorem conclude_fenced (policy : FinalityPolicy) (evidence : List EvidenceReading)
    (readThisPass : Bool) (asked performed failed : Nat) :
    (verifier.conclude lease event policy evidence readThisPass asked performed failed).Fenced
      lease.lock lease.Held := by
  refine Fenced.bind now_fenced fun _ => Fenced.bind (liftExcept_fenced _ _) fun verdict => ?_
  split
  · refine Fenced.bind (Fenced.caught (reread_fenced _)) fun result => ?_
    split
    · refine Fenced.bind (Fenced.mapError (watch_fenced _ _) _) fun _ => ?_
      exact Fenced.bind now_fenced fun _ => Fenced.bind (liftExcept_fenced _ _) fun _ =>
        record_fenced _ _ _
    · exact record_fenced _ _ _
  · exact record_fenced _ _ _

theorem examine_fenced : (verifier.examine lease event).Fenced lease.lock lease.Held := by
  refine Fenced.bind (Fenced.mapError (select_fenced _) _) fun found => ?_
  cases found with
  | none => exact pure_fenced _
  | some policy =>
    refine Fenced.bind (Fenced.mapError (watch_fenced _ _) _) fun evidence => ?_
    split
    · exact conclude_fenced _ _ _ _ _ _
    · refine Fenced.bind (Fenced.caught (reread_fenced _)) fun result => ?_
      split
      · exact Fenced.bind (Fenced.mapError (watch_fenced _ _) _) fun _ =>
          conclude_fenced _ _ _ _ _ _
      · exact conclude_fenced _ _ _ _ _ _
      · split
        · exact pure_fenced _
        · exact conclude_fenced _ _ _ _ _ _

theorem verifyPending_fenced (order : RowOrder ChainEventKey) (limit : Nat) :
    (verifyPending order verifier lease limit).Fenced lease.lock lease.Held := by
  unfold verifyPending
  split
  · exact ⟨rfl, rfl⟩
  refine Fenced.bind now_fenced fun _ => ?_
  refine Fenced.bind (Fenced.mapError (select_fenced _) _) fun events => ?_
  refine Fenced.bind ?_ fun _ => pure_fenced _
  induction events with
  | nil => exact pure_fenced _
  | cons event rest ih =>
    exact Fenced.bind examine_fenced fun _ => Fenced.bind ih fun _ => pure_fenced _

end Fenced

def Request.lease : Request → Option ComponentLease
  | .settlePending lease _ _ => some lease
  | .intake _ _ lease _ _ _ _ => some lease
  | .verifyPending _ lease _ _ => some lease
  | .commitVerdict lease _ _ _ => some lease
  | _ => none

theorem program_fenced (config : Config) {request : Request} {lease : ComponentLease}
    (under : request.lease = some lease) :
    (program config request).Fenced lease.lock lease.Held := by
  have answered : ∀ {ε α : Type} {wrap : ε → Failure} {respond : α → Response} {job : Job ε α},
      job.Fenced lease.lock lease.Held → (answer wrap respond job).Fenced lease.lock lease.Held :=
    fun fenced => Fenced.bind (Fenced.mapError fenced _) fun _ => pure_fenced _
  cases request with
  | settlePending => cases under; exact answered (settlePending_fenced _ _)
  | intake => cases under; exact answered (intake_fenced _ _ _ _ _ _)
  | verifyPending => cases under; exact answered (verifyPending_fenced _ _)
  | commitVerdict =>
    cases under
    exact answered (Fenced.bind (fun _ => ⟨rfl, rfl⟩) fun _ => commitVerdict_fenced _ _ _)
  | _ => cases under

section Runs
variable {config : Config} {allow : Gateway → Event Request → Prop} {s s₁ s' : Gateway}

/-- Step `e` commits writes of a session that works under the lease. -/
def CommitsUnder (config : Config) (allow : Gateway → Event Request → Prop) (s : Gateway)
    (e : Event Request) (lease : ComponentLease) : Prop :=
  ∃ i request log ws, e = .run i ∧ Serves config allow request s i ∧ request.lease = some lease ∧
    s.committing e = some (log, ws) ∧ ws ≠ []

variable {e : Event Request}

theorem CommitsUnder.held {lease : ComponentLease}
    (commits : CommitsUnder config allow s e lease) : lease.Held s.db := by
  obtain ⟨i, request, log, ws, rfl, serves, under, commits, writes⟩ := commits
  obtain ⟨before, after, reached, allowed, taken, rfl, later⟩ := serves
  have started : Reached config allow after := .step reached taken allowed
  cases taken
  have spawned : System.Shows (·.Fenced lease.lock lease.Held before.db) { before with
      sessions := before.sessions ++ [{ code := some (program config request) }] }
      before.sessions.length :=
    ⟨_, by simp, Session.Fenced.fresh (program_fenced config under) before.db⟩
  exact (spawned.fenced_reach (fun _ between => (started.later between).sound.exclusive)
    lease.held_apply later).fenced_committing commits writes

theorem Effect.lease_moves {log : Log Db Watch} {db : Db} {ws : List Write}
    (eff : Effect config log db ws) {component : Text} {held : ComponentLeaseRow}
    (found : db.componentLeases.row component = some held) :
    ∃ row, (applyAll ws db).componentLeases.row component = some row ∧
      (held.fenceToken < row.fenceToken ∨
        row.fenceToken = held.fenceToken ∧ row.holder = held.holder) := by
  rcases eff.fence_or with ⟨other, row, grants, rfl⟩ | ⟨rows, moved, _, rfl⟩ | apart
  · by_cases same : component = other
    · subst same
      refine ⟨row, by simp [Write.componentLeases, Table.row_put], ?_⟩
      cases grants with
      | first unset => cases unset.symm.trans found
      | renewal found' holder token =>
        cases found'.symm.trans found
        exact .inr ⟨token, holder⟩
      | takeover found' _ token =>
        cases found'.symm.trans found
        exact .inl (by omega)
    · exact ⟨held, by simpa [Write.componentLeases, Table.row_put, same] using found,
        .inr ⟨rfl, rfl⟩⟩
  · refine ⟨held, ?_, .inr ⟨rfl, rfl⟩⟩
    rw [componentLeases_same fun w mem eq => ?_]
    · exact found
    · exact (by decide : ∀ n ∈ recordTables, n ≠ .componentLeases) _ (record_table mem) eq
  · refine ⟨held, ?_, .inr ⟨rfl, rfl⟩⟩
    rw [componentLeases_same fun w mem eq => apart w mem (by simp [eq])]
    exact found

theorem Reached.lease_later (reached : Reached config allow s) {component : Text}
    {held : ComponentLeaseRow} (found : s.db.componentLeases.row component = some held)
    (later : System.Reach (program config) allow s s') :
    ∃ row, s'.db.componentLeases.row component = some row ∧ (held.fenceToken < row.fenceToken ∨
        row.fenceToken = held.fenceToken ∧ row.holder = held.holder) := by
  refine reached.keeps_later (P := fun db => ∃ row, db.componentLeases.row component = some row ∧
    (held.fenceToken < row.fenceToken ∨
      row.fenceToken = held.fenceToken ∧ row.holder = held.holder)) ⟨held, found, .inr ⟨rfl, rfl⟩⟩
    (fun s e log ws _ _ _ eff => ?_) later
  rintro ⟨row, stored, since⟩
  obtain ⟨next, stored', step⟩ := eff.lease_moves stored
  refine ⟨next, stored', ?_⟩
  rcases since with grown | ⟨token, holder⟩ <;> rcases step with grown' | ⟨token', holder'⟩
  · exact .inl (by omega)
  · exact .inl (by omega)
  · exact .inl (by omega)
  · exact .inr ⟨by omega, holder'.trans holder⟩

/-- With step `e` a session that acquires the component's lease for `holder` answers with
    `row`. -/
def HandsOut (config : Config) (allow : Gateway → Event Request → Prop) (s : Gateway)
    (e : Event Request) (component holder : Text) (row : ComponentLeaseRow) : Prop :=
  ∃ i ttlSeconds, e = .run i ∧
    Serves config allow (.acquireLease component holder ttlSeconds) s i ∧
    s.Shows (·.code = some (.commit (.done (.lease (some row))))) i

theorem acquireLease_settles (config : Config) (component holder : Text) (ttlSeconds : Int) :
    (program config (.acquireLease component holder ttlSeconds)).Settles
      (fun a ws => ∃ row, a = .lease (some row) ∧ row.holder = holder ∧
        ws = [.putComponentLease component row]) (fun a _ => a = .lease none) [] := by
  intro at_
  refine Settles.map (F := fun a ws => ∃ row, a = some row ∧ row.holder = holder ∧
      ws = [.putComponentLease component row])
    (G := fun a _ => a = none) (Settles.mapError ?_ _) _ ?_ ?_
  · show Settles _ _ [] (acquireComponentLease component holder ttlSeconds at_)
    unfold acquireComponentLease
    split
    · trivial
    split
    · trivial
    intro seen newest grant
    unfold leaseUpsert
    split
    · exact .inr ⟨_, rfl, _, rfl, rfl, rfl⟩
    · split
      · exact .inr ⟨_, rfl, _, rfl, rfl, rfl⟩
      · exact .inl ⟨rfl, rfl⟩
  · rintro _ ws ⟨row, rfl, same⟩
    exact ⟨row, rfl, same⟩
  · rintro _ ws rfl
    rfl

theorem HandsOut.commits {component holder : Text} {row : ComponentLeaseRow}
    (hands : HandsOut config allow s e component holder row) : row.holder = holder ∧
      ∃ log, s.committing e = some (log, [.putComponentLease component row]) := by
  obtain ⟨i, ttlSeconds, rfl, serves, c, found, code⟩ := hands
  have settling := (serves.shows_ (.inl (by
    rintro _ ⟨⟩
    exact acquireLease_settles config component holder ttlSeconds))
    fun _ _ => Session.Settling.follows).of found
  have written : row.holder = holder ∧ c.writes = [.putComponentLease component row] := by
    rcases settling with settles | ended
    · rcases settles _ code with ⟨_, refused⟩ | ⟨a, answer, row', same, written⟩
      · cases refused
      · cases answer
        cases same
        exact written
    · obtain ⟨a, eq⟩ := ended _ code
      cases eq
  obtain ⟨ofHolder, written⟩ := written
  refine ⟨ofHolder, c.log, ?_⟩
  obtain ⟨code', held, writes, log, snapshot⟩ := c
  cases code
  cases written
  simp only [System.committing, found]

theorem HandsOut.grants {component holder : Text} {row : ComponentLeaseRow}
    (hands : HandsOut config allow s e component holder row) (reached : Reached config allow s) :
    s.db.Grants component row := by
  obtain ⟨_, log, commits⟩ := hands.commits
  rcases (reached.effect commits).fence_or with ⟨_, _, grants, same⟩ | ⟨_, _, _, same⟩ | apart
  · cases same
    exact grants
  · have mem : Write.putComponentLease component row ∈ recordWrites _ _ :=
      same ▸ List.mem_singleton_self _
    rw [mem_recordWrites] at mem
    simp at mem
  · exact absurd (apart _ (List.mem_singleton_self _)) (by simp [Write.table])

theorem HandsOut.stored {component holder : Text} {row : ComponentLeaseRow}
    (hands : HandsOut config allow s e component holder row)
    (taken : s.step (program config) e = some s₁) :
    s₁.db.componentLeases.row component = some row := by
  obtain ⟨_, log, commits⟩ := hands.commits
  rcases System.step_db taken with ⟨none_, _⟩ | ⟨log', ws, commits', moved⟩
  · cases commits.symm.trans none_
  · cases commits.symm.trans commits'
    simp [moved, Write.componentLeases, Table.row_put]

theorem HandsOut.later {e' : Event Request} {component holder holder' : Text}
    {a b : ComponentLeaseRow} (reached : Reached config allow s)
    (first : HandsOut config allow s e component holder a)
    (taken : s.step (program config) e = some s₁) (allowed : allow s e)
    (later : System.Reach (program config) allow s₁ s')
    (second : HandsOut config allow s' e' component holder' b) :
    a.fenceToken ≤ b.fenceToken ∧ ∀ held, s'.db.componentLeases.row component = some held →
      held.holder ≠ holder' → a.fenceToken < b.fenceToken := by
  have started : Reached config allow s₁ := .step reached taken allowed
  obtain ⟨row, found, since⟩ := started.lease_later (first.stored taken) later
  cases second.grants (started.later later) with
  | first unset => cases unset.symm.trans found
  | renewal found' same token =>
    cases found'.symm.trans found
    refine ⟨by omega, fun held stored other => ?_⟩
    cases stored.symm.trans found
    exact absurd (same.symm.trans second.commits.1) other
  | takeover found' holder token =>
    cases found'.symm.trans found
    exact ⟨by omega, fun _ _ _ => by omega⟩

theorem CommitsUnder.later {e' : Event Request} {first second : ComponentLease}
    (reached : Reached config allow s) (before : CommitsUnder config allow s e first)
    (later : System.Reach (program config) allow s s')
    (after : CommitsUnder config allow s' e' second) (same : first.component = second.component) :
    first.fenceToken ≤ second.fenceToken := by
  obtain ⟨row, found, _, token⟩ := before.held
  obtain ⟨row', found', since⟩ := reached.lease_later found later
  obtain ⟨stored, found'', _, token'⟩ := after.held
  rw [same, found''] at found'
  cases found'
  omega

/-- The lane's cursor is the number `n`. -/
def Db.CursorAt (db : Db) (key : CursorKey) (n : Nat) : Prop :=
  ∃ row, db.cursors.row key = some row ∧ row.kind.isNumeric = true ∧ row.value.asNumeric = some n

def Write.unorderedAt (key : CursorKey) : Write → Bool
  | .putCursor k row => decide (k = key) && !row.kind.isNumeric
  | _ => false

def NumericAt (key : CursorKey) (_ : Log Db Watch) (_ : Db) (ws : List Write) : Prop :=
  ∀ w ∈ ws, w.unorderedAt key = false

instance (key : CursorKey) (log : Log Db Watch) (db : Db) (ws : List Write) :
    Decidable (NumericAt key log db ws) :=
  inferInstanceAs (Decidable (∀ w ∈ ws, w.unorderedAt key = false))

theorem admits_le {stored position : CursorRow} {n : Nat}
    (admits : stored.admits position = some true)
    (numeric : position.kind.isNumeric = true) (old : stored.value.asNumeric = some n) :
    ∃ m, position.value.asNumeric = some m ∧ n ≤ m := by
  unfold CursorRow.admits at admits
  rw [numeric, old] at admits
  split at admits
  · cases admits
  · cases new : position.value.asNumeric with
    | none => simp [new] at admits
    | some m => exact ⟨m, rfl, by simpa [new] using admits⟩

theorem Effect.cursor_moves {log : Log Db Watch} {db : Db} {ws : List Write}
    (eff : Effect config log db ws) {key : CursorKey} (numeric : NumericAt key log db ws) {n : Nat}
    (at_ : db.CursorAt key n) : ∃ m, n ≤ m ∧ (applyAll ws db).CursorAt key m := by
  obtain ⟨row, found, isNumeric, value⟩ := at_
  have stays : (∀ w ∈ ws, w.table ≠ .cursors) → ∃ m, n ≤ m ∧ (applyAll ws db).CursorAt key m :=
    fun other => ⟨n, le_rfl, row, by rw [cursors_same other]; exact found, isNumeric, value⟩
  rcases eff.fence_or with ⟨_, _, _, rfl⟩ | ⟨rows, moved, resumes, rfl⟩ | apart
  · exact stays (by simp [Write.table])
  · have readings : (applyAll (rows.map fun e => Write.insertObservation e.1 e.2) db).cursors =
        db.cursors := cursors_same fun w mem => by
      obtain ⟨_, _, rfl⟩ := List.mem_map.mp mem
      simp [Write.table]
    cases moved with
    | none =>
      refine stays fun w mem => ?_
      rcases mem_recordWrites.mp mem with ⟨_, _, rfl⟩ | ⟨_, none_, _⟩
      · simp [Write.table]
      · cases none_
    | some lane =>
      by_cases same : lane.1 = key
      · subst same
        have next : lane.2.kind.isNumeric = true := by
          simpa [Write.unorderedAt] using numeric (.putCursor lane.1 lane.2) (by simp)
        obtain ⟨m, value', le⟩ := admits_le ((resumes lane rfl).admitted row found) next value
        refine ⟨m, le, lane.2, ?_, next, value'⟩
        simp [recordWrites, applyAll_append, Write.cursors, Table.row_put]
      · refine ⟨n, le_rfl, row, ?_, isNumeric, value⟩
        simpa [recordWrites, applyAll_append, Write.cursors, Table.row_put, Ne.symm same, readings]
          using found
  · exact stays fun w mem eq => apart w mem (by simp [eq])

theorem Reached.cursor_later (reached : Reached config allow s) {key : CursorKey} {n : Nat}
    (start : s.db.CursorAt key n) (later : System.Reach (program config)
      (fun s e => allow s e ∧ OnCommit (NumericAt key) s e) s s') :
    Reached config allow s' ∧ ∃ m, n ≤ m ∧ s'.db.CursorAt key m := by
  induction later with
  | refl => exact ⟨reached, n, le_rfl, start⟩
  | step before taken allowed ih =>
    obtain ⟨between, m, le, at_⟩ := ih
    refine ⟨.step between taken allowed.1, ?_⟩
    rcases System.step_db taken with ⟨_, same⟩ | ⟨log, ws, commits, moved⟩
    · exact ⟨m, le, by rw [same]; exact at_⟩
    · rw [moved]
      obtain ⟨m', le', at'⟩ :=
        (between.effect commits).cursor_moves (allowed.2 log ws commits) at_
      exact ⟨m', le.trans le', at'⟩

/-- In every run the tokens of a component are handed out in order and a takeover brings a larger
    one; once a write under one token is committed, none under a smaller one is; and a numeric
    cursor does not go back as long as what is stored after it is numeric. -/
theorem fenced_by_token (config : Config) (allow : Gateway → Event Request → Prop) {s : Gateway}
    (reached : Reached config allow s) :
    (∀ {e e' component holder holder' a b s₁ s'}, HandsOut config allow s e component holder a →
      allow s e → s.step (program config) e = some s₁ → System.Reach (program config) allow s₁ s' →
      HandsOut config allow s' e' component holder' b →
      a.fenceToken ≤ b.fenceToken ∧ ∀ held, s'.db.componentLeases.row component = some held →
        held.holder ≠ holder' → a.fenceToken < b.fenceToken) ∧
    (∀ {e e' s'} {first second : ComponentLease}, CommitsUnder config allow s e first →
      System.Reach (program config) allow s s' → CommitsUnder config allow s' e' second →
      first.component = second.component → ¬second.fenceToken < first.fenceToken) ∧
    ∀ {key n s'}, s.db.CursorAt key n →
      System.Reach (program config) (fun s e => allow s e ∧ OnCommit (NumericAt key) s e) s s' →
      ∃ m, n ≤ m ∧ s'.db.CursorAt key m := by
  refine ⟨fun first allowed taken later second => first.later reached taken allowed later second,
    fun before later after same => ?_, fun start later => (reached.cursor_later start later).2⟩
  exact Nat.not_lt.mpr (before.later reached later after same)

end Runs

theorem CommitsUnder.of_committing {config : Config} {allow : Gateway → Event Request → Prop}
    {s : Gateway} {i : Nat} {request : Request} {lease : ComponentLease}
    (serves : Serves config allow request s i) (under : request.lease = some lease)
    (commits : (s.committing (Event.run (Q := Request) i)).any (fun c => !c.2.isEmpty) = true) :
    CommitsUnder config allow s (.run i) lease := by
  obtain ⟨⟨log, ws⟩, found, writes⟩ := (Option.any_eq_true _ _).mp commits
  exact ⟨i, request, log, ws, rfl, serves, under, found, by simpa using writes⟩

namespace Sample

def blockFive : CursorPosition := ⟨⟨.block, ['5'], none, 1⟩, by decide, by decide⟩

def blockSeven : CursorPosition := ⟨⟨.block, ['7'], none, 2⟩, by decide, by decide⟩

def scan (lease : ComponentLease) (n : Nat) (cursor : CursorPosition) : Request :=
  .intake (node 2) ['w'] lease .cursorScan [⟨0, [1], 1, [2], .active⟩] [reading n 100 9]
    (some (0, cursor))

def lane : CursorKey := (2, .cursorScan, 0)

def prepared : List (Slice Request) :=
  whole 0 0 (.replaceCatalog chainCatalog) ++
    whole 1 0 (.registerCollector ⟨1, [1], ['a'], 0, none, .active⟩)

def granting : List (Slice Request) :=
  prepared ++ .start (.acquireLease ['s'] ['h'] 1000) :: [.work 2 0 3]

def granted : List (Slice Request) := granting ++ [.work 2 0 1]

def scanning : List (Slice Request) := granted ++ .start (scan lease 0 blockFive) :: [.work 3 0 9]

def scanned : List (Slice Request) := scanning ++ [.work 3 0 99]

def taking : List (Slice Request) :=
  scanned ++ .start (.acquireLease ['s'] ['g'] 1000) :: [.work 4 (seconds 2000) 3]

def takenOver : List (Slice Request) := taking ++ [.work 4 (seconds 2000) 99]

def newLease : ComponentLease := ⟨['s'], ['g'], 2⟩

def rescanning : List (Slice Request) :=
  takenOver ++ .start (scan newLease 1 blockSeven) :: [.work 5 (seconds 2000) 9]

def advanced : Gateway :=
  (Gateway.after config anyStep scanned).perform (program config)
    (fun s e => anyStep s e ∧ OnCommit (NumericAt lane) s e)
    (whole 4 (seconds 2000) (.acquireLease ['s'] ['g'] 1000) ++
      whole 5 (seconds 2000) (scan newLease 1 blockSeven))

theorem granting_hands_out :
    HandsOut config anyStep (Gateway.after config anyStep granting) (.run 2) ['s'] ['h']
      ⟨['h'], 1, seconds 1000⟩ :=
  ⟨2, 1000, rfl, Gateway.after_serves_at config anyStep prepared _ _ (by decide +kernel) trivial,
    Gateway.offer_eq_some (by decide +kernel)⟩

theorem scanning_commits :
    CommitsUnder config anyStep (Gateway.after config anyStep scanning) (.run 3) lease :=
  .of_committing (Gateway.after_serves_at config anyStep granted [.work 3 0 9]
    (scan lease 0 blockFive) (by decide +kernel) trivial) rfl (by decide +kernel)

theorem taking_hands_out :
    HandsOut config anyStep (Gateway.after config anyStep taking) (.run 4) ['s'] ['g']
      ⟨['g'], 2, seconds 3000⟩ :=
  ⟨4, 1000, rfl, Gateway.after_serves_at config anyStep scanned _ _ (by decide +kernel) trivial,
    Gateway.offer_eq_some (by decide +kernel)⟩

theorem rescanning_commits :
    CommitsUnder config anyStep (Gateway.after config anyStep rescanning) (.run 5) newLease :=
  .of_committing (Gateway.after_serves_at config anyStep takenOver [.work 5 (seconds 2000) 9]
    (scan newLease 1 blockSeven) (by decide +kernel) trivial) rfl (by decide +kernel)

/-- The second holder takes the lease over with a new token, writes under it after the
    first one wrote under its own, and moves the cursor on. -/
theorem fenced_by_token_takeover :
    (⟨['h'], 1, seconds 1000⟩ : ComponentLeaseRow).fenceToken <
        (⟨['g'], 2, seconds 3000⟩ : ComponentLeaseRow).fenceToken ∧
      ¬newLease.fenceToken < lease.fenceToken ∧
      ∃ m, 5 ≤ m ∧ advanced.db.CursorAt lane m := by
  have reached := Gateway.after_reached config anyStep
  have toScan := Gateway.after_later config anyStep granted (.start (scan lease 0 blockFive) ::
    [.work 3 0 9])
  have toScanned := Gateway.after_later config anyStep scanning [.work 3 0 99]
  have toTaking := Gateway.after_later config anyStep scanned
    (.start (.acquireLease ['s'] ['g'] 1000) :: [.work 4 (seconds 2000) 3])
  have toTaken := Gateway.after_later config anyStep taking [.work 4 (seconds 2000) 99]
  have toRescan := Gateway.after_later config anyStep takenOver
    (.start (scan newLease 1 blockSeven) :: [.work 5 (seconds 2000) 9])
  have step := Gateway.after_run config anyStep granting 0 (i := 2) trivial (by decide +kernel)
  have stored : (Gateway.after config anyStep taking).db.componentLeases.row ['s'] =
      some ⟨['h'], 1, seconds 1000⟩ := by decide +kernel
  have five : (Gateway.after config anyStep scanned).db.cursors.row lane =
      some blockFive.toCursorRow := by decide +kernel
  refine ⟨?_, ?_, ?_⟩
  · exact ((fenced_by_token config anyStep (reached granting)).1 granting_hands_out trivial step
      (toScan.trans (toScanned.trans toTaking)) taking_hands_out).2 _ stored (by decide)
  · exact (fenced_by_token config anyStep (reached scanning)).2.1 scanning_commits
      (toScanned.trans (toTaking.trans (toTaken.trans toRescan))) rescanning_commits rfl
  · exact (fenced_by_token config anyStep (reached scanned)).2.2 ⟨_, five, rfl, by decide⟩
      (.perform _ .refl)

def blockHundred : CursorPosition := ⟨⟨.block, ['1', '0', '0'], none, 1⟩, by decide, by decide⟩

def blockTen : CursorPosition := ⟨⟨.block, ['1', '0'], none, 1⟩, by decide, by decide⟩

def eventFive : CursorPosition := ⟨⟨.eventPosition, ['5'], none, 1⟩, by decide, by decide⟩

def readTo100 : List (Slice Request) :=
  prepared ++ whole 2 0 (.acquireLease ['s'] ['h'] 1000) ++ whole 3 0 (scan lease 0 blockHundred)

/-- An event position is not compared with the block that it replaces, and a block that
    replaces it is compared only with it: block 10 follows block 100. -/
theorem cursor_goes_back :
    ∃ s s', Reached config anyStep s ∧ System.Reach (program config) anyStep s s' ∧
      s.db.CursorAt lane 100 ∧ s'.db.CursorAt lane 10 := by
  have before : (Gateway.after config anyStep readTo100).db.cursors.row lane =
      some blockHundred.toCursorRow := by decide +kernel
  have after : (Gateway.after config anyStep (readTo100 ++ (whole 4 0 (scan lease 1 eventFive) ++
      whole 5 0 (scan lease 2 blockTen)))).db.cursors.row lane = some blockTen.toCursorRow := by
    decide +kernel
  exact ⟨_, _, Gateway.after_reached config anyStep readTo100,
    Gateway.after_later config anyStep readTo100 _, ⟨_, before, rfl, by decide⟩,
    ⟨_, after, rfl, by decide⟩⟩

end Sample
end CryptoGateway
