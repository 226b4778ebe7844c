import CryptoGateway.Engine.Answers
import CryptoGateway.Refinement.Calls
import CryptoGateway.Runs

/-!
Submitted risk evaluations: which of them the settlement reads later.
-/
namespace CryptoGateway
open Engine Proc

def RiskRow.key (row : RiskRow) : Id × Text × Int := (row.transferId, row.provider, row.evaluatedAt)

def Write.evaluates (key : Id × Text × Int) : Write → Bool
  | .insertRiskEvaluation _ row => row.key = key
  | _ => false

def Db.Evaluated (db : Db) (key : Id × Text × Int) : Prop :=
  ∃ id row, db.riskEvaluations.row id = some row ∧ row.key = key

section
variable {config : Config} {submission : RiskRow} {log : Log Db Watch} {db : Db}

theorem evaluated_stable (held : List (Lock Row)) (key : Id × Text × Int) :
    Stable (contract config) held fun db => db.Evaluated key := by
  refine .of_write fun w db _ evaluated => ?_
  obtain ⟨id, row, stored, same⟩ := evaluated
  exact ⟨id, row, riskEvaluations_inserts.persists id w db row stored, same⟩

theorem recordRiskEvaluation_spec : wp (contract config) (recordRiskEvaluation submission)
      (fun _ c => c.db.Evaluated submission.key) (fun _ _ => True) ⟨[], [], log, db⟩ := by
  unfold recordRiskEvaluation
  rw [wp_bind]
  refine wp_uuid stable_true trivial fun id db sane _ => ?_
  rw [wp_bind]
  refine wp_orViolation stable_true trivial fun _ db grant reply sane _ eq => ?_
  rw [applyAll_nil] at eq
  unfold insertRiskEvaluation at eq
  split at eq
  · rename_i taken
    subst eq
    have evaluated : db.Evaluated submission.key := by
      obtain ⟨e, listed, same⟩ := List.any_eq_true.mp taken
      simp only [Bool.and_eq_true, decide_eq_true_eq] at same
      exact ⟨e.1, e.2, Table.mem_entries.mp listed, by simp [RiskRow.key, same]⟩
    refine ⟨fun _ _ => trivial, fun _ => ?_⟩
    rw [wp_bind]
    exact wp_commitsTo (evaluated_stable _ _) evaluated
      (fun _ _ _ => .aside (by simp [Reply.value]))
      fun db _ evaluated => evaluated
  split at eq
  · subst eq
    exact ⟨fun _ _ => trivial, by simp [Reply.value]⟩
  · rename_i unused
    subst eq
    have free : db.riskEvaluations.row id = none := by
      simp only [Bool.or_eq_true, not_or, Option.isSome_iff_ne_none, ne_eq, not_not] at unused
      exact unused.1
    refine ⟨fun _ _ => trivial, fun _ => ?_⟩
    rw [wp_bind]
    refine wp_commitsTo ((riskEvaluations_guarded id).stable (.inr ?_) none) free
      (fun _ _ _ => .aside ?_) fun db _ free => ?_
    · simp [Reply.wrote, required, Store.needs, Write.needs]
    · simp [Reply.wrote, Write.table, asideTables]
    · refine ⟨id, submission, ?_, rfl⟩
      simp [Reply.wrote, applyAll, Write.riskEvaluations, Table.row_insert_fresh free]

theorem submitRiskEvaluation_spec (credential : OperatorCredential) :
    wp (contract config) (submitRiskEvaluation credential submission)
      (fun _ c => c.db.Evaluated submission.key) (fun _ _ => True) ⟨[], [], log, db⟩ := by
  unfold submitRiskEvaluation
  split
  · trivial
  split
  · trivial
  rw [wp_bind]
  refine wp_now stable_true trivial fun at_ db _ _ => ?_
  rw [wp_bind]
  refine wp_orFail (fun _ => trivial) fun earliest _ => ?_
  rw [wp_bind]
  refine wp_orFail (fun _ => trivial) fun latest _ => ?_
  split
  · trivial
  rw [wp_bind]
  refine wp_select stable_true trivial fun db sane _ => ?_
  split
  · rw [wp_mapError]
    exact wp_mono recordRiskEvaluation_spec (fun _ _ done => done) fun _ _ _ => trivial
  · trivial

end

def Submitted (submission : RiskRow) (response : Response) (ws : List Write) : Prop :=
  ∃ id, response = .risk id ∧ ws = [.insertRiskEvaluation id submission]

theorem recordRiskEvaluation_settles (submission : RiskRow) :
    (recordRiskEvaluation submission).Settles
      (fun id ws => ws = [.insertRiskEvaluation id submission]) (fun _ _ => True) [] := by
  intro id seen newest grant
  have inserts : insertRiskEvaluation id submission seen newest grant = Reply.value none ∨
      insertRiskEvaluation id submission seen newest grant = Reply.value (some .unavailable) ∨
      insertRiskEvaluation id submission seen newest grant =
        Reply.wrote [.insertRiskEvaluation id submission] none := by
    unfold insertRiskEvaluation
    split
    · exact .inl rfl
    split
    · exact .inr (.inl rfl)
    · exact .inr (.inr rfl)
  rcases inserts with same | same | same <;> rw [same]
  · exact .inl ⟨rfl, trivial⟩
  · trivial
  · exact .inr ⟨id, rfl, rfl⟩

theorem submitRiskEvaluation_settles (credential : OperatorCredential) (submission : RiskRow) :
    (submitRiskEvaluation credential submission).Settles
      (fun id ws => ws = [.insertRiskEvaluation id submission]) (fun _ _ => True) [] := by
  unfold submitRiskEvaluation
  split
  · trivial
  split
  · trivial
  intro at_
  show Settles _ _ [] ((orFail _ (Instant.checkedAddSeconds at_ (-3600))).bind _)
  cases Instant.checkedAddSeconds at_ (-3600) with
  | none => trivial
  | some earliest =>
  show Settles _ _ [] ((orFail _ (Instant.checkedAddSeconds at_ 30)).bind _)
  cases Instant.checkedAddSeconds at_ 30 with
  | none => trivial
  | some latest =>
  show Settles _ _ [] (if _ then _ else _)
  split
  · trivial
  intro allowed
  show Settles _ _ [] (if allowed then _ else _)
  split
  · exact Settles.mapError (recordRiskEvaluation_settles submission) _
  · trivial

/-- No process but `i` stores an evaluation under the key. -/
def SoleSubmission (key : Id × Text × Int) (i : Nat) (s : Gateway) (e : Event Request) : Prop :=
  e.session ≠ some i → OnCommit (fun _ _ ws => ∀ w ∈ ws, w.evaluates key = false) s e

instance (key : Id × Text × Int) (i : Nat) (s : Gateway) (e : Event Request) :
    Decidable (SoleSubmission key i s e) :=
  inferInstanceAs (Decidable (_ → OnCommit _ s e))

section
variable {config : Config} {s s' : Gateway} {e : Event Request} {i : Nat}
  {credential : OperatorCredential} {submission : RiskRow} {key : Id × Text × Int}

theorem SoleSubmission.evaluated (sole : SoleSubmission key i s e)
    (other : e.session ≠ some i) {log : Log Db Watch} {ws : List Write}
    (commits : s.committing e = some (log, ws)) {id : Id} {row : RiskRow}
    (after : (applyAll ws s.db).riskEvaluations.row id = some row) (same : row.key = key) :
    s.db.riskEvaluations.row id = some row := by
  rcases riskEvaluations_inserts.origin after with old | new
  · exact old
  · have differs := sole other log ws commits _ new
    simp [Write.evaluates, same] at differs

theorem Reached.unevaluated (reached : Reached config (SoleSubmission key i) s)
    (notYet : s.sessions[i]? = none) : ¬s.db.Evaluated key := by
  induction reached with
  | refl => rintro ⟨id, row, found, _⟩; cases found
  | @step s s' e before taken allowed ih =>
    have earlier : s.sessions[i]? = none := by
      cases here : s.sessions[i]? with
      | none => rfl
      | some c =>
        obtain ⟨c', there, _⟩ := System.step_follows taken here
        cases notYet.symm.trans there
    rcases System.step_db taken with ⟨_, same⟩ | ⟨log, ws, commits, moved⟩
    · rw [same]
      exact ih earlier
    rintro ⟨id, row, found, key⟩
    obtain ⟨j, c, rfl, here, _⟩ := System.committing_eq_some commits
    have other : (Event.run (Q := Request) j).session ≠ some i := by
      rintro ⟨⟩
      cases earlier.symm.trans here
    rw [moved] at found
    exact ih earlier ⟨id, row, allowed.evaluated other commits found key, key⟩

/-- Whatever is stored under the key of the submission is the submission, stored once by
    process `i`, which has answered with its id. -/
structure Settled (submission : RiskRow) (i : Nat) (s : Gateway) : Prop where
  ours : ∀ {id row}, s.db.riskEvaluations.row id = some row → row.key = submission.key →
    row = submission ∧ s.Shows (·.Ahead (· = .done (.risk id))) i
  one : ∀ {id row other row'}, s.db.riskEvaluations.row id = some row →
    row.key = submission.key → s.db.riskEvaluations.row other = some row' →
    row'.key = submission.key → id = other

abbrev SubmissionSession (submission : RiskRow) (c : Session Db Write Row Watch Failure Response) :
    Prop :=
  c.Settling (Submitted submission) fun _ _ => True

theorem Settled.first (settled : Settled submission i s)
    (shows_ : s.Shows (SubmissionSession submission) i) {log : Log Db Watch} {ws : List Write}
    (commits : s.committing (Event.run (Q := Request) i) = some (log, ws)) (writes : ws ≠ []) :
    ¬s.db.Evaluated submission.key := by
  rintro ⟨id, row, found, key⟩
  obtain ⟨_, _, c, here, code⟩ := shows_.settling_committing commits writes
  cases (settled.ours found key).2.of here _ code

theorem Settled.step (settled : Settled submission i s)
    (shows_ : s.Shows (SubmissionSession submission) i)
    (allowed : SoleSubmission submission.key i s e)
    (taken : s.step (program config) e = some s') : Settled submission i s' := by
  -- a row that was there before is as it was
  have kept : (∀ id row, s'.db.riskEvaluations.row id = some row → row.key = submission.key →
      s.db.riskEvaluations.row id = some row) → Settled submission i s' := by
    intro old
    constructor
    · intro id row found key
      exact (settled.ours (old id row found key) key).imp_right
        (·.step (fun _ _ => Session.Ahead.returned) taken)
    · intro id row other row' found key found' key'
      exact settled.one (old id row found key) key (old other row' found' key') key'
  rcases System.step_db taken with ⟨_, same⟩ | ⟨log, ws, commits, moved⟩
  · exact kept fun id row found _ => same ▸ found
  by_cases own : e.session = some i
  · obtain ⟨j, _, rfl, _, _⟩ := System.committing_eq_some commits
    cases own
    by_cases writes : ws = []
    · subst writes
      exact kept fun id row found _ => by rwa [moved, applyAll_nil] at found
    have first := settled.first shows_ commits writes
    obtain ⟨_, ⟨id, rfl, rfl⟩, answered⟩ := shows_.settling_answers taken commits writes
    have new : ∀ {other row}, s'.db.riskEvaluations.row other = some row →
        row.key = submission.key → other = id ∧ row = submission := by
      intro other row found key
      rw [moved] at found
      rcases riskEvaluations_inserts.origin found with old | new
      · exact absurd ⟨other, row, old, key⟩ first
      · simpa using new
    constructor
    · intro other row found key
      obtain ⟨rfl, rfl⟩ := new found key
      exact ⟨rfl, answered⟩
    · intro other row other' row' found key found' key'
      rw [(new found key).1, (new found' key').1]
  · exact kept fun id row found key => allowed.evaluated own commits (moved ▸ found) key

theorem Serves.settled
    (serves : Serves config (SoleSubmission submission.key i)
      (.submitRisk credential submission) s i) :
    Settled submission i s ∧ s.Shows (SubmissionSession submission) i := by
  obtain ⟨before, after, reached, _, taken, rfl, later⟩ := serves
  cases taken
  induction later with
  | refl =>
    have none_ : ¬before.db.Evaluated submission.key := Reached.unevaluated reached (by simp)
    refine ⟨⟨fun found key => absurd ⟨_, _, found, key⟩ none_,
      fun found key => absurd ⟨_, _, found, key⟩ none_⟩, ?_⟩
    refine ⟨_, List.getElem?_concat_length, .inl ?_⟩
    rintro _ ⟨⟩
    exact Settles.map (Settles.mapError (submitRiskEvaluation_settles credential submission) _) _
      (fun id _ writes => ⟨id, rfl, writes⟩) fun _ _ _ => trivial
  | step _ taken allowed ih =>
    exact ⟨ih.1.step ih.2 allowed taken, ih.2.step (fun _ _ => Session.Settling.follows) taken⟩

theorem Serves.evaluated {allow : Gateway → Event Request → Prop}
    {c : Session Db Write Row Watch Failure Response} {response : Response}
    (serves : Serves config allow (.submitRisk credential submission) s i)
    (found : s.sessions[i]? = some c) (answered : c.code = some (.done response)) :
    s.db.Evaluated submission.key := by
  have lasting : Lasting (contract config)
      (fun (_ : Response) (_ : Log Db Watch) db => db.Evaluated submission.key)
      (fun (_ : Failure) _ _ => True) :=
    ⟨fun _ _ => evaluated_stable [] _, fun _ _ => stable_true⟩
  have assured := serves.assured lasting fun db _ =>
    (wp_answer _ _ _ _).mpr (submitRiskEvaluation_spec credential)
  have done_ := (assured.of found).done answered
  exact done_

theorem Db.mem_currentRisks {db : Db} {order : RowOrder Id} {at_ : Int} {transferId id : Id}
    {row : RiskRow} : (id, row) ∈ db.currentRisks order at_ transferId ↔
      db.riskEvaluations.row id = some row ∧ row.transferId = transferId ∧
        at_ - 3600 * 1000000 ≤ row.evaluatedAt ∧ row.evaluatedAt ≤ at_ + 30 * 1000000 := by
  simp only [Db.currentRisks, List.mem_insertionSort, List.mem_filter, Table.mem_entries,
    Bool.and_eq_true, decide_eq_true_eq, and_assoc]

theorem Db.latestRisk_eq {db : Db} {order : RowOrder Id} {at_ : Int} {id : Id} {row : RiskRow}
    (current : (id, row) ∈ db.currentRisks order at_ row.transferId)
    (latest : ∀ other found, db.riskEvaluations.row other = some found →
      found.transferId = row.transferId → other ≠ id → found.evaluatedAt < row.evaluatedAt) :
    db.latestRisk order at_ row.transferId = row.decision := by
  have sorted : (db.currentRisks order at_ row.transferId).Pairwise
      fun a b => b.2.evaluatedAt ≤ a.2.evaluatedAt := by
    have : Std.Total fun a b : Id × RiskRow => b.2.evaluatedAt ≤ a.2.evaluatedAt :=
      ⟨fun a b => le_total b.2.evaluatedAt a.2.evaluatedAt⟩
    have : IsTrans (Id × RiskRow) fun a b => b.2.evaluatedAt ≤ a.2.evaluatedAt :=
      ⟨fun a b c ab bc => le_trans bc ab⟩
    exact List.pairwise_insertionSort _ _
  have stored := (mem_currentRisks.mp current).1
  unfold Db.latestRisk
  cases listed : db.currentRisks order at_ row.transferId with
  | nil => rw [listed] at current; cases current
  | cons first rest =>
    obtain ⟨other, found⟩ := first
    have mem : (other, found) ∈ db.currentRisks order at_ row.transferId := by simp [listed]
    obtain ⟨stored', ofTransfer, _⟩ := mem_currentRisks.mp mem
    rw [listed] at current sorted
    have notOlder : row.evaluatedAt ≤ found.evaluatedAt := by
      rcases List.mem_cons.mp current with same | behind
      · cases same
        exact le_refl _
      · exact (List.pairwise_cons.mp sorted).1 _ behind
    by_cases same : other = id
    · subst same
      cases stored.symm.trans stored'
      rfl
    · have older := latest other found stored' ofTransfer same
      omega

/-- In every run in which no other process stores an evaluation by the provider at that time, an
    accepted submission is stored under the id it was answered with, alone under its key, and read
    while it is current. -/
theorem accepted_risk_in_force {c : Session Db Write Row Watch Failure Response} {id : Id}
    (serves : Serves config (SoleSubmission submission.key i)
      (.submitRisk credential submission) s i)
    (found : s.sessions[i]? = some c) (answered : c.code = some (.done (.risk id)))
    (later : System.Reach (program config) (SoleSubmission submission.key i) s s') :
    s'.db.riskEvaluations.row id = some submission ∧
    (∀ other row, s'.db.riskEvaluations.row other = some row → row.key = submission.key →
      other = id ∧ row.decision = submission.decision) ∧
    ∀ order at_, at_ - 3600 * 1000000 ≤ submission.evaluatedAt →
      submission.evaluatedAt ≤ at_ + 30 * 1000000 →
      (id, submission) ∈ s'.db.currentRisks order at_ submission.transferId ∧
      ((∀ other row, s'.db.riskEvaluations.row other = some row →
          row.transferId = submission.transferId → other ≠ id →
          row.evaluatedAt < submission.evaluatedAt) →
        s'.db.latestRisk order at_ submission.transferId = submission.decision) := by
  obtain ⟨first, row, stored, key⟩ := serves.evaluated found answered
  obtain ⟨rfl, returned⟩ := serves.settled.1.ours stored key
  cases returned.of found _ answered
  have served := (serves.later later).settled.1
  have kept : s'.db.riskEvaluations.row id = some row :=
    serves.reached.keeps_later (P := fun db => db.riskEvaluations.row id = some row) stored
      (fun _ _ _ ws _ _ _ _ here => (riskEvaluations_inserts.persists id).applyAll here ws) later
  refine ⟨kept, fun other found' stored' key' => ?_, fun order at_ after before => ?_⟩
  · have same := served.one stored' key' kept rfl
    exact ⟨same, by rw [(served.ours stored' key').1]⟩
  · have current : (id, row) ∈ s'.db.currentRisks order at_ row.transferId :=
      Db.mem_currentRisks.mpr ⟨kept, rfl, after, before⟩
    exact ⟨current, Db.latestRisk_eq current⟩

end

namespace Sample

def stray : List (Slice Request) := opening ++ whole 5 (seconds 70) (transfer 0 40 (seconds 70))

def opinion (decision : RiskDecision) : RiskRow := ⟨5, ['r'], decision, seconds 71⟩

theorem accepted_risk_in_force_denied :
    ∃ s : Gateway, s.db.riskEvaluations.row 6 = some (opinion .deny) ∧
      (6, opinion .deny) ∈ s.db.currentRisks (fun _ _ => true) (seconds 80) 5 := by
  have serves := Gateway.after_serves config (SoleSubmission (opinion .deny).key 6) stray
    [.work 6 (seconds 71) 99] (.submitRisk screener (opinion .deny)) (by decide +kernel)
  obtain ⟨c, found, answered⟩ := Gateway.response_eq_some (by decide +kernel :
    (Gateway.after config (SoleSubmission (opinion .deny).key 6)
      (stray ++ whole 6 (seconds 71) (.submitRisk screener (opinion .deny)))).response 6 =
        some (.risk 6))
  obtain ⟨stored, _, current⟩ := accepted_risk_in_force serves found answered .refl
  exact ⟨_, stored, (current (fun _ _ => true) (seconds 80) (by decide) (by decide)).1⟩

/-- Both submissions are accepted; only the first of them is stored and read. -/
theorem second_submission_dropped :
    ∃ s : Gateway, Reached config anyStep s ∧
      Serves config anyStep (.submitRisk screener (opinion .deny)) s 7 ∧
      s.response 7 = some (.risk 7) ∧ s.db.riskEvaluations.row 7 = none ∧
      s.db.latestRisk (fun _ _ => true) (seconds 71) 5 = .allow := by
  have serves := Gateway.after_serves config anyStep
    (stray ++ whole 6 (seconds 71) (.submitRisk screener (opinion .allow)))
    [.work 7 (seconds 71) 99] (.submitRisk screener (opinion .deny)) trivial
  exact ⟨_, serves.reached, serves, by decide +kernel, by decide +kernel, by decide +kernel⟩

end Sample
end CryptoGateway
