import CryptoGateway.Refinement.Steps
import CryptoGateway.Runs

/-!
The history of a transfer's state: an unbroken path of allowed steps from `canonical` to
the current state, whichever verifiers walked it.
-/
namespace CryptoGateway
open Engine

def TransferState.rank : TransferState → Nat
  | .observed => 0
  | .canonical => 1
  | .confirmed => 2
  | .finalized => 3
  | .invalidated => 4

def TransferState.stepsLeft : TransferState → Nat
  | .canonical => 2
  | .confirmed => 1
  | _ => 0

def Db.eventsOf (db : Db) (transferId : Id) (version : Nat) : Option StateEventRow :=
  db.stateEvents.row (transferId, version)

/-- The events have the versions from 1 to the current one and lead from `canonical` to
    the current state, each by an allowed step from where the one before it ended. -/
structure History (events : Nat → Option StateEventRow) (current : StateRow) : Prop where
  versions : ∀ v, (events v).isSome = true ↔ 1 ≤ v ∧ v ≤ current.stateVersion
  first : events 1 = some ⟨none, .canonical⟩
  step : ∀ {v e e'}, events v = some e → events (v + 1) = some e' →
    e'.previousState = some e.newState ∧ e.newState.canTransitionTo e'.newState = true
  last : ∃ e, events current.stateVersion = some e ∧ e.newState = current.state

theorem nextStep_allowed {current target next : TransferState}
    (step : nextStep current target = some next) :
    current.canTransitionTo next = true ∧ current.rank ≤ next.rank ∧
      next.stepsLeft + 1 ≤ current.stepsLeft := by
  cases current <;> cases target <;> cases step <;> decide

section
variable {events : Nat → Option StateEventRow} {current : StateRow} {next target : TransferState}

theorem History.opening : History (fun v => if v = 1 then some ⟨none, .canonical⟩ else none)
    canonicalState where
  versions v := by
    have one : canonicalState.stateVersion = 1 := rfl
    by_cases first : v = 1
    · simp [first, one]
    · simp only [first, if_false, Option.isSome_none, Bool.false_eq_true, one, false_iff]
      omega
  first := rfl
  step {v e e'} one two := by
    by_cases first : v = 1
    · subst first; simp at two
    · simp [first] at one
  last := ⟨_, rfl, rfl⟩

theorem History.absent (history : History events current) :
    events (current.stateVersion + 1) = none := by
  by_contra some_
  have bound := (history.versions _).mp (Option.isSome_iff_ne_none.mpr some_)
  omega

theorem History.move (history : History events current)
    (step : nextStep current.state target = some next) :
    History (fun v => if v = current.stateVersion + 1 then some ⟨some current.state, next⟩
      else events v) ⟨next, current.stateVersion + 1⟩ where
  versions v := by
    by_cases new : v = current.stateVersion + 1
    · simp [new]
    · simp only [new, if_false, history.versions v]
      omega
  first := by
    have stored : 1 ≤ current.stateVersion :=
      ((history.versions 1).mp (by rw [history.first]; rfl)).2
    rw [if_neg (by omega)]
    exact history.first
  step {v e e'} one two := by
    have bound : v ≤ current.stateVersion := by
      by_contra beyond
      by_cases new : v = current.stateVersion + 1
      · subst new
        rw [if_neg (by omega)] at two
        have := (history.versions _).mp (Option.isSome_iff_exists.mpr ⟨e', two⟩)
        omega
      · rw [if_neg new] at one
        have := (history.versions _).mp (Option.isSome_iff_exists.mpr ⟨e, one⟩)
        omega
    rw [if_neg (by omega)] at one
    by_cases new : v = current.stateVersion
    · -- the new event starts where the last one ended
      subst new
      obtain ⟨last, found, state⟩ := history.last
      cases found.symm.trans one
      rw [if_pos rfl] at two
      cases two
      rw [state]
      exact ⟨rfl, (nextStep_allowed step).1⟩
    · rw [if_neg (by omega)] at two
      exact history.step one two
  last := ⟨_, if_pos rfl, rfl⟩

end

def Write.walked : Write → Option Id
  | .insertTransfer id _ => some id
  | .insertTransferState id _ => some id
  | .setTransferState id _ => some id
  | .insertStateEvent id _ _ => some id
  | _ => none

section
variable {config : Config} {log : Log Db Watch} {db : Db} {ws : List Write} {t : Id}

theorem transferStates_untouched (other : ∀ w ∈ ws, w.walked ≠ some t) :
    (applyAll ws db).transferStates.row t = db.transferStates.row t := by
  refine applyAll_same (fun db : Db => db.transferStates.row t) db fun w mem db => ?_
  have ne := other w mem
  cases w with
  | insertTransferState k row => exact Table.row_insert_ne (fun eq => ne (by rw [eq]; rfl)) row
  | setTransferState k row => exact Table.row_modify_ne (fun eq => ne (by rw [eq]; rfl)) _
  | _ => rfl

theorem eventsOf_untouched (other : ∀ w ∈ ws, w.walked ≠ some t) :
    (applyAll ws db).eventsOf t = db.eventsOf t := by
  refine applyAll_same (fun db : Db => db.eventsOf t) db fun w mem db => ?_
  have ne := other w mem
  cases w with
  | insertStateEvent k v row =>
    funext version
    exact Table.row_insert_ne (fun eq => ne (by cases eq; rfl)) row
  | _ => rfl

theorem transfers_untouched (other : ∀ w ∈ ws, w.walked ≠ some t) :
    (applyAll ws db).transfers.row t = db.transfers.row t := by
  refine applyAll_same (fun db : Db => db.transfers.row t) db fun w mem db => ?_
  have ne := other w mem
  cases w with
  | insertTransfer k row => exact Table.row_insert_ne (fun eq => ne (by rw [eq]; rfl)) row
  | _ => rfl

inductive Recorded (db : Db) (t : Id) : Prop where
  | unseen (transfer : db.transfers.row t = none) (state : db.transferStates.row t = none)
      (events : ∀ v, db.eventsOf t v = none)
  | walked {current : StateRow} (state : db.transferStates.row t = some current)
      (history : History (db.eventsOf t) current)

theorem Recorded.untouched (recorded : Recorded db t) (other : ∀ w ∈ ws, w.walked ≠ some t) :
    Recorded (applyAll ws db) t := by
  cases recorded with
  | unseen transfer state events =>
    refine .unseen ((transfers_untouched other).trans transfer)
      ((transferStates_untouched other).trans state) fun v => ?_
    rw [eventsOf_untouched other]
    exact events v
  | walked state history =>
    refine .walked ((transferStates_untouched other).trans state) ?_
    rw [eventsOf_untouched other]
    exact history

structure Ahead (db : Db) (t : Id) (current : StateRow) (later : StateRow) : Prop where
  state : db.transferStates.row t = some later
  rank : current.state.rank ≤ later.state.rank
  version : current.stateVersion ≤ later.stateVersion

theorem Ahead.refl {current : StateRow} (state : db.transferStates.row t = some current) :
    Ahead db t current current := ⟨state, le_rfl, le_rfl⟩

theorem History.writes {target next : TransferState} {current : StateRow}
    (history : History (db.eventsOf t) current)
    (state : db.transferStates.row t = some current)
    (step : nextStep current.state target = some next) :
    let db' := applyAll (StateStep.writes t ⟨current.state, ⟨next, current.stateVersion + 1⟩⟩) db
    db'.transferStates.row t = some ⟨next, current.stateVersion + 1⟩ ∧
      History (db'.eventsOf t) ⟨next, current.stateVersion + 1⟩ := by
  intro db'
  constructor
  · simp [db', StateStep.writes, Write.transferStates, state]
  · have events : db'.eventsOf t = fun v => if v = current.stateVersion + 1 then
        some ⟨some current.state, next⟩ else db.eventsOf t v := by
      funext v
      simp only [db', StateStep.writes, Db.eventsOf, applyAll_cons, applyAll_nil, apply_stateEvents,
        Write.stateEvents]
      rw [Table.row_insert_fresh history.absent]
      simp [Prod.mk.injEq]
    rw [events]
    exact history.move step

theorem History.walk {target : TransferState} {current : StateRow} {steps : List StateStep}
    (walk : Advances target current steps) (state : db.transferStates.row t = some current)
    (history : History (db.eventsOf t) current) :
    ∃ later, Ahead (applyAll (steps.flatMap (·.writes t)) db) t current later ∧
      History ((applyAll (steps.flatMap (·.writes t)) db).eventsOf t) later := by
  induction walk generalizing db with
  | stay => exact ⟨_, .refl state, history⟩
  | move step after ih =>
    obtain ⟨state', history'⟩ := history.writes state step
    obtain ⟨later, ahead, walked⟩ := ih state' history'
    simp only [List.flatMap_cons, applyAll_append]
    refine ⟨later, ⟨ahead.state, ?_, ?_⟩, walked⟩
    · exact (nextStep_allowed step).2.1.trans ahead.rank
    · exact (Nat.le_succ _).trans ahead.version

variable {w : Write}

theorem StateStep.walked_of_mem {steps : List StateStep} {id : Id}
    (mem : w ∈ steps.flatMap (·.writes id)) : w.walked = some id := by
  simp only [List.mem_flatMap, StateStep.writes, List.mem_cons, List.not_mem_nil, or_false] at mem
  obtain ⟨_, _, rfl | rfl⟩ := mem <;> rfl

theorem attestationWrites_walked {attested : List (Id × AttestationRow)}
    (mem : w ∈ attestationWrites attested) : w.walked = none := by
  obtain ⟨_, _, rfl⟩ := List.mem_map.mp mem
  rfl

theorem Write.walked_table (walked : w.walked = some t) : w.table ∈ verifiedTables := by
  cases w with
  | insertTransfer | insertTransferState | setTransferState | insertStateEvent =>
    simp [Write.table, verifiedTables]
  | _ => cases walked

theorem Verification.Sound.started {v : Verification} (sound : v.Sound log db)
    (recorded : Recorded db v.id) :
    let db' := applyAll (v.opening ++ attestationWrites v.attested) db
    db'.transferStates.row v.id = some v.current ∧ History (db'.eventsOf v.id) v.current := by
  have aside : ∀ w ∈ attestationWrites v.attested, w.walked ≠ some v.id := fun w mem => by
    rw [attestationWrites_walked mem]; nofun
  intro db'
  simp only [db', applyAll_append, transferStates_untouched aside, eventsOf_untouched aside]
  cases sound.starts with
  | new opens transfer state _ _ current =>
    cases recorded with
    | walked other => rw [state] at other; cases other
    | unseen _ _ events =>
      rw [current]
      have after : (applyAll v.opening db).eventsOf v.id = fun n =>
          if n = 1 then some ⟨none, .canonical⟩ else none := by
        funext n
        have all : ∀ n, db.stateEvents.row (v.id, n) = none := events
        simp [opening, opens, Db.eventsOf, Write.stateEvents, Table.row_insert, all]
      rw [after]
      refine ⟨?_, .opening⟩
      simp [opening, opens, Write.transferStates, Table.row_insert_fresh state]
  | on found transfer state =>
    have nothing : v.opening = [] := by simp [opening, found]
    rw [nothing]
    refine ⟨state, ?_⟩
    cases recorded with
    | unseen _ absent => rw [absent] at state; cases state
    | walked stored history =>
      cases stored.symm.trans state
      exact history

theorem Verification.opening_walked {v : Verification} (mem : w ∈ v.opening)
    (other : v.id ≠ t) : w.walked ≠ some t := by
  unfold opening at mem
  split at mem
  · cases mem
  · simp only [List.mem_cons, List.not_mem_nil, or_false] at mem
    rcases mem with rfl | rfl | rfl | rfl <;> simp [Write.walked, other]

theorem Verification.writes_walked {v : Verification} (mem : w ∈ v.writes)
    (other : v.id ≠ t) : w.walked ≠ some t := by
  simp only [writes, List.mem_append, List.mem_singleton] at mem
  rcases mem with ((mem | mem) | mem) | rfl
  · exact opening_walked mem other
  · rw [attestationWrites_walked mem]; nofun
  · rw [StateStep.walked_of_mem mem]
    simp [other]
  · nofun

theorem Recorded.keep (recorded : Recorded db t) (eff : Effect config log db ws) :
    Recorded (applyAll ws db) t ∧ ∀ current, db.transferStates.row t = some current →
      ∃ later, Ahead (applyAll ws db) t current later := by
  have frame (other : ∀ w ∈ ws, w.walked ≠ some t) :
      Recorded (applyAll ws db) t ∧ ∀ current, db.transferStates.row t = some current →
        ∃ later, Ahead (applyAll ws db) t current later :=
    ⟨recorded.untouched other, fun current state =>
      ⟨current, .refl ((transferStates_untouched other).trans state)⟩⟩
  rcases eff.verifies_or with ⟨v, sound, rfl⟩ | other
  · by_cases same : v.id = t
    · subst same
      obtain ⟨state, history⟩ := sound.started recorded
      obtain ⟨later, ahead, walked⟩ := history.walk sound.walk state
      have verdict : ∀ w ∈ [Write.putVerdict v.fact.transfer.event v.verdict],
          w.walked ≠ some v.id := by simp [Write.walked]
      have state' := (transferStates_untouched verdict).trans ahead.state
      have split : applyAll v.writes db = applyAll
        [Write.putVerdict v.fact.transfer.event v.verdict]
          (applyAll (v.steps.flatMap (·.writes v.id))
            (applyAll (v.opening ++ attestationWrites v.attested) db)) := by
        simp only [Verification.writes, applyAll_append]
      rw [split]
      refine ⟨.walked state' (by rw [eventsOf_untouched verdict]; exact walked), ?_⟩
      intro current stored
      cases sound.starts with
      | new _ _ absent => rw [absent] at stored; cases stored
      | on _ _ found =>
        cases found.symm.trans stored
        exact ⟨later, state', ahead.rank, ahead.version⟩
    · exact frame fun w mem => v.writes_walked mem same
  · exact frame fun w mem walked => other w mem (w.walked_table walked)

end

def swaps (t : Id) (ws : List Write) : Nat :=
  ws.countP fun | .setTransferState id _ => decide (id = t) | _ => false

section
variable {t : Id} {target : TransferState} {log : Log Db Watch} {ws : List Write}

theorem swaps_append (ws vs : List Write) : swaps t (ws ++ vs) = swaps t ws + swaps t vs :=
  List.countP_append

theorem swaps_eq_zero (other : ∀ w ∈ ws, w.table ≠ .transferStates) : swaps t ws = 0 := by
  refine List.countP_eq_zero.mpr fun w mem => ?_
  have ne := other w mem
  cases w with
  | setTransferState => exact absurd rfl ne
  | _ => simp

theorem Advances.swaps_le {id : Id} {current : StateRow} {steps : List StateStep}
    (walk : Advances target current steps) :
    swaps t (steps.flatMap (·.writes id)) ≤ current.state.stepsLeft := by
  induction walk with
  | stay => exact Nat.zero_le _
  | @move current next rest step after ih =>
    have left := (nextStep_allowed step).2.2
    have one : swaps t (StateStep.writes id ⟨current.state, ⟨next, current.stateVersion + 1⟩⟩) ≤
      1 := by
      by_cases same : id = t <;> simp [swaps, StateStep.writes, same]
    rw [List.flatMap_cons, swaps_append]
    simp only at ih
    omega

theorem stepsLeft_le (state : TransferState) : state.stepsLeft ≤ 2 := by cases state <;> decide

def Left (t : Id) (ws : List Write) (n : Nat) : Prop :=
  ∀ (db : Db) (row : StateRow), (applyAll ws db).transferStates.row t = some row →
    row.state.stepsLeft ≤ n

theorem Left.append {vs : List Write} {n : Nat} (left : Left t ws n)
    (other : ∀ w ∈ vs, w.table ≠ .transferStates) : Left t (ws ++ vs) n := by
  intro db row found
  rw [applyAll_append, transferStates_same other] at found
  exact left db row found

theorem Left.swap {next : StateRow} {n : Nat} (left : next.state.stepsLeft ≤ n) :
    Left t (ws ++ [.setTransferState t next]) n := by
  intro db row found
  simp only [applyAll_append, applyAll_cons, applyAll_nil, apply_transferStates,
    Write.transferStates, Table.row_modify_self, Option.map_eq_some_iff] at found
  obtain ⟨_, _, rfl⟩ := found
  exact left

theorem swapState_cases (t : Id) (current : StateRow) (next : TransferState) (seen newest : Db)
    (grant : Lock Row → Bool) : ((swapState t current next seen newest grant).writes = [] ∧
        (swapState t current next seen newest grant).value = 0) ∨
      ((swapState t current next seen newest grant).writes =
          [.setTransferState t ⟨next, current.stateVersion + 1⟩] ∧
        (swapState t current next seen newest grant).value = 1) := by
  unfold swapState updateOne
  split
  · rename_i row _ found
    obtain ⟨_, same⟩ := Option.filter_eq_some_iff.mp found
    cases of_decide_eq_true same
    exact .inr ⟨rfl, rfl⟩
  · exact .inl ⟨rfl, rfl⟩

theorem advanceState_does (rounds : Nat) {n : Nat} (left : Left t ws n) :
    (advanceState t target rounds).Does (fun _ => True) (fun _ _ => False)
      (fun _ _ ws' => swaps t ws' ≤ swaps t ws + n)
      (fun _ _ ws' => swaps t ws' ≤ swaps t ws + n) log ws := by
  induction rounds generalizing ws n with
  | zero => exact Nat.le_add_right _ _
  | succ rounds ih =>
    unfold advanceState
    refine does_select fun db _ => does_orFail (fun _ => Nat.le_add_right _ _)
      fun current seen => ?_
    have bound := left db current seen
    split
    · exact Nat.le_add_right _ _
    · rename_i next step
      have fewer := (nextStep_allowed step).2.2
      refine does_execute fun seen newest _ _ _ => ?_
      rcases swapState_cases t current next (applyAll ws seen) (applyAll ws newest) _ with
        ⟨writes, value⟩ | ⟨writes, value⟩
      · rw [writes, value, List.append_nil]
        exact Nat.le_add_right _ _
      · rw [writes, value]
        have swapped : swaps t (ws ++ [.setTransferState t ⟨next, current.stateVersion + 1⟩]) =
            swaps t ws + 1 := by simp [swaps]
        have left' : Left t (ws ++ [.setTransferState t ⟨next, current.stateVersion + 1⟩])
            (n - 1) := Left.swap (by simp only; omega)
        -- the event is written to another table
        refine does_orViolation (fun seen newest grant error _ _ failed => ?_)
          fun seen newest grant _ _ _ => ?_
        · split at failed
          · rename_i taken
            rw [if_pos taken]
            simp only [Reply.value, List.append_nil, swapped]
            omega
          · cases failed
        · split
          · simp only [Reply.value, List.append_nil]
            refine (ih left').mono (fun _ _ _ le => ?_) fun _ _ _ le => ?_ <;>
              rw [swapped] at le <;> omega
          · have event : ∀ w ∈ [Write.insertStateEvent t (current.stateVersion + 1)
                ⟨some current.state, next⟩], w.table ≠ .transferStates := by simp [Write.table]
            refine (ih (left'.append event)).mono (fun _ _ _ le => ?_) fun _ _ _ le => ?_ <;>
              rw [swaps_append, swaps_eq_zero event, swapped] at le <;> omega

end

section
variable {config : Config} {allow : Gateway → Event Request → Prop} {s : Gateway}

theorem Reached.recorded (reached : Reached config allow s) (t : Id) : Recorded s.db t :=
  reached.keeps (P := fun db => ∀ t, Recorded db t)
    (fun _ => .unseen rfl rfl fun _ => rfl)
    (fun _ _ _ _ _ _ _ _ eff all t => ((all t).keep eff).1) t

theorem Reached.ahead (reached : Reached config allow s) {t : Id} {current : StateRow}
    (state : s.db.transferStates.row t = some current) {s' : Gateway}
    (later : System.Reach (program config) allow s s') : ∃ last, Ahead s'.db t current last := by
  refine reached.keeps_later (P := fun db => ∃ last, Ahead db t current last)
    ⟨current, .refl state⟩ ?_ later
  rintro s e log ws between _ _ eff ⟨last, ahead⟩
  obtain ⟨next, moved⟩ := ((between.recorded t).keep eff).2 last ahead.state
  exact ⟨next, moved.state, ahead.rank.trans moved.rank, ahead.version.trans moved.version⟩

theorem Verification.swaps_le {v : Verification} {db : Db} {log : Log Db Watch} {t : Id}
    (sound : v.Sound log db) : swaps t v.writes ≤ 2 := by
  have opening : swaps t v.opening = 0 := by
    unfold Verification.opening
    split <;> simp [swaps]
  have attested : swaps t (attestationWrites v.attested) = 0 :=
    swaps_eq_zero fun w mem => by rw [attestationWrites_table mem]; decide
  have walked : swaps t (v.steps.flatMap (·.writes v.id)) ≤ v.current.state.stepsLeft :=
    sound.walk.swaps_le
  have bound := stepsLeft_le v.current.state
  have verdict : swaps t [Write.putVerdict v.fact.transfer.event v.verdict] = 0 := rfl
  rw [Verification.writes, swaps_append, swaps_append, swaps_append]
  omega

theorem Effect.swaps_le {log : Log Db Watch} {db : Db} {ws : List Write} {t : Id}
    (eff : Effect config log db ws) : swaps t ws ≤ 2 := by
  rcases eff.verifies_or with ⟨v, sound, rfl⟩ | other
  · exact v.swaps_le sound
  · rw [swaps_eq_zero fun w mem eq => other w mem (by simp [eq, verifiedTables])]
    exact Nat.zero_le _

/-- In every run the recorded history of a transfer is a legal path to its current state, the state
    never moves back, and no call of `advanceState` swaps it more than twice; a third round always
    leaves the loop. -/
theorem state_history_legal (reached : Reached config allow s) {t : Id} {row : TransferRow}
    (found : s.db.transfers.row t = some row) :
    ∃ current, s.db.transferStates.row t = some current ∧ History (s.db.eventsOf t) current ∧
      (∀ s', System.Reach (program config) allow s s' → ∃ later, Ahead s'.db t current later) ∧
      (∀ (e : Event Request) log ws, s.committing e = some (log, ws) → swaps t ws ≤ 2) ∧
      ∀ target rounds log ws, (advanceState t target rounds).Does (fun _ => True)
        (fun _ _ => False) (fun _ _ ws' => swaps t ws' ≤ swaps t ws + 2)
        (fun _ _ ws' => swaps t ws' ≤ swaps t ws + 2) log ws := by
  cases reached.recorded t with
  | unseen absent => rw [absent] at found; cases found
  | @walked current state history =>
    refine ⟨current, state, history, fun s' later => reached.ahead state later, ?_, ?_⟩
    · exact fun e log ws commits => (reached.effect commits).swaps_le
    · exact fun target rounds log ws =>
        advanceState_does rounds fun db row _ => stepsLeft_le row.state

end

namespace Sample

theorem state_history_legal_settled :
    ∃ s row current, Reached config anyStep s ∧ s.db.transfers.row 6 = some row ∧
      s.db.transferStates.row 6 = some current ∧ current = ⟨.finalized, 3⟩ ∧
      History (s.db.eventsOf 6) current := by
  have reached := Gateway.after_reached config anyStep settled
  obtain ⟨row, found, _⟩ := Option.map_eq_some_iff.mp (by decide +kernel :
    ((Gateway.after config anyStep settled).db.transfers.row 6).map (·.amountRaw) = some 100)
  obtain ⟨current, state, history, _⟩ := state_history_legal reached found
  have final : (Gateway.after config anyStep settled).db.transferStates.row 6 =
      some ⟨.finalized, 3⟩ := by decide +kernel
  exact ⟨_, row, current, reached, found, state, Option.some.inj (state.symm.trans final), history⟩

end Sample
end CryptoGateway
