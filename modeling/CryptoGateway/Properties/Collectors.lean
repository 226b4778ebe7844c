import CryptoGateway.Refinement.Steps
import CryptoGateway.Runs

/-!
Which amounts an address gives out: an amount belongs to one live reservation, and a retired
address has none.
-/
namespace CryptoGateway
open Engine

def Db.Closed (db : Db) (collector : Id) : Prop :=
  ∃ row, db.collectors.row collector = some row ∧ row.state ≠ .active

def Db.Vacant (db : Db) (collector : Id) : Prop :=
  ∀ k lease, db.leases.row k = some lease → lease.collectorAddressId ≠ collector

section
variable {config : Config} {log : Log Db Watch} {db : Db} {ws : List Write} {collector : Id}

theorem Effect.setCollectorState_mem {state : CollectorState} (eff : Effect config log db ws)
    (mem : .setCollectorState collector state ∈ ws) :
    state = .receivingOnly ∨ state = .retired ∧ ws = [.setCollectorState collector .retired] ∧
      (∃ row, db.collectors.row collector = some row) ∧
      ∃ m, log.lookup (.reserved collector) = some m ∧ ∀ k lease, db.leases.row k = some lease →
        lease.collectorAddressId = collector → m.db.leases.row k = some lease := by
  cases eff with
  | stopQuoting =>
    simp at mem
    exact .inl mem.2
  | retire found counted =>
    simp at mem
    obtain ⟨rfl, rfl⟩ := mem
    exact .inr ⟨rfl, rfl, ⟨_, found⟩, counted⟩
  | aside only => exact absurd (only _ mem) (by simp [Write.table, asideTables])
  | pay p => cases p.isDecision_of_mem mem
  | park => cases isDecision_of_mem_park mem
  | _ => simp [Issue.writes, Sweep.writes, Expiry.writes, Sweep.archiveWrites, attestationWrites,
      StateStep.writes] at mem

theorem Db.Closed.keep (closed : db.Closed collector) (eff : Effect config log db ws) :
    (applyAll ws db).Closed collector := by
  refine applyAll_induct (P := fun db : Db => db.Closed collector) closed fun w mem db closed => ?_
  obtain ⟨row, found, left⟩ := closed
  cases w with
  | insertCollector k new => exact ⟨row, Table.row_insert_stored found k new, left⟩
  | setCollectorState k state =>
    by_cases same : collector = k
    · subst same
      refine ⟨{ row with state }, ?_, ?_⟩
      · simp [Write.collectors, Table.row_modify_self, found]
      · rcases eff.setCollectorState_mem mem with rfl | ⟨rfl, _⟩ <;> simp
    · exact ⟨row, (Table.row_modify_ne same _).trans found, left⟩
  | _ => exact ⟨row, found, left⟩

theorem Db.Closed.leases_nothing (closed : db.Closed collector) (eff : Effect config log db ws)
    {k : Id} {lease : LeaseRow} (mem : .insertLease k lease ∈ ws) :
    lease.collectorAddressId ≠ collector := by
  obtain ⟨q, sound, _, _, rfl⟩ := eff.insertLease_mem mem
  rintro rfl
  obtain ⟨row, found, left⟩ := closed
  obtain ⟨row', found', active⟩ := sound.active
  cases found.symm.trans found'
  exact left active

theorem Db.Vacant.keep (vacant : db.Vacant collector) (closed : db.Closed collector)
    (eff : Effect config log db ws) : (applyAll ws db).Vacant collector := by
  intro k lease after
  rcases leases_origin after with old | new
  · exact vacant k lease old
  · exact closed.leases_nothing eff new

theorem forUpdate_writes {ρ : Type} {row : Row} {find : Db → Option ρ} {seen newest : Db}
    {grant : Lock Row → Bool} : (forUpdate row find seen newest grant).writes = [] := by
  unfold forUpdate
  split <;> rfl

theorem retireCollector_does (collector : Id) :
    (retireCollector collector false).Does (fun _ => True)
      (fun log _ => ∃ m, log.lookup (.reserved collector) = some m ∧
        m.db.reservations collector = 0) (fun _ _ _ => True) (fun _ _ _ => True) [] [] := by
  refine Proc.Does.transaction (E := fun _ _ _ => True) ?_ fun _ _ _ _ => trivial
  refine does_execute fun seen newest grant _ _ => ?_
  rw [forUpdate_writes]
  refine does_orFail (fun _ => trivial) fun _ _ => ?_
  refine does_watch fun m _ => ?_
  split
  · trivial
  · rename_i none_
    refine does_execute fun _ _ _ _ _ => ⟨⟨m, by simp, ?_⟩, trivial⟩
    simpa using none_

end

def OneLease (db : Db) : Prop :=
  ∀ {i j lease other}, db.leases.row i = some lease → db.leases.row j = some other →
    lease.collectorAddressId = other.collectorAddressId → lease.amountRaw = other.amountRaw → i = j

theorem OneLease.keep {config : Config} {log : Log Db Watch} {db : Db} {ws : List Write}
    (one : OneLease db) (eff : Effect config log db ws) : OneLease (applyAll ws db) := by
  intro i j lease other first second address amount
  rcases leases_origin first with old | new <;> rcases leases_origin second with old' | new'
  · exact one old old' address amount
  · obtain ⟨q, sound, _, rfl, rfl⟩ := eff.insertLease_mem new'
    exact (sound.freeSlot i lease old ⟨address, amount⟩).elim
  · obtain ⟨q, sound, _, rfl, rfl⟩ := eff.insertLease_mem new
    exact (sound.freeSlot j other old' ⟨address.symm, amount.symm⟩).elim
  · obtain ⟨q, _, rfl, rfl, _⟩ := eff.insertLease_mem new
    simp [Issue.writes] at new'
    exact new'.1.symm

section
variable {config : Config} {allow : Gateway → Event Request → Prop} {s : Gateway}

theorem Reached.oneLease (reached : Reached config allow s) : OneLease s.db :=
  reached.keeps (P := OneLease) nofun fun _ _ _ _ _ _ _ _ eff one => one.keep eff

structure SlotChosen (log : Log Db Watch) (ws : List Write) (quote : QuoteRow) : Prop where
  least : ∃ m slot, log.lookup (slotTag quote.plan) = some m ∧
    quote.amountRaw = quote.plan.baseAmountRaw + slot ∧ slot < quote.plan.amountSlotCount ∧
    ¬m.db.Leased quote.plan.collectorAddressId (quote.plan.baseAmountRaw + slot) ∧
    ∀ t < slot, m.db.Leased quote.plan.collectorAddressId (quote.plan.baseAmountRaw + t)
  leases : ∃ k, .insertLease k (leaseOf quote.plan quote.amountRaw) ∈ ws

/-- In every run a quote takes the least free amount of its address, a request is refused for want
    of amounts only when none was free, and no two live reservations share an address and an
    amount. -/
theorem amount_slot_assignment (reached : Reached config allow s) :
    (∀ (e : Event Request) log ws id row, s.committing e = some (log, ws) →
      .insertQuote id row ∈ ws → SlotChosen log ws row) ∧
    (∀ merchant key input i c, Serves config allow (.issueQuote merchant key input) s i →
      s.sessions[i]? = some c →
      (∀ response, c.code = some (.done response) → Spilled c.log) ∧
      ∀ failure, c.code = some (.fail failure) → Spilled c.log ∧
        (failure = .quote (.repository .amountSlotsExhausted) → AllExhausted c.log) ∧
        (failure = .quote (.repository .collectorUnavailable) →
          ∀ r ∈ slotReads c.log, r.Exhausted)) ∧
    OneLease s.db := by
  refine ⟨fun e log ws id row commits issues => ?_, fun merchant key input i c serves found => ?_,
    reached.oneLease⟩
  · obtain ⟨q, sound, rfl, _, rfl⟩ := (reached.effect commits).insertQuote_mem issues
    obtain ⟨m, slot, looked, chosen, amount⟩ := sound.chosen
    exact ⟨⟨m, slot, looked, amount, freeSlot_eq_some.mp chosen⟩, q.leaseId, by simp [Issue.writes]⟩
  · have lasting : Lasting (contract config) (fun (_ : Response) log _ => Spilled log)
        (fun (failure : Failure) log _ => Spilled log ∧
          (failure = .quote (.repository .amountSlotsExhausted) → AllExhausted log) ∧
          (failure = .quote (.repository .collectorUnavailable) →
            ∀ r ∈ slotReads log, r.Exhausted)) :=
      ⟨fun _ _ => Stable.const _, fun _ _ => Stable.const _⟩
    have assured := serves.assured lasting fun db sane => by
      refine (wp_answer _ _ _ _).mpr (wp_mono
        (issueQuote_spec _ merchant key input sane (P := True) fun _ => rfl) ?_ ?_)
      · exact fun q c done => done.2.2 trivial
      · intro e c failed
        have turned := failed.2 trivial
        exact ⟨turned.spilled, fun same => turned.exhausted (Failure.quote.inj same),
          fun same => turned.unavailable (Failure.quote.inj same)⟩
    exact ⟨fun response code => (assured.of found).done code,
      fun failure code => (assured.of found).fail code⟩

end

namespace Sample

def thirdOrder : List (Slice Request) :=
  opening ++ whole 5 0 (.createIntent 7 (key 'e') (order 'q')) ++
    whole 6 0 (.issueQuote 7 (key 'f') ⟨5, 1⟩) ++ whole 7 0 (.createIntent 7 (key 'g') (order 's'))

theorem amount_slot_assignment_third :
    ∃ s c, Reached config anyStep s ∧ s.sessions[8]? = some c ∧
      c.code = some (.fail (.quote (.repository .amountSlotsExhausted))) ∧ AllExhausted c.log ∧
      OneLease s.db := by
  have reached := Gateway.after_reached config anyStep
    (thirdOrder ++ whole 8 0 (.issueQuote 7 (key 'h') ⟨9, 1⟩))
  have serves : Serves config anyStep (.issueQuote 7 (key 'h') ⟨9, 1⟩) (Gateway.after config anyStep
      (thirdOrder ++ whole 8 0 (.issueQuote 7 (key 'h') ⟨9, 1⟩))) 8 := by
    have last : (Gateway.after config anyStep thirdOrder).sessions.length = 8 := by decide +kernel
    nth_rewrite 2 [← last]
    exact Gateway.after_serves config anyStep thirdOrder _ _ trivial
  obtain ⟨c, found, code⟩ := Gateway.failure_eq_some (by decide +kernel :
    (Gateway.after config anyStep (thirdOrder ++ whole 8 0
      (.issueQuote 7 (key 'h') ⟨9, 1⟩))).failure
      8 = some (.quote (.repository .amountSlotsExhausted)))
  obtain ⟨_, refused, one⟩ := amount_slot_assignment reached
  exact ⟨_, c, reached, found, code,
    ((refused 7 (key 'h') ⟨9, 1⟩ 8 c serves found).2 _ code).2.1 rfl,
    one⟩

end Sample

section
variable {config : Config} {allow : Gateway → Event Request → Prop} {s : Gateway}

/-- In every run no transaction leases an amount on an address that has left the active state, and
    a retirement without a compromised key commits when nothing is reserved on the address, which
    stays so. -/
theorem collector_retirement_safe (reached : Reached config allow s) (collector : Id) :
    (s.db.Closed collector → ∀ s', System.Reach (program config) allow s s' →
      ∀ (e : Event Request) log ws, s'.committing e = some (log, ws) →
        ∀ k lease, .insertLease k lease ∈ ws → lease.collectorAddressId ≠ collector) ∧
    ∀ i log ws, Serves config allow (.retireCollector collector false) s i →
      s.committing (Event.run (Q := Request) i) = some (log, ws) →
      .setCollectorState collector .retired ∈ ws →
      s.db.Vacant collector ∧ ∀ s₁ s₂, allow s (.run i) →
        s.step (program config) (.run i) = some s₁ → System.Reach (program config) allow s₁ s₂ →
        s₂.db.Vacant collector := by
  constructor
  · intro closed s' later e log ws commits k lease mem
    have still : s'.db.Closed collector := reached.keeps_later (P := (·.Closed collector)) closed
      (fun _ _ _ _ _ _ _ eff now => now.keep eff) later
    exact still.leases_nothing ((reached.later later).effect commits) mem
  · intro i log ws serves commits retires
    have eff := reached.effect commits
    obtain ⟨m, counted, none_⟩ := serves.commits (does_answer (retireCollector_does collector)
      (fun _ _ _ _ => trivial) fun _ _ _ _ => trivial) commits
    obtain ⟨rfl, ⟨row, stored⟩, m', counted', same⟩ :
        ws = [.setCollectorState collector .retired] ∧ _ :=
      (eff.setCollectorState_mem retires).resolve_left (by simp) |>.2
    cases counted.symm.trans counted'
    have vacant : s.db.Vacant collector := by
      intro k lease found on
      have there : (k, lease) ∈ m.db.leases.entries.filter (·.2.collectorAddressId = collector) :=
        List.mem_filter.mpr ⟨Table.mem_entries.mpr (same k lease found on), by simpa using on⟩
      rw [List.length_eq_zero_iff.mp none_] at there
      cases there
    refine ⟨vacant, fun s₁ s₂ allowed taken later => ?_⟩
    have closed : (applyAll [Write.setCollectorState collector .retired] s.db).Closed collector :=
      ⟨{ row with state := .retired },
        by simp [Write.collectors, Table.row_modify_self, stored], by simp⟩
    rcases System.step_db taken with ⟨none_, _⟩ | ⟨log', ws', commits', moved⟩
    · rw [commits] at none_
      cases none_
    rw [commits] at commits'
    cases commits'
    have next : Reached config allow s₁ := .step reached taken allowed
    have both := next.keeps_later (P := fun db => db.Closed collector ∧ db.Vacant collector)
      (by rw [moved]; exact ⟨closed, vacant⟩)
      (fun _ _ _ _ _ _ _ eff now => ⟨now.1.keep eff, now.2.keep now.1 eff⟩) later
    exact both.2

end

namespace Sample

def swept : List (Slice Request) := opening ++ whole 5 (seconds 100) (.expireDue 10)

def retired (ws : List Write) : List Id :=
  ws.filterMap fun
    | .setCollectorState id .retired => some id
    | _ => none

def retiring : List (Slice Request) :=
  swept ++ [.start (.retireCollector 0 false), .work 6 (seconds 100) 5]

theorem collector_retirement_safe_swept :
    ∃ s log ws, Reached config anyStep s ∧
      s.committing (Event.run (Q := Request) 6) = some (log, ws) ∧
      .setCollectorState 0 .retired ∈ ws ∧ s.db.Vacant 0 := by
  have reached := Gateway.after_reached config anyStep retiring
  have serves : Serves config anyStep (.retireCollector 0 false)
      (Gateway.after config anyStep retiring) 6 := by
    have last : (Gateway.after config anyStep swept).sessions.length = 6 := by decide +kernel
    rw [← last]
    exact Gateway.after_serves config anyStep swept _ _ trivial
  obtain ⟨⟨log, ws⟩, commits, writes⟩ := Option.map_eq_some_iff.mp (by decide +kernel :
    ((Gateway.after config anyStep retiring).committing (Event.run (Q := Request) 6)).map
      (fun c => retired c.2) = some [0])
  have retires : .setCollectorState 0 .retired ∈ ws := by
    have mem : 0 ∈ retired ws := by rw [show retired ws = [0] from writes]; simp
    obtain ⟨w, mem, found⟩ := List.mem_filterMap.mp mem
    split at found
    · cases found; exact mem
    · cases found
  exact ⟨_, log, ws, reached, commits, retires,
    ((collector_retirement_safe reached 0).2 6 log ws serves commits retires).1⟩

end Sample
end CryptoGateway
