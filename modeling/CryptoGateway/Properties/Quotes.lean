import Mathlib.Data.Int.ConditionallyCompleteOrder
import Mathlib.Order.CompletePartialOrder
import Mathlib.Order.ConditionallyCompleteLattice.Basic
import CryptoGateway.Properties.Collectors

/-!
What a quote promises: an amount nobody else owns meanwhile, on a rail that is open. Both hold in
the runs in which nothing about them changes between a request's reading and its commit.
-/
namespace CryptoGateway
open Engine

def ClockForward (s : Gateway) : Event Request → Prop
  | .tick _ t => s.now ≤ t
  | _ => True

instance (s : Gateway) (e : Event Request) : Decidable (ClockForward s e) :=
  match e with
  | .tick _ t => inferInstanceAs (Decidable (s.now ≤ t))
  | .spawn _ => .isTrue trivial
  | .run _ => .isTrue trivial
  | .abort _ => .isTrue trivial

def leasedSlots (ws : List Write) : List (Id × Nat) :=
  ws.filterMap fun
    | .insertLease _ row => some (row.collectorAddressId, row.amountRaw)
    | _ => none

def ArchiveUnchanged (log : Log Db Watch) (db : Db) (ws : List Write) : Prop :=
  ∀ slot ∈ leasedSlots ws, ∀ e ∈ db.leaseHistory.entries,
    (e.2.collectorAddressId, e.2.amountRaw) = slot →
    (log.lookup .planned).map (·.db.leaseHistory.row e.1) = some (some e.2)

instance (log : Log Db Watch) (db : Db) (ws : List Write) :
    Decidable (ArchiveUnchanged log db ws) :=
  inferInstanceAs (Decidable (∀ slot ∈ leasedSlots ws, ∀ e ∈ db.leaseHistory.entries, _))

def LeasesInOrder (s : Gateway) (e : Event Request) : Prop :=
  ClockForward s e ∧ OnCommit ArchiveUnchanged s e

instance (s : Gateway) (e : Event Request) : Decidable (LeasesInOrder s e) :=
  inferInstanceAs (Decidable (_ ∧ _))

/-- Every archived lease had run out by `now`. -/
def RunOut (db : Db) (now : Int) : Prop :=
  ∀ id row, db.leaseHistory.row id = some row → row.leasedUntil ≤ now

structure Clocked (s : Gateway) : Prop where
  runOut : RunOut s.db s.now
  remembered : s.Remembers fun m => m.now ≤ s.now ∧ RunOut m.db m.now

section
variable {config : Config} {log : Log Db Watch} {db : Db} {ws : List Write}

theorem RunOut.mono {now later : Int} (out : RunOut db now) (le : now ≤ later) :
    RunOut db later := fun id row found => (out id row found).trans le

theorem RunOut.keep {now : Int} (out : RunOut db now) (eff : Effect config log db ws)
    (past : ∀ e ∈ log, e.2.now ≤ now) : RunOut (applyAll ws db) now := by
  intro id row after
  rcases leaseHistory_inserts.origin after with old | new
  · exact out id row old
  · obtain ⟨x, sound, _, lease, listed, rfl⟩ := eff.insertLeaseHistory_mem new
    obtain ⟨m, logged, clock⟩ := sound.clock
    calc lease.leaseUntil ≤ x.at_ := (sound.archived _ listed).2.1
      _ = m.now := clock.symm
      _ ≤ now := past _ logged

theorem Reached.clocked {allow : Gateway → Event Request → Prop} {s : Gateway}
    (forward : ∀ s e, allow s e → ClockForward s e) (reached : Reached config allow s) :
    Clocked s := by
  induction reached with
  | refl =>
    refine ⟨?_, ?_⟩
    · intro _ _ none
      cases none
    · intro _ mem
      cases mem
  | @step s s' e before taken allowed ih =>
    have reached : Reached config allow s := before
    have le : s.now ≤ s'.now := by
      rcases System.step_now taken with same | ⟨i, t, rfl, now⟩
      · exact same.symm.le
      · rw [now]; exact forward s _ allowed
    refine ⟨?_, ?_⟩
    · refine RunOut.mono ?_ le
      rcases System.step_db taken with ⟨_, same⟩ | ⟨log, ws, commits, moved⟩
      · rw [same]; exact ih.runOut
      · rw [moved]
        exact ih.runOut.keep (reached.effect commits)
          fun e mem => (ih.remembered.committing commits e mem).1
    · refine System.Remembers.step (ih.remembered.mono ?_) taken ⟨le, ih.runOut⟩
        ⟨le_rfl, ih.runOut.mono le⟩
      exact fun m held => ⟨held.1.trans le, held.2⟩

structure LeaseOrder (db : Db) : Prop where
  oneLive : ∀ {i j lease other}, db.leases.row i = some lease → db.leases.row j = some other →
    lease.collectorAddressId = other.collectorAddressId → lease.amountRaw = other.amountRaw → i = j
  afterArchived : ∀ {i j lease old}, db.leases.row i = some lease →
    db.leaseHistory.row j = some old → lease.collectorAddressId = old.collectorAddressId →
    lease.amountRaw = old.amountRaw → old.leasedUntil ≤ lease.leasedFrom
  archived : ∀ {i j old other}, db.leaseHistory.row i = some old →
    db.leaseHistory.row j = some other → i ≠ j →
    old.collectorAddressId = other.collectorAddressId → old.amountRaw = other.amountRaw →
    old.leasedUntil ≤ other.leasedFrom ∨ other.leasedUntil ≤ old.leasedFrom

theorem LeaseOrder.empty : LeaseOrder {} where
  oneLive found := by cases found
  afterArchived found := by cases found
  archived found := by cases found

theorem leases_none_of_deleted {id : Id} (mem : .deleteLease id ∈ ws)
    (never : ∀ row, .insertLease id row ∉ ws) : (applyAll ws db).leases.row id = none := by
  obtain ⟨first, last, rfl⟩ := List.append_of_mem mem
  rw [applyAll_append, applyAll_cons]
  refine applyAll_induct (P := fun db : Db => db.leases.row id = none) ?_ ?_
  · simp [Write.leases, Table.row_erase]
  · intro w inLast db gone
    cases w with
    | insertLease k row =>
      have ne : id ≠ k := by
        rintro rfl
        exact never row (by simp [inLast])
      exact (Table.row_insert_ne ne row).trans gone
    | deleteLease k =>
      simp only [apply_leases, Write.leases, Table.row_erase]
      split
      · rfl
      · exact gone
    | _ => exact gone

theorem Sweep.archived_gone {x : Sweep} {id : Id} {lease : LeaseRow}
    (listed : (id, lease) ∈ x.archived) : (applyAll x.writes db).leases.row id = none := by
  refine leases_none_of_deleted ?_ fun row mem => ?_
  · refine List.mem_append_right _ (List.mem_flatMap.mpr ⟨(id, lease), listed, ?_⟩)
    simp [Sweep.archiveWrites]
  · simp [Sweep.writes, Expiry.writes, Sweep.archiveWrites] at mem

theorem LeaseOrder.none_after_archive (order : LeaseOrder db) {x : Sweep} (sound : x.Sound log db)
    {i j : Id} {lease live : LeaseRow} (listed : (j, lease) ∈ x.archived)
    (after : (applyAll x.writes db).leases.row i = some live)
    (address : live.collectorAddressId = lease.collectorAddressId)
    (amount : live.amountRaw = lease.amountRaw) : False := by
  have old : db.leases.row i = some live := by
    rcases leases_origin after with old | new
    · exact old
    · simp [Sweep.writes, Expiry.writes, Sweep.archiveWrites] at new
  cases order.oneLive old (sound.archived _ listed).1 address amount
  cases (Sweep.archived_gone listed).symm.trans after

theorem LeaseOrder.keep (order : LeaseOrder db) (eff : Effect config log db ws)
    (ended : ∀ q : Issue, q.Sound log db → ws = q.writes → ∀ id row,
      db.leaseHistory.row id = some row → row.collectorAddressId = q.plan.collectorAddressId →
      row.amountRaw = q.amountRaw → row.leasedUntil ≤ q.plan.createdAt) :
    LeaseOrder (applyAll ws db) := by
  constructor
  · exact OneLease.keep order.oneLive eff
  · intro i j lease old first second address amount
    rcases leaseHistory_inserts.origin second with before | archived
    · rcases leases_origin first with kept | new
      · exact order.afterArchived kept before address amount
      · obtain ⟨q, sound, eq, _, rfl⟩ := eff.insertLease_mem new
        exact ended q sound eq j old before address.symm amount.symm
    · obtain ⟨x, sound, rfl, gone, listed, rfl⟩ := eff.insertLeaseHistory_mem archived
      exact (order.none_after_archive sound listed first address amount).elim
  · intro i j old other first second ne address amount
    rcases leaseHistory_inserts.origin first with before | archived <;>
      rcases leaseHistory_inserts.origin second with before' | archived'
    · exact order.archived before before' ne address amount
    · obtain ⟨x, sound, _, lease, listed, rfl⟩ := eff.insertLeaseHistory_mem archived'
      exact .inl (order.afterArchived (sound.archived _ listed).1 before address.symm amount.symm)
    · obtain ⟨x, sound, _, lease, listed, rfl⟩ := eff.insertLeaseHistory_mem archived
      exact .inr (order.afterArchived (sound.archived _ listed).1 before' address amount)
    · -- both were live at once, so they are one
      obtain ⟨x, sound, rfl, lease, listed, rfl⟩ := eff.insertLeaseHistory_mem archived
      obtain ⟨x', sound', _, lease', listed', rfl⟩ := eff.insertLeaseHistory_mem archived'
      exact absurd (order.oneLive (sound.archived _ listed).1 (sound'.archived _ listed').1
        address amount) ne

theorem ArchiveUnchanged.ended (unchanged : ArchiveUnchanged log db ws)
    (remembered : ∀ e ∈ log, RunOut e.2.db e.2.now) (q : Issue) (sound : q.Sound log db)
    (eq : ws = q.writes) (id : Id) (row : LeaseHistoryRow)
    (found : db.leaseHistory.row id = some row)
    (address : row.collectorAddressId = q.plan.collectorAddressId)
    (amount : row.amountRaw = q.amountRaw) : row.leasedUntil ≤ q.plan.createdAt := by
  obtain ⟨m, looked, clock⟩ := sound.planned
  have slot : (q.plan.collectorAddressId, q.amountRaw) ∈ leasedSlots ws :=
    List.mem_filterMap.mpr ⟨.insertLease q.leaseId (leaseOf q.plan q.amountRaw),
      by simp [eq, Issue.writes], rfl⟩
  have known := unchanged _ slot (id, row) (Table.mem_entries.mpr found) (by rw [address, amount])
  rw [looked, Option.map_some, Option.some.injEq] at known
  obtain ⟨before, after, rfl, _⟩ := List.lookup_eq_some_iff.mp looked
  rw [clock]
  exact remembered (.planned, m) (by simp) id row known

def Db.leaseWindow (db : Db) : Id ⊕ Id → Option Window
  | .inl id => (db.leases.row id).map LeaseRow.window
  | .inr id => (db.leaseHistory.row id).map LeaseHistoryRow.window

theorem LeaseOrder.apart (order : LeaseOrder db) {h k : Id ⊕ Id} {v w : Window} (ne : h ≠ k)
    (first : db.leaseWindow h = some v) (second : db.leaseWindow k = some w)
    (address : v.collectorAddressId = w.collectorAddressId) (amount : v.amountRaw = w.amountRaw) :
    v.leasedUntil ≤ w.leasedFrom ∨ w.leasedUntil ≤ v.leasedFrom := by
  cases h with
  | inl i =>
    obtain ⟨lease, found, rfl⟩ := Option.map_eq_some_iff.mp first
    cases k with
    | inl j =>
      obtain ⟨other, found', rfl⟩ := Option.map_eq_some_iff.mp second
      exact absurd (congrArg Sum.inl (order.oneLive found found' address amount)) ne
    | inr j =>
      obtain ⟨old, found', rfl⟩ := Option.map_eq_some_iff.mp second
      exact .inr (order.afterArchived found found' address amount)
  | inr i =>
    obtain ⟨old, found, rfl⟩ := Option.map_eq_some_iff.mp first
    cases k with
    | inl j =>
      obtain ⟨lease, found', rfl⟩ := Option.map_eq_some_iff.mp second
      exact .inl (order.afterArchived found' found address.symm amount.symm)
    | inr j =>
      obtain ⟨other, found', rfl⟩ := Option.map_eq_some_iff.mp second
      exact order.archived found found' (fun same => ne (congrArg Sum.inr same)) address amount

/-- In every run on one forward clock in which no lease of a slot is archived between
    a request's clock reading and its commit, the windows of all live and archived
    leases of one amount on one address are pairwise disjoint. -/
theorem lease_windows_disjoint {s : Gateway} (reached : Reached config LeasesInOrder s)
    {h k : Id ⊕ Id} {v w : Window} (ne : h ≠ k) (first : s.db.leaseWindow h = some v)
    (second : s.db.leaseWindow k = some w)
    (address : v.collectorAddressId = w.collectorAddressId) (amount : v.amountRaw = w.amountRaw) :
    Disjoint (Set.Ico v.leasedFrom v.leasedUntil) (Set.Ico w.leasedFrom w.leasedUntil) := by
  have order : LeaseOrder s.db := by
    refine reached.keeps LeaseOrder.empty ?_
    intro s e log ws before allowed commits _ eff order
    have clocked := before.clocked fun _ _ ok => ok.1
    exact order.keep eff ((allowed.2 log ws commits).ended
      fun e mem => (clocked.remembered.committing commits e mem).2)
  refine Set.disjoint_left.mpr fun t inFirst inSecond => ?_
  have bounds := order.apart ne first second address amount
  have inV := Set.mem_Ico.mp inFirst
  have inW := Set.mem_Ico.mp inSecond
  omega

end

namespace Sample

def leasedAgain : List (Slice Request) :=
  opening ++ whole 5 0 (.createIntent 7 (key 'e') (order 'q')) ++
    whole 6 (seconds 100) (.expireDue 10) ++
    whole 7 (seconds 101) (.issueQuote 7 (key 'f') ⟨5, 1⟩)

theorem lease_windows_disjoint_leasedAgain :
    ∃ s v w, Reached config LeasesInOrder s ∧ s.db.leaseWindow (.inr 4) = some v ∧
      s.db.leaseWindow (.inl 8) = some w ∧ v.collectorAddressId = w.collectorAddressId ∧
      v.amountRaw = w.amountRaw ∧
      Disjoint (Set.Ico v.leasedFrom v.leasedUntil) (Set.Ico w.leasedFrom w.leasedUntil) := by
  have reached := Gateway.after_reached config LeasesInOrder leasedAgain
  have archived : (Gateway.after config LeasesInOrder leasedAgain).db.leaseWindow (.inr 4) =
      some ⟨0, 100, 3, 0, seconds 100⟩ := by decide +kernel
  have live : (Gateway.after config LeasesInOrder leasedAgain).db.leaseWindow (.inl 8) =
      some ⟨0, 100, 7, seconds 101, seconds 201⟩ := by decide +kernel
  exact ⟨_, _, _, reached, archived, live, rfl, rfl,
    lease_windows_disjoint reached (by decide) archived live rfl rfl⟩

def staleClock : List (Slice Request) :=
  opening ++ whole 5 0 (.createIntent 7 (key 'e') (order 'q')) ++
    [.start (.issueQuote 7 (key 'f') ⟨5, 1⟩), .work 6 (seconds 90) 8] ++
    whole 7 (seconds 100) (.expireDue 10) ++ [.work 6 (seconds 100) 99]

theorem staleClock_overlaps :
    Reached config ClockForward (Gateway.after config ClockForward staleClock) ∧
      (Gateway.after config ClockForward staleClock).db.leaseWindow (.inr 4) =
        some ⟨0, 100, 3, 0, seconds 100⟩ ∧
      (Gateway.after config ClockForward staleClock).db.leaseWindow (.inl 8) =
        some ⟨0, 100, 7, seconds 90, seconds 190⟩ :=
  ⟨Gateway.after_reached _ _ _, by decide +kernel, by decide +kernel⟩

end Sample

def quotedAssets (ws : List Write) : List Id :=
  ws.filterMap fun
    | .insertQuote _ row => some row.plan.assetId
    | _ => none

def StopUnchanged (log : Log Db Watch) (db : Db) (ws : List Write) : Prop :=
  ∀ asset ∈ quotedAssets ws, ∀ e ∈ log, e.1 = .railStop asset →
    e.2.db.openRailStop asset = db.openRailStop asset

instance (log : Log Db Watch) (db : Db) (ws : List Write) : Decidable (StopUnchanged log db ws) :=
  inferInstanceAs (Decidable (∀ asset ∈ quotedAssets ws, ∀ e ∈ log, _))

structure IssuesNothing (ws : List Write) (asset : Id) (db : Db) : Prop where
  noQuote : ∀ id row, .insertQuote id row ∈ ws → row.plan.assetId ≠ asset
  noAttempt : ∀ id row, .insertAttempt id row ∈ ws →
    db.collectorAsset row.collectorAddressId ≠ some asset
  noLease : ∀ id row, .insertLease id row ∈ ws →
    db.collectorAsset row.collectorAddressId ≠ some asset

section
variable {config : Config} {log : Log Db Watch} {db : Db} {ws : List Write}

theorem Issue.Sound.rail_open {q : Issue} (sound : q.Sound log db)
    (unchanged : StopUnchanged log db q.writes) : db.openRailStop q.plan.assetId = none := by
  obtain ⟨m, logged, none⟩ := sound.railOpen
  have quoted : q.plan.assetId ∈ quotedAssets q.writes :=
    List.mem_filterMap.mpr ⟨.insertQuote q.plan.quoteId { plan := q.plan, amountRaw :=
      q.amountRaw },
      by simp [Issue.writes], rfl⟩
  rw [← unchanged _ quoted _ logged rfl]
  exact none

theorem Issue.Sound.collectorAsset {q : Issue} (sound : q.Sound log db) :
    db.collectorAsset q.plan.collectorAddressId = some q.plan.assetId := by
  obtain ⟨row, found, asset⟩ := sound.collector
  simp [Db.collectorAsset, found, asset]

theorem Effect.issuesNothing (eff : Effect config log db ws) (unchanged : StopUnchanged log db ws)
    {asset : Id} (stopped : (db.openRailStop asset).isSome = true) : IssuesNothing ws asset db := by
  have closed : ∀ q : Issue, q.Sound log db → ws = q.writes → q.plan.assetId ≠ asset := by
    rintro q sound rfl rfl
    rw [sound.rail_open unchanged] at stopped
    cases stopped
  constructor
  · intro id row mem
    obtain ⟨q, sound, eq, _, rfl⟩ := eff.insertQuote_mem mem
    exact closed q sound eq
  · intro id row mem of
    obtain ⟨q, sound, eq, _, rfl⟩ := eff.insertAttempt_mem mem
    exact closed q sound eq (Option.some.inj (sound.collectorAsset.symm.trans of))
  · intro id row mem of
    obtain ⟨q, sound, eq, _, rfl⟩ := eff.insertLease_mem mem
    exact closed q sound eq (Option.some.inj (sound.collectorAsset.symm.trans of))

/-- In every run in which a rail's stop does not change between a request's context
    read and its commit, nothing is issued for an asset while its stop is open. -/
theorem stopped_rail_issues_nothing {s : Gateway}
    (reached : Reached config (OnCommit StopUnchanged) s) {e : Event Request}
    (allowed : OnCommit StopUnchanged s e) (commits : s.committing e = some (log, ws))
    {asset : Id} (stopped : (s.db.openRailStop asset).isSome = true) :
    IssuesNothing ws asset s.db :=
  (reached.effect commits).issuesNothing (allowed log ws commits) stopped

end

namespace Sample

def createWhileStopped : List (Slice Request) :=
  opening ++ whole 5 0 (.openRailStop (operator 9) 1 ['x']) ++
    [.start (.createIntent 7 (key 'e') (order 'q')), .work 6 0 5]

theorem stopped_rail_issues_nothing_create :
    ∃ s log ws, Reached config (OnCommit StopUnchanged) s ∧
      s.committing (Event.run (Q := Request) 6) = some (log, ws) ∧
      (s.db.openRailStop 1).isSome = true ∧ IssuesNothing ws 1 s.db := by
  have reached := Gateway.after_reached config (OnCommit StopUnchanged) createWhileStopped
  obtain ⟨⟨log, ws⟩, commits⟩ := Option.isSome_iff_exists.mp (by decide +kernel :
    ((Gateway.after config (OnCommit StopUnchanged) createWhileStopped).committing
      (Event.run (Q := Request) 6)).isSome = true)
  have stopped : ((Gateway.after config (OnCommit StopUnchanged) createWhileStopped).db.openRailStop
      1).isSome = true := by decide +kernel
  exact ⟨_, log, ws, reached, commits, stopped,
    stopped_rail_issues_nothing reached (by decide +kernel) commits stopped⟩

def stopOverlooked : List (Slice Request) :=
  opening ++ whole 5 0 (.createIntent 7 (key 'e') (order 'q')) ++
    [.start (.issueQuote 7 (key 'f') ⟨5, 1⟩), .work 6 0 8] ++
    whole 7 0 (.openRailStop (operator 9) 1 ['x']) ++ [.work 6 0 17]

theorem stopOverlooked_issues :
    Reached config anyStep (Gateway.after config anyStep stopOverlooked) ∧
      ((Gateway.after config anyStep stopOverlooked).db.openRailStop 1).isSome = true ∧
      ((Gateway.after config anyStep stopOverlooked).committing (Event.run (Q := Request) 6)).map
        (fun c => quotedAssets c.2) = some [1] :=
  ⟨Gateway.after_reached _ _ _, by decide +kernel, by decide +kernel⟩

end Sample
end CryptoGateway
