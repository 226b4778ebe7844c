import CryptoGateway.Webhooks.Holders
import Mathlib.Data.List.Pairwise

/-!
The order in which a pass attempts one merchant's events: that of the batch, which is the queue's
when the database returns the rows in it.
-/
namespace CryptoGateway.Webhooks
open Engine

def Db.queuedBefore (db : Db) (a b : OutboxEvent) : Bool :=
  match db.events.row a.id, db.events.row b.id with
  | some rowA, some rowB => Webhooks.queuedBefore (a.id, rowA) (b.id, rowB)
  | _, _ => false

def Db.InOrder (db : Db) (batch : List OutboxEvent) : Prop :=
  ∀ merchant, (batch.filter fun e => e.merchantId = merchant).Pairwise (db.queuedBefore · ·)

/-- Of two rows of one merchant, the one that the database returns first is queued first. -/
def Db.Returns (db : Db) (order : RowOrder Id) (ids : List Id) : Prop :=
  ∀ a ∈ ids, ∀ b ∈ ids, a ≠ b → order a b = true → ∀ rowA ∈ db.events.row a,
    ∀ rowB ∈ db.events.row b, rowA.merchantId = rowB.merchantId →
      Webhooks.queuedBefore (a, rowA) (b, rowB) = true

theorem pairwise_insertionSort_iff {α : Type} {r S : α → α → Prop} [DecidableRel r]
    [IsLinearOrder α r] {l : List α} (distinct : l.Nodup) :
    (l.insertionSort r).Pairwise S ↔ ∀ a ∈ l, ∀ b ∈ l, a ≠ b → r a b → S a b := by
  have sorted : (l.insertionSort r).Pairwise fun a b => r a b ∧ a ≠ b :=
    (List.pairwise_insertionSort r l).and ((List.perm_insertionSort r l).nodup_iff.mpr distinct)
  constructor
  · intro all
    let R := fun a b => (r a b → S a b) ∧ (r b a → S b a)
    have symmetric : Std.Symm R := ⟨fun a b both => both.symm⟩
    have both : (l.insertionSort r).Pairwise R := (sorted.and all).imp fun pair =>
      ⟨fun _ => pair.2, fun back => absurd (antisymm pair.1.1 back) pair.1.2⟩
    intro a inA b inB apart before
    exact (both.forall ((List.perm_insertionSort r l).mem_iff.mpr inA)
      ((List.perm_insertionSort r l).mem_iff.mpr inB) apart).1 before
  · intro all
    refine List.Pairwise.imp_of_mem (fun inA inB pair => ?_) sorted
    exact all _ ((List.perm_insertionSort r l).mem_iff.mp inA) _
      ((List.perm_insertionSort r l).mem_iff.mp inB) pair.2 pair.1

theorem inOrder_claimDue {order : RowOrder Id} [IsLinearOrder Id (order · ·)] {call : ClaimCall}
    {seen newest : Db} {grant : Lock Row → Bool} :
    newest.InOrder (claimDue order call seen newest grant).value ↔
      newest.Returns order ((picked call seen newest grant).map (·.1)) := by
  simp only [Db.InOrder, Db.Returns, claimDue_batch, List.pairwise_filter, List.pairwise_filterMap,
    pairwise_insertionSort_iff picked_keys_nodup, Option.map_eq_some_iff, Option.mem_def,
    decide_eq_true_eq]
  constructor
  · intro all a inA b inB apart before rowA isA rowB isB same
    have queued := all rowA.merchantId a inA b inB apart before _ ⟨rowA, isA, rfl⟩ _
      ⟨rowB, isB, rfl⟩ rfl same.symm
    simpa [Db.queuedBefore, EventRow.toOutboxEvent, isA, isB] using queued
  · rintro all merchant a inA b inB apart before _ ⟨rowA, isA, rfl⟩ _ ⟨rowB, isB, rfl⟩ ofA ofB
    have queued := all a inA b inB apart before rowA isA rowB isB (ofA.trans ofB.symm)
    simpa [Db.queuedBefore, EventRow.toOutboxEvent, isA, isB] using queued

section Turns
variable {config : Config} {c : Worker} {batch : List OutboxEvent} {m : Moment Db}
  {log : Log Db Watch} {call : Call}

theorem claimedEvents_eq (conducted : c.Conducted (Move config)) (part : log <:+ c.log)
    (claimed : [(.claimed batch, m)] <:+ log) : claimedEvents log = batch := by
  induction log with
  | nil => simp at claimed
  | cons entry rest ih =>
    rcases List.suffix_cons_iff.mp claimed with same | later
    · obtain ⟨rfl, rfl⟩ := List.cons.inj same
      simp [claimedEvents, Watch.batch]
    · have tail := ih ((List.suffix_cons _ _).trans part) later
      obtain ⟨newer, split⟩ := part
      obtain ⟨tag, m'⟩ := entry
      obtain ⟨ws, new, may⟩ := conducted.log newer tag m' rest split.symm
      have none : tag.batch = [] := by
        cases may with
        | claimed => simp at later
        | share merchant move => cases move <;> rfl
      rw [← tail]
      simp [claimedEvents, none]

variable {newer older : Log Db Watch}

theorem conducted_call (conducted : c.Conducted (Move config))
    (split : c.log = newer ++ (.called call, m) :: older) :
    Calls config ((claimedEvents older).filter fun e => e.merchantId = call.event.merchantId)
      (shareOf older call.event.merchantId) call := by
  obtain ⟨ws, new, may⟩ := conducted.log newer _ m older split
  cases may with
  | share merchant move =>
    cases move with
    | called made =>
      obtain ⟨done, rest, queue, _⟩ := made.turn
      have listed : call.event ∈ (claimedEvents older).filter fun e => e.merchantId = merchant := by
        simp [queue]
      obtain rfl := of_decide_eq_true (List.mem_filter.mp listed).2
      exact made

theorem closings_grow {log' : Log Db Watch} (suffix : log <:+ log') :
    closings log ⊆ closings log' :=
  (suffix.sublist.filterMap _).subset

theorem earlier_call {db : Db} (conducted : c.Conducted (Move config)) {middle : Log Db Watch}
    {m' : Moment Db} {call' : Call}
    (split : c.log = newer ++ (.called call, m) :: (middle ++ (.called call', m') :: older))
    (first : claimedEvents older = batch)
    (second : claimedEvents (middle ++ (.called call', m') :: older) = batch)
    (ordered : db.InOrder batch) (same : call'.event.merchantId = call.event.merchantId) :
    call'.event = call.event ∨ db.queuedBefore call'.event call.event = true := by
  have later := conducted_call conducted split
  have split' : c.log = (newer ++ (.called call, m) :: middle) ++ (.called call', m') :: older := by
    rw [split, List.append_assoc]
    rfl
  have earlier := conducted_call conducted split'
  rw [first, same] at earlier
  rw [second] at later
  obtain ⟨done, rest, queue, closed⟩ := earlier.turn
  obtain ⟨before, after, queue', _⟩ := later.turn
  have listed : call.event ∈ done ++ call'.event :: rest := by
    rw [← queue, queue']
    simp
  have order := ordered call.event.merchantId
  rw [queue, List.pairwise_append] at order
  rcases List.mem_append.mp listed with ahead | here
  · -- it was closed before the earlier call, so it is not called after it
    have gone := (mem_closings_shareOf rfl).mp (closed ahead)
    refine absurd ((mem_closings_shareOf rfl).mpr (closings_grow ?_ gone)) later.unclosed
    exact (List.suffix_cons _ _).trans (List.suffix_append _ _)
  · rcases List.mem_cons.mp here with eq | behind
    · exact .inl eq.symm
    · exact .inr ((List.pairwise_cons.mp order.2.1).1 _ behind)

theorem claimed_below (claimed : [(Watch.claimed batch, m)] <:+ c.log)
    {m' : Moment Db} (split : c.log = newer ++ (.called call, m') :: older) :
    [(Watch.claimed batch, m)] <:+ older ∧ older <:+ c.log := by
  have part : (.called call, m') :: older <:+ c.log := ⟨newer, split.symm⟩
  have below := List.suffix_of_suffix_length_le claimed part (by simp)
  refine ⟨?_, (List.suffix_cons _ _).trans part⟩
  rcases List.suffix_cons_iff.mp below with same | later
  · cases same
  · exact later

theorem calls_inOrder {db : Db} (conducted : c.Conducted (Move config))
    (claimed : [(.claimed batch, m)] <:+ c.log) (ordered : db.InOrder batch) :
    (calls c.log).Pairwise fun later earlier => earlier.event.merchantId = later.event.merchantId →
        earlier.event = later.event ∨ db.queuedBefore earlier.event later.event = true := by
  refine List.pairwise_filterMap.mpr (pairwise_of_split ?_)
  rintro newer ⟨tag, m₁⟩ middle ⟨tag', m₂⟩ older split later isLater earlier isEarlier same
  cases tag <;> cases isLater
  cases tag' <;> cases isEarlier
  have second := claimed_below claimed split
  have split' : c.log = (newer ++ (.called later, m₁) :: middle) ++ (.called earlier, m₂)
    :: older := by
    rw [split, List.append_assoc]
    rfl
  have first := claimed_below claimed split'
  exact earlier_call conducted split (claimedEvents_eq conducted first.2 first.1)
    (claimedEvents_eq conducted second.2 second.1) ordered same

end Turns

/-- A claim hands the worker each merchant's rows in the order of the queue just when the
    database returns the rows that the claim picks in that order; then the worker attempts
    each merchant's events in it. -/
theorem calls_in_queue_order (config : Config) (db : Db) {allow : Outbox → Event Request → Prop}
    {s₀ s₁ s : Outbox} {i : Nat} {m : Moment Db} {ws : List Write} {c : Worker}
    {order : RowOrder Id} [IsLinearOrder Id (order · ·)] {call : ClaimCall} {seen newest : Db}
    {grant : Lock Row → Bool} (reached : (outbox config db).Reached allow s₀)
    (claims : s₀.committing (Event.run (Q := Request) i) =
      some ([(.claimed (claimDue order call seen newest grant).value, m)], ws))
    (allowed : allow s₀ (.run i)) (taken : s₀.step (program config) (.run i) = some s₁)
    (later : System.Reach (program config) allow s₁ s) (found : s.sessions[i]? = some c) :
    (newest.InOrder (claimDue order call seen newest grant).value ↔
      newest.Returns order ((picked call seen newest grant).map (·.1))) ∧
    (newest.Returns order ((picked call seen newest grant).map (·.1)) →
      (calls c.log).Pairwise fun later earlier =>
        earlier.event.merchantId = later.event.merchantId → earlier.event = later.event ∨
          newest.queuedBefore earlier.event later.event = true) := by
  obtain ⟨_, c₁, ⟨⟩, found₁, log, _⟩ :=
    (System.step_turn (reached.acting (program_acts config) rfl) taken).after_commit claims
  obtain ⟨c', there, suffix⟩ := System.Reach.remembers found₁ later
  cases there.symm.trans found
  have end_ : (outbox config db).Reached allow s := .trans (.step reached taken allowed) later
  refine ⟨inOrder_claimDue, fun returns => ?_⟩
  exact calls_inOrder (end_.conducted (program_acts config) rfl found) (log ▸ suffix)
    (inOrder_claimDue.mpr returns)

namespace Sample

def twoEvents : List (Slice Request) :=
  published ++ whole 1 (seconds 5) (.publish .webhook (some 1) [] [] 0 []) ++
    whole 2 (seconds 5) (.addEndpoint ['a'] 1 "https://m".toList)

def younger : OutboxEvent := { claimed with id := 1, createdAt := seconds 5 }

def claimingWith (order : RowOrder Id) : List (Slice Request) :=
  twoEvents ++ [.start (.deliverDue 2 { order }), .work 3 (seconds 10) 4]

theorem committing_batch {s : Outbox} {i : Nat} (batch : List OutboxEvent)
    (commits : (s.committing (Event.run (Q := Request) i)).any
      (fun c => decide (c.1.map (·.1) = [.claimed batch])) = true) :
    ∃ m ws, s.committing (Event.run (Q := Request) i) = some ([(.claimed batch, m)], ws) := by
  obtain ⟨log, ws, found, tags⟩ := System.committing_any commits
  obtain ⟨⟨tag, m⟩, rfl, rfl⟩ := List.map_eq_singleton_iff.mp (of_decide_eq_true tags)
  exact ⟨m, ws, found⟩

def handed (order : RowOrder Id) : List (Slice Request) :=
  claimingWith order ++ [.work 3 (seconds 10) 1]

def attempted (order : RowOrder Id) : Outbox :=
  (outbox config).after anyStep (handed order ++ [.work 3 (seconds 10) 99])

/-- The rows come back the other way round, and the worker sends the younger event first. -/
theorem calls_out_of_order : ∃ (s₀ s₁ s : Outbox) (batch : List OutboxEvent) (m : Moment Db)
    (ws : List Write) (c : Worker), (outbox config).Reached anyStep s₀ ∧
    s₀.committing (Event.run (Q := Request) 3) = some ([(.claimed batch, m)], ws) ∧
    s₀.step (program config) (.run 3) = some s₁ ∧ System.Reach (program config) anyStep s₁ s ∧
    s.sessions[3]? = some c ∧
    ¬(calls c.log).Pairwise fun later earlier =>
      earlier.event.merchantId = later.event.merchantId → earlier.event = later.event ∨
        s₀.db.queuedBefore earlier.event later.event = true := by
  let back : RowOrder Id := fun a b => decide (b ≤ a)
  obtain ⟨m, ws, commits⟩ := committing_batch [younger, claimed]
    (s := (outbox config).after anyStep (claimingWith back)) (i := 3) (by decide +kernel)
  have crossed : (attempted back).sessions[3]?.any (fun c => decide ¬(calls c.log).Pairwise
      fun later earlier => earlier.event.merchantId = later.event.merchantId →
        earlier.event = later.event ∨ ((outbox config).after anyStep
          (claimingWith back)).db.queuedBefore earlier.event later.event = true) = true := by
    decide +kernel
  obtain ⟨c, found, wrong⟩ := any_some crossed
  exact ⟨_, _, _, _, m, ws, c, (outbox config).after_reached anyStep (claimingWith back), commits,
    (outbox config).after_run anyStep _ (seconds 10) trivial (by decide +kernel),
    (outbox config).after_later anyStep (handed back) _, found, of_decide_eq_true wrong⟩

def queueOrder : RowOrder Id := fun a b => decide (a ≤ b)

instance : IsLinearOrder Id (queueOrder · ·) where
  refl := by simp [queueOrder]
  trans a b c := by simpa [queueOrder] using Nat.le_trans
  antisymm a b := by simpa [queueOrder] using Nat.le_antisymm
  total a b := by simpa [queueOrder] using Nat.le_total a b

def ahead : Db := ((outbox config).after anyStep (claimingWith queueOrder)).db

def claimCall : ClaimCall := ⟨[], 2, 2, 300, seconds 10⟩

theorem calls_in_queue_order_two : ∃ c : Worker,
    (attempted queueOrder).sessions[3]? = some c ∧ (calls c.log).length = 2 ∧
    (calls c.log).Pairwise fun later earlier =>
      earlier.event.merchantId = later.event.merchantId → earlier.event = later.event ∨
        ahead.queuedBefore earlier.event later.event = true := by
  obtain ⟨m, ws, commits⟩ := committing_batch
    (claimDue queueOrder claimCall ahead ahead fun _ => true).value
    (s := (outbox config).after anyStep (claimingWith queueOrder)) (i := 3) (by decide +kernel)
  have two : (attempted queueOrder).sessions[3]?.any
      (fun c => decide ((calls c.log).length = 2)) = true := by decide +kernel
  obtain ⟨c, found, length⟩ := any_some two
  obtain ⟨exactly, follow⟩ := calls_in_queue_order config {}
    ((outbox config).after_reached anyStep _) commits trivial
    ((outbox config).after_run anyStep _ (seconds 10) trivial (by decide +kernel))
    ((outbox config).after_later anyStep (handed queueOrder) _) found
  refine ⟨c, found, of_decide_eq_true length, follow (exactly.mp fun merchant => ?_)⟩
  have batch : (claimDue queueOrder claimCall ahead ahead fun _ => true).value =
    [claimed, younger] := by decide +kernel
  rw [batch]
  exact .filter _ (List.pairwise_pair.mpr (show ahead.queuedBefore claimed younger = true by
    decide +kernel))

end Sample
end CryptoGateway.Webhooks
