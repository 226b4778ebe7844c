import Mathlib.Logic.Function.Basic
import Mathlib.Data.Int.Order.Basic

/-!
The lock of one order: a row of the options table with the second it expires at. Every statement
of a call is one atomic step, and calls interleave.
-/
namespace CryptoGateway.WooCommerce

def lockTtl : Int := 120

/-- Where a call of `with_order_lock` stands. `now` is the time it read when it started;
    `running` holds the expiry it wrote into the row. -/
inductive LockCall where
  | idle
  | entered (now : Int)
  | refused (now : Int)
  | stale (now expires : Int)
  | running (expires : Int)
  | over
deriving DecidableEq, Repr

def LockCall.live (clock : Int) : LockCall → Bool
  | .running expires => clock ≤ expires
  | _ => false

structure OrderLock where
  row : Option Int
  clock : Int
  calls : Nat → LockCall

inductive LockStep where
  | tick (clock : Int)
  | enter (call : Nat)
  | insertIgnore (call : Nat)
  | select (call : Nat)
  | update (call : Nat)
  | delete (call : Nat)
  | crash (call : Nat)
deriving DecidableEq, Repr

namespace OrderLock

def put (s : OrderLock) (call : Nat) (c : LockCall) : OrderLock :=
  { s with calls := Function.update s.calls call c }

/-- One statement of a call. A missing row reads as the expiry 0, and a row is released by
    its name, whatever it holds. -/
def step (s : OrderLock) : LockStep → Option OrderLock
  | .tick clock => if s.clock ≤ clock then some { s with clock } else none
  | .enter call =>
    match s.calls call with
    | .idle => some (s.put call (.entered s.clock))
    | _ => none
  | .insertIgnore call =>
    match s.calls call with
    | .entered now =>
      match s.row with
      | none => some { s.put call (.running (now + lockTtl)) with row := some (now + lockTtl) }
      | some _ => some (s.put call (.refused now))
    | _ => none
  | .select call =>
    match s.calls call with
    | .refused now =>
      if now ≤ s.row.getD 0 then some (s.put call .over)
      else some (s.put call (.stale now (s.row.getD 0)))
    | _ => none
  | .update call =>
    match s.calls call with
    | .stale now expires =>
      if s.row = some expires then
        some { s.put call (.running (now + lockTtl)) with row := some (now + lockTtl) }
      else some (s.put call .over)
    | _ => none
  | .delete call =>
    match s.calls call with
    | .running _ => some { s.put call .over with row := none }
    | _ => none
  | .crash call => some (s.put call .over)

def start : OrderLock := ⟨none, 0, fun _ => .idle⟩

inductive Reach (ok : OrderLock → LockStep → Bool) : OrderLock → Prop where
  | start : Reach ok start
  | step {s s' : OrderLock} {e : LockStep} (before : Reach ok s) (taken : s.step e = some s')
      (allowed : ok s e = true) : Reach ok s'

def prompt (s : OrderLock) : LockStep → Bool
  | .delete call => (s.calls call).live s.clock
  | _ => true

/-- A call knows no time that has not come, a stale row had expired, and the row belongs to
    the one call that is live. -/
structure Held (s : OrderLock) : Prop where
  entered : ∀ i now, s.calls i = .entered now → now ≤ s.clock
  refused : ∀ i now, s.calls i = .refused now → now ≤ s.clock
  stale : ∀ i now expires, s.calls i = .stale now expires → now ≤ s.clock ∧ expires < now
  owner : ∀ i expires, s.calls i = .running expires → s.clock ≤ expires → s.row = some expires
  alone : ∀ i j, (s.calls i).live s.clock = true → (s.calls j).live s.clock = true → i = j

variable {s s' : OrderLock} {e : LockStep} {ok : OrderLock → LockStep → Bool}

theorem live_running {clock : Int} {c : LockCall} (live : c.live clock = true) :
    ∃ expires, c = .running expires ∧ clock ≤ expires := by
  cases c with
  | running expires => exact ⟨expires, rfl, by simpa [LockCall.live] using live⟩
  | _ => cases live

theorem running_live {clock expires : Int} {c : LockCall} (running : c = .running expires)
    (valid : clock ≤ expires) : c.live clock = true := by
  rw [running]
  exact decide_eq_true valid

theorem Held.moves (held : Held s) {call : Nat} {c : LockCall} (quiet : c.live s.clock = false)
    (running : ∀ expires, c ≠ .running expires) (entered : ∀ now, c = .entered now → now ≤ s.clock)
    (refused : ∀ now, c = .refused now → now ≤ s.clock)
    (stale : ∀ now expires, c = .stale now expires → now ≤ s.clock ∧ expires < now) :
    Held (s.put call c) := by
  have other : ∀ {i : Nat} {d : LockCall}, Function.update s.calls call c i = d →
      (i = call ∧ c = d) ∨ s.calls i = d := by
    intro i d eq
    by_cases same : i = call
    · subst same
      exact .inl ⟨rfl, by simpa using eq⟩
    · exact .inr (by simpa [same] using eq)
  have awake : ∀ {i : Nat}, (Function.update s.calls call c i).live s.clock = true →
      (s.calls i).live s.clock = true := by
    intro i live
    by_cases same : i = call
    · subst same
      simp [quiet] at live
    · simpa [same] using live
  constructor
  · intro i now eq
    rcases other eq with ⟨_, mine⟩ | old
    · exact entered now mine
    · exact held.entered i now old
  · intro i now eq
    rcases other eq with ⟨_, mine⟩ | old
    · exact refused now mine
    · exact held.refused i now old
  · intro i now expires eq
    rcases other eq with ⟨_, mine⟩ | old
    · exact stale now expires mine
    · exact held.stale i now expires old
  · intro i expires eq
    rcases other eq with ⟨_, mine⟩ | old
    · exact absurd mine (running expires)
    · exact held.owner i expires old
  · intro i j left right
    exact held.alone i j (awake left) (awake right)

theorem Held.acquires (held : Held s) (free : ∀ i, (s.calls i).live s.clock = false) (call : Nat)
    (expires : Int) :
    Held { s.put call (.running expires) with row := some expires } := by
  have other : ∀ {i : Nat} {d : LockCall}, Function.update s.calls call (.running expires) i = d →
      (i = call ∧ .running expires = d) ∨ s.calls i = d := by
    intro i d eq
    by_cases same : i = call
    · subst same
      exact .inl ⟨rfl, by simpa using eq⟩
    · exact .inr (by simpa [same] using eq)
  have mine : ∀ {i : Nat}, (Function.update s.calls call (.running expires) i).live s.clock = true →
      i = call := by
    intro i live
    by_contra ne
    simp [ne, free] at live
  constructor
  · intro i now eq
    rcases other eq with ⟨_, mine⟩ | old
    · cases mine
    · exact held.entered i now old
  · intro i now eq
    rcases other eq with ⟨_, mine⟩ | old
    · cases mine
    · exact held.refused i now old
  · intro i now since eq
    rcases other eq with ⟨_, mine⟩ | old
    · cases mine
    · exact held.stale i now since old
  · intro i until_ eq valid
    rcases other eq with ⟨_, mine⟩ | old
    · cases mine; rfl
    · have live := running_live old valid
      cases (free i).symm.trans live
  · intro i j left right
    rw [mine left, mine right]

theorem Held.step (held : Held s) (taken : s.step e = some s') (allowed : s.prompt e = true) :
    Held s' := by
  cases e with
  | tick clock =>
    simp only [OrderLock.step] at taken
    split at taken
    · rename_i later
      cases taken
      have awake : ∀ i, (s.calls i).live clock = true → (s.calls i).live s.clock = true := by
        intro i live
        obtain ⟨expires, eq, valid⟩ := live_running live
        exact running_live eq (le_trans later valid)
      constructor
      · intro i now eq
        exact le_trans (held.entered i now eq) later
      · intro i now eq
        exact le_trans (held.refused i now eq) later
      · intro i now expires eq
        obtain ⟨past, before⟩ := held.stale i now expires eq
        exact ⟨le_trans past later, before⟩
      · intro i expires eq valid
        exact held.owner i expires eq (le_trans later valid)
      · intro i j left right
        exact held.alone i j (awake i left) (awake j right)
    · cases taken
  | enter call =>
    simp only [OrderLock.step] at taken
    split at taken
    · cases taken
      exact held.moves rfl nofun (by rintro _ ⟨⟩; exact le_refl _) nofun nofun
    · cases taken
  | insertIgnore call =>
    simp only [OrderLock.step] at taken
    split at taken
    · rename_i now at_
      split at taken
      · rename_i empty
        cases taken
        refine held.acquires (fun i => ?_) call _
        by_contra live
        obtain ⟨expires, eq, valid⟩ := live_running (by simpa using live)
        have row := held.owner i expires eq valid
        rw [empty] at row
        cases row
      · cases taken
        exact held.moves rfl nofun nofun (by rintro _ ⟨⟩; exact held.entered call now at_) nofun
    · cases taken
  | select call =>
    simp only [OrderLock.step] at taken
    split at taken
    · rename_i now at_
      split at taken
      · cases taken
        exact held.moves rfl nofun nofun nofun nofun
      · rename_i expired
        cases taken
        refine held.moves rfl nofun nofun nofun ?_
        rintro _ _ ⟨⟩
        exact ⟨held.refused call now at_, by omega⟩
    · cases taken
  | update call =>
    simp only [OrderLock.step] at taken
    split at taken
    · rename_i now expires at_
      obtain ⟨past, before⟩ := held.stale call now expires at_
      split at taken
      · rename_i same
        cases taken
        refine held.acquires (fun i => ?_) call _
        -- the row that is swapped had expired, so its owner is no longer live
        by_contra live
        obtain ⟨other, eq, valid⟩ := live_running (by simpa using live)
        have row := held.owner i other eq valid
        rw [same] at row
        cases row
        omega
      · cases taken
        exact held.moves rfl nofun nofun nofun nofun
    · cases taken
  | delete call =>
    simp only [OrderLock.step] at taken
    split at taken
    · cases taken
      have gone : ∀ i, ((s.put call .over).calls i).live s.clock = false := by
        intro i
        by_cases same : i = call
        · subst same
          simp [put, LockCall.live]
        · by_contra live
          have other : (s.calls i).live s.clock = true := by simpa [put, same] using live
          exact same (held.alone i call other allowed)
      have quiet : Held (s.put call .over) := held.moves rfl nofun nofun nofun nofun
      refine ⟨quiet.entered, quiet.refused, quiet.stale, fun i expires eq valid => ?_, quiet.alone⟩
      have live := running_live eq valid
      cases (gone i).symm.trans live
    · cases taken
  | crash call =>
    cases taken
    exact held.moves rfl nofun nofun nofun nofun

theorem Reach.held (reached : Reach prompt s) : Held s := by
  induction reached with
  | start => exact ⟨nofun, nofun, nofun, nofun, nofun⟩
  | step before taken allowed ih => exact ih.step taken allowed

def run (ok : OrderLock → LockStep → Bool) : List LockStep → OrderLock → OrderLock
  | [], s => s
  | e :: rest, s => run ok rest (if ok s e then (s.step e).getD s else s)

theorem Reach.run {ok : OrderLock → LockStep → Bool} (steps : List LockStep)
    (reached : Reach ok s) : Reach ok (s.run ok steps) := by
  induction steps generalizing s with
  | nil => exact reached
  | cons e rest ih =>
    apply ih
    split
    · rename_i allowed
      cases taken : s.step e with
      | none => exact reached
      | some s' => exact reached.step taken allowed
    · exact reached

end OrderLock

/-- In every interleaving in which callbacks return within their time to live, no two callbacks run
    that are both within it. -/
theorem order_lock_excludes {s : OrderLock} (reached : OrderLock.Reach OrderLock.prompt s)
    {i j : Nat} (other : i ≠ j) :
    ¬((s.calls i).live s.clock = true ∧ (s.calls j).live s.clock = true) := by
  rintro ⟨left, right⟩
  exact other (reached.held.alone i j left right)

namespace Sample

def overrun : List LockStep :=
  [.enter 0, .insertIgnore 0, .tick 121, .enter 1, .insertIgnore 1, .select 1, .update 1,
    .delete 0, .enter 2, .insertIgnore 2]

end Sample

/-- An overrunning holder deletes the row of the call that took over, and a third call
    acquires the lock beside it. -/
theorem released_lock_shared :
    ∃ s, OrderLock.Reach (fun _ _ => true) s ∧ (s.calls 1).live s.clock = true ∧
      (s.calls 2).live s.clock = true :=
  ⟨OrderLock.start.run (fun _ _ => true) Sample.overrun, .run Sample.overrun .start,
    by decide, by decide⟩

/-- The same calls where the release of the overrunning one is not allowed. -/
theorem order_lock_excludes_overrun :
    ((OrderLock.start.run OrderLock.prompt Sample.overrun).calls 1).live
      (OrderLock.start.run OrderLock.prompt Sample.overrun).clock = true ∧
    ¬(((OrderLock.start.run OrderLock.prompt Sample.overrun).calls 1).live
        (OrderLock.start.run OrderLock.prompt Sample.overrun).clock = true ∧
      ((OrderLock.start.run OrderLock.prompt Sample.overrun).calls 2).live
        (OrderLock.start.run OrderLock.prompt Sample.overrun).clock = true) :=
  ⟨by decide, order_lock_excludes (.run Sample.overrun .start) (by decide)⟩

end CryptoGateway.WooCommerce
