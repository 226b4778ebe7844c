import Mathlib.Data.List.Induction
import Mathlib.Order.Lattice

/-!
Choosing from a list in one pass: the element in hand gives way to one that beats it, as in
`Iterator::min_by_key` (the first of equal elements stays) and `max_by_key` (the last).
-/
namespace Selection

variable {α : Type} {beats : α → α → Prop} [DecidableRel beats]

def take (beats : α → α → Prop) [DecidableRel beats] (best : Option α) (x : α) : Option α :=
  match best with
  | none => some x
  | some b => if beats x b then some x else some b

def choose (beats : α → α → Prop) [DecidableRel beats] (l : List α) : Option α :=
  l.foldl (take beats) none

structure Decisive (beats : α → α → Prop) : Prop where
  trans : ∀ {x y z}, beats x y → beats y z → beats x z
  passes : ∀ {x y z}, beats x y → ¬beats z y → beats x z

def Chosen (beats : α → α → Prop) (l : List α) (x : α) : Prop :=
  ∃ before after, l = before ++ x :: after ∧ (∀ y ∈ before, beats x y) ∧ ∀ y ∈ after, ¬beats y x

theorem choose_concat (l : List α) (x : α) :
    choose beats (l ++ [x]) = take beats (choose beats l) x := by simp [choose]

variable {l : List α}

theorem choose_eq_none : choose beats l = none ↔ l = [] := by
  constructor
  · intro none_
    induction l using List.reverseRecOn with
    | nil => rfl
    | append_singleton l x ih =>
      rw [choose_concat] at none_
      unfold take at none_
      split at none_
      · cases none_
      · split at none_ <;> cases none_
  · rintro rfl
    rfl

theorem choose_chosen (decisive : Decisive beats) {x : α}
    (found : choose beats l = some x) : Chosen beats l x := by
  induction l using List.reverseRecOn generalizing x with
  | nil => cases found
  | append_singleton l last ih =>
    rw [choose_concat] at found
    unfold take at found
    split at found
    · rename_i none_
      cases found
      cases choose_eq_none.mp none_
      exact ⟨[], [], rfl, by simp, by simp⟩
    · rename_i held eq
      obtain ⟨before, after, rfl, beaten, unbeaten⟩ := ih eq
      split at found
      · rename_i better
        cases found
        refine ⟨_, [], rfl, fun y mem => ?_, by simp⟩
        rcases List.mem_append.mp mem with early | late
        · exact decisive.trans better (beaten y early)
        · rcases List.mem_cons.mp late with rfl | late
          · exact better
          · exact decisive.passes better (unbeaten y late)
      · rename_i worse
        cases found
        refine ⟨before, after ++ [last], by simp, beaten, fun y mem => ?_⟩
        rcases List.mem_append.mp mem with late | here
        · exact unbeaten y late
        · rw [List.mem_singleton] at here
          exact here ▸ worse

theorem foldl_unbeaten {x : α} (unbeaten : ∀ y ∈ l, ¬beats y x) :
    l.foldl (take beats) (some x) = some x := by
  induction l with
  | nil => rfl
  | cons y rest ih =>
    rw [List.foldl_cons, take, if_neg (unbeaten y List.mem_cons_self)]
    exact ih fun z mem => unbeaten z (List.mem_cons_of_mem _ mem)

theorem choose_eq_some (decisive : Decisive beats) {x : α} :
    choose beats l = some x ↔ Chosen beats l x := by
  refine ⟨choose_chosen decisive, ?_⟩
  rintro ⟨before, after, rfl, beaten, unbeaten⟩
  have first : take beats (choose beats before) x = some x := by
    unfold take
    split
    · rfl
    · rename_i held eq
      obtain ⟨_, _, rfl, _, _⟩ := choose_chosen decisive eq
      rw [if_pos (beaten held (by simp))]
  rw [choose, List.foldl_append, List.foldl_cons]
  change List.foldl (take beats) (take beats (choose beats before) x) after = _
  rw [first]
  exact foldl_unbeaten unbeaten

omit [DecidableRel beats] in
theorem Chosen.mem {x : α} (chosen : Chosen beats l x) : x ∈ l := by
  obtain ⟨before, after, rfl, _, _⟩ := chosen
  simp

section Keys
variable {β : Type} [LinearOrder β] (key : α → β)

theorem decisive_lt : Decisive fun x y => key x < key y where
  trans first second := lt_trans first second
  passes better worse := lt_of_lt_of_le better (not_lt.mp worse)

theorem decisive_ge : Decisive fun x y => key y ≤ key x where
  trans first second := le_trans second first
  passes better worse := le_trans (le_of_lt (not_le.mp worse)) better

variable {key}

theorem Chosen.least {l : List α} {x : α} (chosen : Chosen (fun x y => key x < key y) l x) :
    ∀ y ∈ l, key x ≤ key y := by
  obtain ⟨before, after, rfl, beaten, unbeaten⟩ := chosen
  intro y mem
  rcases List.mem_append.mp mem with early | late
  · exact le_of_lt (beaten y early)
  · rcases List.mem_cons.mp late with rfl | late
    · exact le_rfl
    · exact not_lt.mp (unbeaten y late)

theorem Chosen.greatest {l : List α} {x : α} (chosen : Chosen (fun x y => key y ≤ key x) l x) :
    ∀ y ∈ l, key y ≤ key x := by
  obtain ⟨before, after, rfl, beaten, unbeaten⟩ := chosen
  intro y mem
  rcases List.mem_append.mp mem with early | late
  · exact beaten y early
  · rcases List.mem_cons.mp late with rfl | late
    · exact le_rfl
    · exact le_of_lt (not_le.mp (unbeaten y late))

end Keys
end Selection
