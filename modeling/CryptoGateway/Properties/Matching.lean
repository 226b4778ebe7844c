import Mathlib.Data.Int.ConditionallyCompleteOrder
import Mathlib.Order.CompletePartialOrder
import Mathlib.Order.ConditionallyCompleteLattice.Basic
import CryptoGateway.Domain.Settlement

/-!
Which attempt a transfer is matched to: one choice of a stage, which never depends on the order of
the candidates.
-/
namespace CryptoGateway

section
variable (transfer : TransferFacts)

def AttemptCandidate.fitsMemo (candidate : AttemptCandidate) : Bool :=
  candidate.collectorAddressId = transfer.collectorAddressId && transfer.memo.isSome &&
    decide (candidate.memoReference = transfer.memo)

def AttemptCandidate.fitsSlot (candidate : AttemptCandidate) : Bool :=
  candidate.collectorAddressId = transfer.collectorAddressId && candidate.ownsSlot transfer

def AttemptCandidate.fitsLive (candidate : AttemptCandidate) : Bool :=
  candidate.fitsSlot transfer && decide (candidate.status = .awaitingPayment)

def decidingStage (candidates : List AttemptCandidate) :
    Option (MatchStrategy × List AttemptCandidate) :=
  if candidates.filter (·.fitsMemo transfer) ≠ [] then
    some (.memo, candidates.filter (·.fitsMemo transfer))
  else if candidates.filter (·.fitsLive transfer) ≠ [] then
    some (.exactAmount, candidates.filter (·.fitsLive transfer))
  else if candidates.filter (·.fitsSlot transfer) ≠ [] then
    some (.historicalSlot, candidates.filter (·.fitsSlot transfer))
  else none

def conclude (strategy : MatchStrategy) : List AttemptCandidate → MatchOutcome
  | [single] => matched single strategy transfer
  | [] => .unmatched
  | many => ambiguous many

end

section Stages
variable {transfer : TransferFacts} {candidates : List AttemptCandidate}

theorem matchBySlot_eq (onAddress : List AttemptCandidate) :
    matchBySlot transfer onAddress =
      if onAddress.filter (fun c => c.ownsSlot transfer && c.status = .awaitingPayment) ≠ [] then
        conclude transfer .exactAmount
          (onAddress.filter fun c => c.ownsSlot transfer && c.status = .awaitingPayment)
      else conclude transfer .historicalSlot (onAddress.filter (·.ownsSlot transfer)) := by
  unfold matchBySlot
  generalize onAddress.filter (fun c => c.ownsSlot transfer && c.status = .awaitingPayment) = live
  generalize onAddress.filter (·.ownsSlot transfer) = past
  rcases live with _ | ⟨a, _ | ⟨b, rest⟩⟩
  · rcases past with _ | ⟨a, _ | ⟨b, rest⟩⟩ <;> rfl
  · rfl
  · rfl

theorem matchTransfer_eq (transfer : TransferFacts) (candidates : List AttemptCandidate) :
    matchTransfer transfer candidates =
      (decidingStage transfer candidates).elim .unmatched fun stage =>
        conclude transfer stage.1 stage.2 := by
  have live : (candidates.filter (·.collectorAddressId = transfer.collectorAddressId)).filter
      (fun c => c.ownsSlot transfer && c.status = .awaitingPayment) =
        candidates.filter (·.fitsLive transfer) := by
    rw [List.filter_filter]
    refine List.filter_congr fun c _ => ?_
    simp [AttemptCandidate.fitsLive, AttemptCandidate.fitsSlot, Bool.and_comm, Bool.and_left_comm]
  have past : (candidates.filter (·.collectorAddressId = transfer.collectorAddressId)).filter
      (·.ownsSlot transfer) = candidates.filter (·.fitsSlot transfer) := by
    rw [List.filter_filter]
    refine List.filter_congr fun c _ => ?_
    simp [AttemptCandidate.fitsSlot, Bool.and_comm]
  have bySlot : matchBySlot transfer
      (candidates.filter (·.collectorAddressId = transfer.collectorAddressId)) =
        if candidates.filter (·.fitsLive transfer) ≠ [] then
          conclude transfer .exactAmount (candidates.filter (·.fitsLive transfer))
        else conclude transfer .historicalSlot (candidates.filter (·.fitsSlot transfer)) := by
    rw [matchBySlot_eq, live, past]
  have slots : (if candidates.filter (·.fitsLive transfer) ≠ [] then
      conclude transfer .exactAmount (candidates.filter (·.fitsLive transfer))
    else conclude transfer .historicalSlot (candidates.filter (·.fitsSlot transfer))) =
      (if candidates.filter (·.fitsLive transfer) ≠ [] then
        some (MatchStrategy.exactAmount, candidates.filter (·.fitsLive transfer))
      else if candidates.filter (·.fitsSlot transfer) ≠ [] then
        some (.historicalSlot, candidates.filter (·.fitsSlot transfer))
      else none).elim .unmatched fun stage => conclude transfer stage.1 stage.2 := by
    split
    · rfl
    · split
      · rfl
      · rename_i none_
        rw [not_not.mp none_]
        rfl
  unfold matchTransfer decidingStage
  cases memo : transfer.memo with
  | none =>
    have none_ : candidates.filter (·.fitsMemo transfer) = [] := by
      simp [AttemptCandidate.fitsMemo, memo]
    simp only [none_, ne_eq, not_true_eq_false, ↓reduceIte]
    rw [bySlot, slots]
  | some reference =>
    have byMemo : (candidates.filter (·.collectorAddressId = transfer.collectorAddressId)).filter
        (·.memoReference = some reference) = candidates.filter (·.fitsMemo transfer) := by
      rw [List.filter_filter]
      refine List.filter_congr fun c _ => ?_
      simp [AttemptCandidate.fitsMemo, memo, Bool.and_comm]
    simp only [byMemo]
    rw [bySlot, slots]
    generalize candidates.filter (·.fitsMemo transfer) = fits
    rcases fits with _ | ⟨a, _ | ⟨b, rest⟩⟩ <;> rfl

end Stages

section Permutations
variable {transfer : TransferFacts} {others : List AttemptCandidate}

theorem ambiguous_perm {fits : List AttemptCandidate} (perm : fits.Perm others) :
    ambiguous fits = ambiguous others := by
  have sorted : ∀ l : List Id, (l.insertionSort (· ≤ ·)).Pairwise (· ≤ ·) :=
    fun l => List.pairwise_insertionSort _ l
  have ids : ((fits.map (·.attemptId)).insertionSort (· ≤ ·)).Perm
      ((others.map (·.attemptId)).insertionSort (· ≤ ·)) :=
    (List.perm_insertionSort _ _).trans
      ((perm.map _).trans (List.perm_insertionSort _ _).symm)
  exact congrArg MatchOutcome.ambiguous (ids.eq_of_pairwise' (sorted _) (sorted _))

theorem conclude_perm (strategy : MatchStrategy) {fits : List AttemptCandidate}
    (perm : fits.Perm others) : conclude transfer strategy fits = conclude transfer
    strategy others := by
  rcases fits with _ | ⟨a, _ | ⟨b, rest⟩⟩
  · rw [perm.symm.eq_nil]
  · rw [List.singleton_perm.mp perm]
  · have length := perm.length_eq
    rcases others with _ | ⟨c, _ | ⟨d, rest'⟩⟩
    · simp at length
    · simp at length
    · exact ambiguous_perm perm

theorem decidingStage_perm {candidates : List AttemptCandidate} (perm : candidates.Perm others) :
    (decidingStage transfer candidates = none ∧ decidingStage transfer others = none) ∨
      ∃ strategy fits fits', decidingStage transfer candidates = some (strategy, fits) ∧
        decidingStage transfer others = some (strategy, fits') ∧ fits.Perm fits' := by
  have empty : ∀ p : AttemptCandidate → Bool, candidates.filter p = [] ↔ others.filter p = [] := by
    intro p
    have := perm.filter p
    exact ⟨fun none_ => (none_ ▸ this).symm.eq_nil, fun none_ => (none_ ▸ this).eq_nil⟩
  unfold decidingStage
  simp only [ne_eq, empty]
  split
  · exact .inr ⟨_, _, _, rfl, rfl, perm.filter _⟩
  split
  · exact .inr ⟨_, _, _, rfl, rfl, perm.filter _⟩
  split
  · exact .inr ⟨_, _, _, rfl, rfl, perm.filter _⟩
  · exact .inl ⟨rfl, rfl⟩

theorem matchTransfer_perm {candidates : List AttemptCandidate} (perm : candidates.Perm others) :
    matchTransfer transfer candidates = matchTransfer transfer others := by
  rw [matchTransfer_eq, matchTransfer_eq]
  rcases decidingStage_perm perm with ⟨here, there⟩ | ⟨strategy, fits, fits', here, there, perm'⟩
  · rw [here, there]
  · rw [here, there]
    exact conclude_perm strategy perm'

end Permutations

section Exactness
variable {transfer : TransferFacts} {candidates fits : List AttemptCandidate}
  {strategy : MatchStrategy}

theorem decidingStage_eq_some (found : decidingStage transfer candidates = some (strategy, fits)) :
    fits ≠ [] ∧ ((strategy = .memo ∧ fits = candidates.filter (·.fitsMemo transfer)) ∨
        (strategy = .exactAmount ∧ fits = candidates.filter (·.fitsLive transfer)) ∨
        (strategy = .historicalSlot ∧ candidates.filter (·.fitsLive transfer) = [] ∧
          fits = candidates.filter (·.fitsSlot transfer))) := by
  unfold decidingStage at found
  split at found
  · cases found
    exact ⟨by assumption, .inl ⟨rfl, rfl⟩⟩
  split at found
  · cases found
    exact ⟨by assumption, .inr (.inl ⟨rfl, rfl⟩)⟩
  rename_i noneLive
  split at found
  · cases found
    exact ⟨by assumption, .inr (.inr ⟨rfl, not_not.mp noneLive, rfl⟩)⟩
  · cases found

theorem decidingStage_eq_none (none_ : decidingStage transfer candidates = none) :
    candidates.filter (·.fitsMemo transfer) = [] ∧ candidates.filter
    (·.fitsSlot transfer) = [] := by
  unfold decidingStage at none_
  split at none_
  · cases none_
  rename_i byMemo
  split at none_
  · cases none_
  split at none_
  · cases none_
  rename_i bySlot
  exact ⟨not_not.mp byMemo, not_not.mp bySlot⟩

theorem conclude_matched {attempt intent : Id} {strategy' : MatchStrategy} {late : Bool}
    (matched_ : conclude transfer strategy fits = .matched attempt intent strategy' late) :
    ∃ c, fits = [c] ∧ c.attemptId = attempt ∧ c.paymentIntentId = intent ∧ strategy = strategy' ∧
      (late = true ↔ (c.status ≠ .awaitingPayment ∧ c.status ≠ .expired) ∨
        c.quoteExpiresAt ≤ transfer.blockTime) := by
  unfold conclude at matched_
  split at matched_
  · rename_i c
    cases matched_
    exact ⟨c, rfl, rfl, rfl, rfl, by simp⟩
  · cases matched_
  · cases matched_

theorem conclude_ambiguous {ids : List Id}
    (stopped : conclude transfer strategy fits = .ambiguous ids) :
    2 ≤ fits.length ∧ ids.Perm (fits.map (·.attemptId)) := by
  unfold conclude at stopped
  split at stopped
  · cases stopped
  · cases stopped
  · rename_i notSingle notEmpty
    cases stopped
    refine ⟨?_, List.perm_insertionSort _ _⟩
    rcases fits with _ | ⟨a, _ | ⟨b, rest⟩⟩
    · exact absurd rfl notEmpty
    · exact absurd rfl (notSingle a)
    · simp

theorem slot_unshared {a b : AttemptCandidate} (apart : a.expectedAmountRaw = b.expectedAmountRaw →
      Disjoint (Set.Ico a.leasedFrom a.leasedUntil) (Set.Ico b.leasedFrom b.leasedUntil))
    (first : a.ownsSlot transfer = true) (second : b.ownsSlot transfer = true) : False := by
  simp only [AttemptCandidate.ownsSlot, Bool.and_eq_true, decide_eq_true_eq] at first second
  have meet := apart (first.1.1.trans second.1.1.symm)
  exact Set.disjoint_left.mp meet ⟨first.1.2, first.2⟩ ⟨second.1.2, second.2⟩

theorem at_most_one_owns (transfer : TransferFacts) (apart : candidates.Pairwise fun a b =>
      a.expectedAmountRaw = b.expectedAmountRaw →
        Disjoint (Set.Ico a.leasedFrom a.leasedUntil) (Set.Ico b.leasedFrom b.leasedUntil))
    (sub : fits.Sublist candidates) (own : ∀ c ∈ fits, c.ownsSlot transfer = true) :
    fits.length ≤ 1 := by
  have apart' := apart.sublist sub
  rcases fits with _ | ⟨a, _ | ⟨b, rest⟩⟩
  · simp
  · simp
  · have meet := (List.pairwise_cons.mp apart').1 b List.mem_cons_self
    exact (slot_unshared meet (own a List.mem_cons_self)
      (own b (List.mem_cons_of_mem _ List.mem_cons_self))).elim

variable {c : AttemptCandidate}

theorem fitsSlot_owns (fits : c.fitsSlot transfer = true) :
    c.collectorAddressId = transfer.collectorAddressId ∧ c.ownsSlot transfer = true := by
  simpa [AttemptCandidate.fitsSlot] using fits

theorem fitsLive_slot (fits : c.fitsLive transfer = true) : c.fitsSlot transfer = true := by
  simp only [AttemptCandidate.fitsLive, Bool.and_eq_true] at fits
  exact fits.1

theorem matchTransfer_decided :
    (decidingStage transfer candidates = none ∧ matchTransfer transfer candidates = .unmatched) ∨
      ∃ strategy fits, decidingStage transfer candidates = some (strategy, fits) ∧
        matchTransfer transfer candidates = conclude transfer strategy fits := by
  rw [matchTransfer_eq]
  cases decidingStage transfer candidates with
  | none => exact .inl ⟨rfl, rfl⟩
  | some stage => exact .inr ⟨stage.1, stage.2, rfl, rfl⟩

theorem matchTransfer_only {attempt intent : Id} {late : Bool}
    (found : matchTransfer transfer candidates = .matched attempt intent strategy late) :
    ∃ c ∈ candidates, c.attemptId = attempt ∧ c.paymentIntentId = intent ∧
      c.collectorAddressId = transfer.collectorAddressId ∧
      (late = true ↔ (c.status ≠ .awaitingPayment ∧ c.status ≠ .expired) ∨
        c.quoteExpiresAt ≤ transfer.blockTime) ∧
      ((strategy = .memo ∧ candidates.filter (·.fitsMemo transfer) = [c]) ∨
        (strategy = .exactAmount ∧ c.ownsSlot transfer = true ∧
          candidates.filter (·.fitsLive transfer) = [c]) ∨
        (strategy = .historicalSlot ∧ c.ownsSlot transfer = true ∧
          candidates.filter (·.fitsLive transfer) = [] ∧
          candidates.filter (·.fitsSlot transfer) = [c])) := by
  rcases matchTransfer_decided with ⟨_, unmatched⟩ | ⟨by_, fits, stage, concluded⟩
  · cases found.symm.trans unmatched
  rw [concluded] at found
  obtain ⟨c, rfl, sameAttempt, sameIntent, rfl, lateness⟩ := conclude_matched found
  have fit : ∀ {p : AttemptCandidate → Bool}, [c] = candidates.filter p →
      c ∈ candidates ∧ p c = true :=
    fun eq => List.mem_filter.mp (eq ▸ List.mem_singleton_self c)
  rcases (decidingStage_eq_some stage).2 with ⟨rfl, eq⟩ | ⟨rfl, eq⟩ | ⟨rfl, noneLive, eq⟩
  · obtain ⟨mem, fits⟩ := fit eq
    have onAddress : c.collectorAddressId = transfer.collectorAddressId := by
      simp only [AttemptCandidate.fitsMemo, Bool.and_eq_true, decide_eq_true_eq] at fits
      exact fits.1.1
    exact ⟨c, mem, sameAttempt, sameIntent, onAddress, lateness, .inl ⟨rfl, eq.symm⟩⟩
  · obtain ⟨mem, fits⟩ := fit eq
    obtain ⟨onAddress, owns⟩ := fitsSlot_owns (fitsLive_slot fits)
    exact ⟨c, mem, sameAttempt, sameIntent, onAddress, lateness, .inr (.inl ⟨rfl, owns, eq.symm⟩)⟩
  · obtain ⟨mem, fits⟩ := fit eq
    obtain ⟨onAddress, owns⟩ := fitsSlot_owns fits
    exact ⟨c, mem, sameAttempt, sameIntent, onAddress, lateness,
      .inr (.inr ⟨rfl, owns, noneLive, eq.symm⟩)⟩

theorem matchTransfer_ambiguous {ids : List Id}
    (stopped : matchTransfer transfer candidates = .ambiguous ids) :
    ∃ strategy fits, decidingStage transfer candidates = some (strategy, fits) ∧
      2 ≤ fits.length ∧ ids.Perm (fits.map (·.attemptId)) := by
  rcases matchTransfer_decided with ⟨_, unmatched⟩ | ⟨by_, fits, stage, concluded⟩
  · cases stopped.symm.trans unmatched
  · exact ⟨by_, fits, stage, conclude_ambiguous (concluded.symm.trans stopped)⟩

theorem matchTransfer_unmatched (unmatched : matchTransfer transfer candidates = .unmatched)
    (mem : c ∈ candidates) :
    c.fitsMemo transfer = false ∧ c.fitsSlot transfer = false := by
  rcases matchTransfer_decided with ⟨stage, _⟩ | ⟨by_, fits, stage, concluded⟩
  · obtain ⟨byMemo, bySlot⟩ := decidingStage_eq_none stage
    exact ⟨by simpa using List.filter_eq_nil_iff.mp byMemo c mem,
      by simpa using List.filter_eq_nil_iff.mp bySlot c mem⟩
  · rw [concluded] at unmatched
    have nonempty := (decidingStage_eq_some stage).1
    rcases fits with _ | ⟨a, _ | ⟨b, rest⟩⟩
    · exact absurd rfl nonempty
    · cases unmatched
    · cases unmatched

theorem matchTransfer_unambiguous (apart : candidates.Pairwise fun a b =>
      a.expectedAmountRaw = b.expectedAmountRaw →
        Disjoint (Set.Ico a.leasedFrom a.leasedUntil) (Set.Ico b.leasedFrom b.leasedUntil))
    (oneMemo : (candidates.filter fun c =>
      transfer.memo.isSome && decide (c.memoReference = transfer.memo)).length ≤ 1)
      (ids : List Id) :
    matchTransfer transfer candidates ≠ .ambiguous ids := by
  intro stopped
  obtain ⟨by_, fits, stage, several, _⟩ := matchTransfer_ambiguous stopped
  have few : fits.length ≤ 1 := by
    rcases (decidingStage_eq_some stage).2 with ⟨_, rfl⟩ | ⟨_, rfl⟩ | ⟨_, _, rfl⟩
    · refine le_trans (List.Sublist.length_le ?_) oneMemo
      refine List.monotone_filter_right candidates fun c fits => ?_
      simp only [AttemptCandidate.fitsMemo, Bool.and_eq_true] at fits ⊢
      exact ⟨fits.1.2, fits.2⟩
    · refine at_most_one_owns transfer apart List.filter_sublist fun c mem => ?_
      exact (fitsSlot_owns (fitsLive_slot (List.mem_filter.mp mem).2)).2
    · refine at_most_one_owns transfer apart List.filter_sublist fun c mem => ?_
      exact (fitsSlot_owns (List.mem_filter.mp mem).2).2
  omega

end Exactness

/-- The answer does not depend on the order of the candidates, a match is the only candidate that
    fits where it was decided, several that fit are all listed, and no answer means that none fits.
    -/
theorem match_never_guesses (transfer : TransferFacts) (candidates : List AttemptCandidate) :
    (∀ others, candidates.Perm others →
      matchTransfer transfer others = matchTransfer transfer candidates) ∧
    (∀ attempt intent strategy late,
      matchTransfer transfer candidates = .matched attempt intent strategy late →
      ∃ c ∈ candidates, c.attemptId = attempt ∧ c.paymentIntentId = intent ∧
        c.collectorAddressId = transfer.collectorAddressId ∧
        (late = true ↔ (c.status ≠ .awaitingPayment ∧ c.status ≠ .expired) ∨
          c.quoteExpiresAt ≤ transfer.blockTime) ∧
        ((strategy = .memo ∧ candidates.filter (·.fitsMemo transfer) = [c]) ∨
          (strategy = .exactAmount ∧ c.ownsSlot transfer = true ∧
            candidates.filter (·.fitsLive transfer) = [c]) ∨
          (strategy = .historicalSlot ∧ c.ownsSlot transfer = true ∧
            candidates.filter (·.fitsLive transfer) = [] ∧
            candidates.filter (·.fitsSlot transfer) = [c]))) ∧
    (∀ ids, matchTransfer transfer candidates = .ambiguous ids →
      ∃ strategy fits, decidingStage transfer candidates = some (strategy, fits) ∧
        2 ≤ fits.length ∧ ids.Perm (fits.map (·.attemptId))) ∧
    (matchTransfer transfer candidates = .unmatched → ∀ c ∈ candidates,
      c.fitsMemo transfer = false ∧ c.fitsSlot transfer = false) ∧
    ((candidates.Pairwise fun a b => a.expectedAmountRaw = b.expectedAmountRaw →
        Disjoint (Set.Ico a.leasedFrom a.leasedUntil) (Set.Ico b.leasedFrom b.leasedUntil)) →
      (candidates.filter fun c =>
        transfer.memo.isSome && decide (c.memoReference = transfer.memo)).length ≤ 1 →
      ∀ ids, matchTransfer transfer candidates ≠ .ambiguous ids) := by
  refine ⟨fun others perm => (matchTransfer_perm perm).symm, ?_, ?_, ?_, ?_⟩
  · intro attempt intent strategy late found
    exact matchTransfer_only found
  · intro ids stopped
    exact matchTransfer_ambiguous stopped
  · intro unmatched c mem
    exact matchTransfer_unmatched unmatched mem
  · intro apart oneMemo ids
    exact matchTransfer_unambiguous apart oneMemo ids

end CryptoGateway
