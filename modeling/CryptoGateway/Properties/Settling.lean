import CryptoGateway.Effects

/-!
What the settlement rule does with one transfer's money, and that an honor by hand
splits it the same way.
-/
namespace CryptoGateway
open Selection

structure SettlementPolicy.Covers (policy : SettlementPolicy) (fiatMinor : Int)
    (tier : SettlementTier) : Prop where
  covers : fiatMinor ≤ tier.maxFiatMinor
  smallest : ∀ other ∈ policy.tiers, fiatMinor ≤ other.maxFiatMinor →
    tier.maxFiatMinor ≤ other.maxFiatMinor
  first : ∃ before after, policy.tiers = before ++ tier :: after ∧
    ∀ other ∈ before, fiatMinor ≤ other.maxFiatMinor → tier.maxFiatMinor < other.maxFiatMinor

section Tiers
variable {policy : SettlementPolicy} {fiatMinor : Int} {tier : SettlementTier}

theorem tierFor_chosen : policy.tierFor fiatMinor = some tier ↔
    Chosen (fun a b : SettlementTier => a.maxFiatMinor < b.maxFiatMinor)
      (policy.tiers.filter fun tier => decide (fiatMinor ≤ tier.maxFiatMinor)) tier := by
  have pass : policy.tierFor fiatMinor =
      choose (fun a b : SettlementTier => a.maxFiatMinor < b.maxFiatMinor)
        (policy.tiers.filter fun tier => decide (fiatMinor ≤ tier.maxFiatMinor)) := by
    unfold SettlementPolicy.tierFor choose
    congr 1
    funext best tier
    cases best <;> rfl
  rw [pass]
  exact choose_eq_some (decisive_lt SettlementTier.maxFiatMinor)

theorem tierFor_covers : policy.tierFor fiatMinor = some tier ↔ policy.Covers fiatMinor tier := by
  rw [tierFor_chosen]
  constructor
  · intro chosen
    have mem := List.mem_filter.mp chosen.mem
    refine ⟨by simpa using mem.2, ?_, ?_⟩
    · intro other listed covers
      exact chosen.least other (List.mem_filter.mpr ⟨listed, by simpa using covers⟩)
    · obtain ⟨before, after, split, beaten, _⟩ := chosen
      obtain ⟨first, rest, eq, filtered, tail⟩ := List.filter_eq_append_iff.mp split
      obtain ⟨skipped, later, rfl, none_, _, _⟩ := List.filter_eq_cons_iff.mp tail
      refine ⟨first ++ skipped, later, by simp [eq], fun other listed covers => ?_⟩
      rcases List.mem_append.mp listed with early | late
      · exact beaten other (filtered ▸ List.mem_filter.mpr ⟨early, by simpa using covers⟩)
      · exact absurd (by simpa using covers) (none_ other late)
  · rintro ⟨covers, smallest, before, after, eq, beaten⟩
    refine ⟨before.filter fun tier => decide (fiatMinor ≤ tier.maxFiatMinor),
      after.filter fun tier => decide (fiatMinor ≤ tier.maxFiatMinor), by simp [eq, covers], ?_, ?_⟩
    · intro other mem
      obtain ⟨listed, covered⟩ := List.mem_filter.mp mem
      exact beaten other listed (by simpa using covered)
    · intro other mem
      obtain ⟨listed, covered⟩ := List.mem_filter.mp mem
      exact not_lt.mpr (smallest other (by simp [eq, listed]) (by simpa using covered))

end Tiers

structure Clears (evidence : SettlementEvidence) (policy : SettlementPolicy) : Prop where
  finalized : evidence.transferState = .finalized
  uncancelled : evidence.attemptStatus ≠ .cancelled
  undenied : evidence.risk ≠ .deny
  onTime : evidence.late = false
  banded : ∃ tier, policy.Covers evidence.fiatAmountMinor tier ∧ tier.autoSettle = true ∧
    tier.minIndependentGroups ≤ evidence.independentGroups ∧
    (tier.requireOwnNode = true → evidence.hadOwnNode = true) ∧
    (tier.requireRiskAllow = true → evidence.risk = .allow)

section Decisions
variable {evidence : SettlementEvidence} {policy : SettlementPolicy} {outcome : SettlementOutcome}

theorem Clears.decides (clears : Clears evidence policy) :
    decideSettlement evidence policy = decideAmount evidence := by
  obtain ⟨finalized, uncancelled, undenied, onTime, tier, covers, auto, groups, own, risk⟩ := clears
  have banded := tierFor_covers.mpr covers
  have ownMet : (tier.requireOwnNode && !evidence.hadOwnNode) = false := by
    cases need : tier.requireOwnNode with
    | false => rfl
    | true => simp [own need]
  have riskMet : ¬(tier.requireRiskAllow && decide (evidence.risk ≠ .allow)) = true := by
    cases need : tier.requireRiskAllow with
    | false => simp
    | true => simp [risk need]
  simp only [decideSettlement, finalized, reduceCtorEq, ↓reduceIte, ne_eq, not_true_eq_false,
    uncancelled, undenied, banded, auto, Bool.not_true, Bool.false_eq_true,
    Nat.not_lt.mpr groups, ownMet, onTime]
  exact if_neg riskMet

theorem clears_of_moves (decided : decideSettlement evidence policy = .ok outcome)
    (moves : outcome.moves = true) : Clears evidence policy := by
  unfold decideSettlement at decided
  repeat' split at decided
  all_goals first
    | (cases decided; cases moves)
    | skip
  rename_i final uncancelled allowed _ tier banded auto groups own risk late
  refine ⟨by simpa using final, uncancelled, allowed, by simpa using late, tier,
    tierFor_covers.mp banded, by simpa using auto, Nat.not_lt.mp groups, ?_, ?_⟩
  · simpa using own
  · simpa using risk

theorem Takes.moves {outstanding available : Nat} (takes : Takes outstanding available outcome) :
    outcome.moves = true := by cases takes <;> rfl

theorem decideAmount_takes (evidence : SettlementEvidence)
    (open_ : evidence.alreadyAllocatedRaw < evidence.expectedAmountRaw) :
    ∃ outcome, decideAmount evidence = .ok outcome ∧
      Takes (evidence.expectedAmountRaw - evidence.alreadyAllocatedRaw) evidence.transferAmountRaw
        outcome := by
  have outstanding : evidence.expectedAmountRaw - evidence.alreadyAllocatedRaw ≠ 0 := by omega
  simp only [decideAmount, Nat.not_lt.mpr open_.le, ↓reduceIte, outstanding]
  split
  · rename_i more
    have rest : evidence.transferAmountRaw -
      (evidence.expectedAmountRaw - evidence.alreadyAllocatedRaw) ≠ 0 := by omega
    refine ⟨_, ?_, .overpaid more (by omega)⟩
    simp only [RawAmount.positive, outstanding, rest, ↓reduceIte]
    rfl
  · split
    · rename_i full
      exact ⟨_, rfl, .settle full (by omega)⟩
    · exact ⟨_, rfl, .partialPay (by omega)⟩

theorem decideAmount_covered (evidence : SettlementEvidence)
    (covered : evidence.expectedAmountRaw ≤ evidence.alreadyAllocatedRaw) :
    decideAmount evidence = .ok (.hold .alreadyCovered) := by
  have outstanding : evidence.expectedAmountRaw - evidence.alreadyAllocatedRaw = 0 := by omega
  simp [decideAmount, outstanding]

theorem decideSettlement_ok (evidence : SettlementEvidence) (policy : SettlementPolicy) :
    ∃ outcome, decideSettlement evidence policy = .ok outcome := by
  have amount : ∃ outcome, decideAmount evidence = .ok outcome := by
    rcases Nat.lt_or_ge evidence.alreadyAllocatedRaw evidence.expectedAmountRaw with open_ | covered
    · obtain ⟨outcome, decided, _⟩ := decideAmount_takes evidence open_
      exact ⟨outcome, decided⟩
    · exact ⟨_, decideAmount_covered evidence covered⟩
  unfold decideSettlement
  repeat' split
  all_goals first
    | exact ⟨_, rfl⟩
    | exact amount

theorem Takes.splits {outstanding available : Nat} (takes : Takes outstanding available outcome) :
    outcome.allocateRaw + outcome.remainderRaw = available ∧ outcome.allocateRaw ≤ outstanding ∧
      (outcome.allocateRaw = outstanding ↔ outcome.completes = true) ∧
      (0 < outcome.remainderRaw ↔ ∃ allocate remainder, outcome = .overpaid allocate
        remainder) := by
  cases takes with
  | settle full => simp [SettlementOutcome.allocateRaw, SettlementOutcome.remainderRaw,
      SettlementOutcome.completes, full]
  | overpaid more =>
    simp only [SettlementOutcome.allocateRaw, SettlementOutcome.remainderRaw,
      SettlementOutcome.completes, SettlementOutcome.overpaid.injEq]
    refine ⟨by omega, le_rfl, trivial, ?_⟩
    exact ⟨fun _ => ⟨_, _, rfl, rfl⟩, fun _ => by omega⟩
  | partialPay less =>
    simp [SettlementOutcome.allocateRaw, SettlementOutcome.remainderRaw,
      SettlementOutcome.completes, less.le, less.ne]

/-- Money moves exactly when everything lets it through and something is outstanding; then
    all of the transfer is accounted for and the attempt never gets more than it expects. -/
theorem decideSettlement_splits (evidence : SettlementEvidence) (policy : SettlementPolicy) :
    ∃ outcome, decideSettlement evidence policy = .ok outcome ∧
      (outcome.moves = true ↔ Clears evidence policy ∧
        evidence.alreadyAllocatedRaw < evidence.expectedAmountRaw) ∧
      (outcome.moves = true →
        outcome.allocateRaw + outcome.remainderRaw = evidence.transferAmountRaw ∧
        evidence.alreadyAllocatedRaw + outcome.allocateRaw ≤ evidence.expectedAmountRaw ∧
        (evidence.alreadyAllocatedRaw + outcome.allocateRaw = evidence.expectedAmountRaw ↔
          (∃ allocate, outcome = .settle allocate) ∨
            ∃ allocate remainder, outcome = .overpaid allocate remainder) ∧
        (0 < outcome.remainderRaw ↔ ∃ allocate remainder, outcome = .overpaid allocate
          remainder)) := by
  obtain ⟨outcome, decided⟩ := decideSettlement_ok evidence policy
  have moved : outcome.moves = true → Clears evidence policy ∧
      evidence.alreadyAllocatedRaw < evidence.expectedAmountRaw := by
    intro moves
    have clears := clears_of_moves decided moves
    refine ⟨clears, Nat.lt_of_not_le fun covered => ?_⟩
    rw [clears.decides, decideAmount_covered evidence covered] at decided
    cases decided
    cases moves
  refine ⟨outcome, decided, ⟨moved, ?_⟩, fun moves => ?_⟩
  · rintro ⟨clears, open_⟩
    obtain ⟨taken, amount, takes⟩ := decideAmount_takes evidence open_
    rw [clears.decides, amount] at decided
    cases decided
    exact takes.moves
  · obtain ⟨clears, open_⟩ := moved moves
    rw [clears.decides] at decided
    obtain ⟨total, bounded, full, left⟩ := (decideAmount_moves decided moves).splits
    have completes : outcome.completes = true ↔ (∃ allocate, outcome = .settle allocate) ∨
        ∃ allocate remainder, outcome = .overpaid allocate remainder := by
      cases outcome <;> simp [SettlementOutcome.completes]
    refine ⟨total, by omega, ?_, left⟩
    rw [← completes, ← full]
    omega

end Decisions

section Honors

structure ManualHonorRow.Payable (row : ManualHonorRow) : Prop where
  finality : row.finality = .finalized
  undecided : row.processingState ∈ [ProcessingState.held, .unmatched]
  bound : honorIsBound row = true

variable {row : ManualHonorRow} {request : Nat} {plan : HonorPlan}

theorem honorPlan_ok (payable : row.Payable) : (∃ plan, honorPlan row request = .ok plan) ↔
    row.attemptAllocatedRaw ≤ row.expectedRaw ∧ row.transferAllocatedRaw ≤ row.transferRaw ∧
      request = min (row.expectedRaw - row.attemptAllocatedRaw)
        (row.transferRaw - row.transferAllocatedRaw) := by
  obtain ⟨finality, undecided, bound⟩ := payable
  unfold honorPlan
  rw [if_neg (by simp only [finality, ne_eq, not_true_eq_false, undecided, or_self,
    not_false_eq_true]), if_neg (by simp [bound])]
  constructor
  · rintro ⟨plan, ok⟩
    split at ok
    · cases ok
    split at ok
    · cases ok
    simp only at ok
    split at ok
    · cases ok
    rename_i covers left exact_
    exact ⟨Nat.not_lt.mp covers, Nat.not_lt.mp left, not_not.mp exact_⟩
  · rintro ⟨covers, left, exact_⟩
    rw [if_neg (Nat.not_lt.mpr covers), if_neg (Nat.not_lt.mpr left)]
    simp only
    rw [if_neg (not_not.mpr exact_)]
    exact ⟨_, rfl⟩

theorem honorPlan_takes (payable : row.Payable) (positive : 0 < request)
    (planned : honorPlan row request = .ok plan) :
    Takes (row.expectedRaw - row.attemptAllocatedRaw) (row.transferRaw - row.transferAllocatedRaw)
        plan.outcome ∧
      plan.outcomeName = plan.outcome.decision ∧ plan.allocate = plan.outcome.allocateRaw ∧
      plan.remainder = plan.outcome.remainderRaw := by
  obtain ⟨_, _, exact_⟩ := (honorPlan_ok payable).mp ⟨plan, planned⟩
  unfold honorPlan at planned
  split at planned
  · cases planned
  split at planned
  · cases planned
  split at planned
  · cases planned
  split at planned
  · cases planned
  simp only at planned
  split at planned
  · cases planned
  cases planned
  split
  · rename_i full
    obtain ⟨full, rest⟩ := full
    refine ⟨?_, rfl, rfl, rfl⟩
    subst full
    exact .overpaid (by omega) positive
  · split
    · rename_i none_ full
      have same : row.transferRaw - row.transferAllocatedRaw = request := by
        by_contra differs
        exact none_ ⟨full, by omega⟩
      refine ⟨?_, rfl, rfl, ?_⟩
      · have settle := Takes.settle (same.trans full) (full ▸ positive)
        rwa [same] at settle ⊢
      · show _ - request = 0
        omega
    · rename_i part
      have same : row.transferRaw - row.transferAllocatedRaw = request := by omega
      refine ⟨?_, rfl, rfl, ?_⟩
      · rw [same]
        exact .partialPay (by omega)
      · show _ - request = 0
        omega

theorem Takes.unique {outstanding available : Nat} {outcome outcome' : SettlementOutcome}
    (first : Takes outstanding available outcome) (second : Takes outstanding available outcome') :
    outcome = outcome' := by cases first <;> cases second <;> first | rfl | omega

/-- A transfer that nothing was taken from is honored by the split that the settlement rule
    makes, and otherwise what was left of it is accounted for. -/
theorem honor_splits_as_settlement (row : ManualHonorRow) (request : Nat) (payable : row.Payable)
    (positive : 0 < request) :
    (row.transferAllocatedRaw = 0 →
      ((∃ plan, honorPlan row request = .ok plan) ↔
        row.attemptAllocatedRaw ≤ row.expectedRaw ∧
        request = min (row.expectedRaw - row.attemptAllocatedRaw) row.transferRaw) ∧
      ∀ plan, honorPlan row request = .ok plan → ∀ evidence policy, Clears evidence policy →
        evidence.expectedAmountRaw = row.expectedRaw →
        evidence.alreadyAllocatedRaw = row.attemptAllocatedRaw →
        evidence.transferAmountRaw = row.transferRaw →
        decideSettlement evidence policy = .ok plan.outcome ∧
          plan.outcomeName = plan.outcome.decision ∧ plan.allocate = plan.outcome.allocateRaw ∧
          plan.remainder = plan.outcome.remainderRaw) ∧
    ∀ plan, honorPlan row request = .ok plan →
      row.transferAllocatedRaw ≤ row.transferRaw ∧
        plan.allocate + plan.remainder = row.transferRaw - row.transferAllocatedRaw := by
  refine ⟨fun untouched => ⟨?_, ?_⟩, ?_⟩
  · rw [honorPlan_ok payable, untouched]
    simp
  · intro plan planned evidence policy clears expected allocated arriving
    obtain ⟨takes, named⟩ := honorPlan_takes payable positive planned
    refine ⟨?_, named⟩
    rw [untouched, Nat.sub_zero] at takes
    obtain ⟨_, _, exact_⟩ := (honorPlan_ok payable).mp ⟨plan, planned⟩
    have open_ : evidence.alreadyAllocatedRaw < evidence.expectedAmountRaw := by omega
    obtain ⟨outcome, decided, takes'⟩ := decideAmount_takes evidence open_
    rw [expected, allocated, arriving] at takes'
    rw [clears.decides, decided, takes.unique takes']
  · intro plan planned
    obtain ⟨takes, _, allocate, remainder⟩ := honorPlan_takes payable positive planned
    obtain ⟨_, left, _⟩ := (honorPlan_ok payable).mp ⟨plan, planned⟩
    exact ⟨left, by rw [allocate, remainder]; exact takes.splits.1⟩

def Sample.overpaidRow : ManualHonorRow where
  merchantId := 1
  fiatAmountMinor := 1000
  expectedRaw := 100
  attemptAllocatedRaw := 0
  transferRaw := 120
  transferAllocatedRaw := 0
  finality := .finalized
  processingState := .held
  boundToAttempt := true
  attemptStatus := .awaitingPayment
  intentStatus := .awaitingPayment
  withinLateWindow := true

theorem honor_splits_overpayment : ∃ plan, honorPlan Sample.overpaidRow 100 = .ok plan ∧
    plan.allocate + plan.remainder = 120 := by
  have split := honor_splits_as_settlement Sample.overpaidRow 100 ⟨rfl, by decide, rfl⟩ (by decide)
  obtain ⟨plan, planned⟩ := (split.1 rfl).1.mpr ⟨by decide, by decide⟩
  exact ⟨plan, planned, (split.2 plan planned).2⟩

end Honors
end CryptoGateway
