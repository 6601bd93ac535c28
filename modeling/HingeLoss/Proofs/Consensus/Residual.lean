import HingeLoss.Proofs.Consensus.Energy

/-! The residuals of an iteration are the roots of its disagreement and of its movement. -/

namespace HingeLoss

theorem first_foldl_add {γ : Type} (summand : γ → Sums ℝ) (items : List γ) (begun : Sums ℝ) :
    (items.foldl (fun sums item => sums.add (summand item)) begun).first =
      begun.first + (items.map fun item => (summand item).first).sum := by
  induction items generalizing begun with
  | nil => simp
  | cons item later inductionHypothesis =>
      rw [List.foldl_cons, inductionHypothesis, List.map_cons, List.sum_cons, ← add_assoc]
      rfl

/-- In exact arithmetic, a sum is the same however it is taken. -/
theorem first_total {γ : Type} (summand : γ → Sums ℝ) (tree : SumTree) (items : List γ) :
    (tree.total Sums.add Sums.zero summand items).first =
      (items.map fun item => (summand item).first).sum := by
  induction tree generalizing items with
  | leaf => exact (first_foldl_add summand items Sums.zero).trans (zero_add _)
  | node firstLength first second sumFirst sumSecond =>
      refine (congrArg₂ (· + ·) (sumFirst _) (sumSecond _)).trans ?_
      rw [← List.sum_append, ← List.map_append, List.take_append_drop]

namespace ConsensusState

variable {plan : Plan ℝ ℝ} {begun state : ConsensusState ℝ} {star : AtomId → ℝ}
  {prices : Nat × Nat → ℝ}

theorem first_copySquares (values : Array ℝ) (term : LocalTerm ℝ) :
    (copySquares values term : Sums ℝ).first =
      (term.copies.map fun copy => (copy.value - valueAt values copy.atom) ^ 2).sum := by
  refine (first_foldl_add _ term.copies Sums.zero).trans ((zero_add _).trans ?_)
  congr 1
  exact List.map_congr_left fun copy _ => Scalar.square_eq _

theorem primal_iterate (plan : Plan ℝ ℝ) (state : ConsensusState ℝ) :
    (iterate plan state).2.primal = √(disagreement (iterate plan state).1) := by
  refine congrArg Real.sqrt ((first_total _ _ _).trans ?_)
  simp only [first_copySquares]
  exact (sum_copiesOf _ _).symm

theorem first_moveSquares (counts : Array Nat) (before after : Array ℝ) :
    (moveSquares counts before after : ℝ × ℝ).1 =
      ∑ index ∈ Finset.range after.size,
        (counts.getD index 0 : ℝ) * (after.getD index 0 - before.getD index 0) ^ 2 := by
  unfold moveSquares
  induction after.size with
  | zero => rfl
  | succ size inductionHypothesis =>
      rw [List.range_succ, List.foldl_append, Finset.sum_range_succ, ← inductionHypothesis,
        List.foldl_cons, List.foldl_nil]
      cases counts.getD size 0 with
      | zero => simp
      | succ count =>
          rw [sq, ← mul_assoc]
          rfl

/-- The movement counts every atom as often as it has copies. -/
theorem Regular.movement_eq (regular : Regular plan begun state) (initial : Initial plan begun)
    (before : Array ℝ) :
    movement before state = (moveSquares plan.counts before state.values : ℝ × ℝ).1 := by
  have atoms := atomsOf_congr regular.frames
  rw [first_moveSquares]
  refine (sum_eq_sum_places (fun copy => copy.atom.index) _ fun copy member => ?_).trans
    (Finset.sum_congr rfl fun index member => ?_)
  · rw [regular.size]
    exact initial.inRange _ (atoms ▸ List.mem_map_of_mem member)
  · have inside := regular.size ▸ Finset.mem_range.mp member
    have same : ∀ copy ∈ copiesAt state.terms index,
        (valueAt state.values copy.atom - valueAt before copy.atom) ^ 2 =
          (state.values.getD index 0 - before.getD index 0) ^ 2 := by
      intro copy here
      rw [← of_decide_eq_true (List.mem_filter.mp here).2]
      rfl
    rw [initial.counted index inside, length_copiesAt, ← atoms, ← length_copiesAt]
    change ((copiesAt state.terms index).map _).sum = _
    rw [List.map_congr_left same, List.map_const', List.sum_replicate, nsmul_eq_mul]

theorem Regular.dual_iterate (regular : Regular plan begun state) (initial : Initial plan begun)
    (positive : 0 < plan.penalty) :
    (ConsensusState.iterate plan state).2.dual =
      plan.penalty * √(movement state.values (ConsensusState.iterate plan state).1) := by
  rw [(regular.iterate initial positive).movement_eq initial]
  rfl

theorem sum_squares_nonneg {γ : Type} (items : List γ) (base : γ → ℝ) :
    0 ≤ (items.map fun item => base item ^ 2).sum := by
  refine List.sum_nonneg fun square member => ?_
  obtain ⟨item, -, rfl⟩ := List.mem_map.mp member
  exact sq_nonneg _

theorem disagreement_nonneg (state : ConsensusState ℝ) : 0 ≤ disagreement state :=
  sum_squares_nonneg _ _

theorem movement_nonneg (before : Array ℝ) (state : ConsensusState ℝ) :
    0 ≤ movement before state :=
  sum_squares_nonneg _ _

theorem energy_nonneg {penalty : ℝ} (positive : 0 < penalty) (star : AtomId → ℝ)
    (prices : Nat × Nat → ℝ) (state : ConsensusState ℝ) : 0 ≤ energy penalty star prices state :=
  add_nonneg (mul_nonneg positive.le (sum_squares_nonneg _ _))
    (mul_nonneg (one_div_pos.mpr positive).le (sum_squares_nonneg _ _))

/-- An iteration has converged when what it lowers the energy by is small against the slack. -/
theorem Regular.converged_of_small (regular : Regular plan begun state)
    (initial : Initial plan begun) (positive : 0 < plan.penalty) (slack : 0 < plan.slack)
    (relative : 0 ≤ plan.epsilonRel)
    (small : plan.penalty * (disagreement (ConsensusState.iterate plan state).1 +
        movement state.values (ConsensusState.iterate plan state).1) <
      min (plan.penalty * plan.slack ^ 2) (plan.slack ^ 2 / plan.penalty)) :
    (ConsensusState.iterate plan state).2.converged = true := by
  have primal := primal_iterate plan state
  have dual := regular.dual_iterate initial positive
  have primalBound : plan.slack ≤ (ConsensusState.iterate plan state).2.primalBound := by
    refine le_add_of_nonneg_right (mul_nonneg relative ?_)
    rw [Scalar.larger_eq]
    exact le_max_of_le_left (Real.sqrt_nonneg _)
  have dualBound : plan.slack ≤ (ConsensusState.iterate plan state).2.dualBound :=
    le_add_of_nonneg_right (mul_nonneg relative (Real.sqrt_nonneg _))
  revert primal dual primalBound dualBound small
  generalize ConsensusState.iterate plan state = result
  intro small primal dual primalBound dualBound
  obtain ⟨belowPrimal, belowDual⟩ := lt_min_iff.mp small
  have disagreementLt : disagreement result.1 < plan.slack ^ 2 := by
    have := movement_nonneg state.values result.1
    exact lt_of_mul_lt_mul_left (by nlinarith) positive.le
  have movementLt : plan.penalty ^ 2 * movement state.values result.1 < plan.slack ^ 2 := by
    have := disagreement_nonneg result.1
    rw [lt_div_iff₀ positive] at belowDual
    nlinarith
  simp only [Residuals.converged, Bool.and_eq_true, decide_eq_true_eq]
  constructor
  · rw [primal]
    exact ((Real.sqrt_lt' slack).mpr disagreementLt).trans_le primalBound
  · rw [dual]
    refine lt_of_lt_of_le (lt_of_pow_lt_pow_left₀ 2 slack.le ?_) dualBound
    rwa [mul_pow, Real.sq_sqrt (movement_nonneg _ _)]

/-- A quantity that is never negative cannot fall by a fixed amount in every step. -/
theorem exists_small_fall {energy fall : Nat → ℝ} {bound : ℝ} (positive : 0 < bound)
    (nonneg : ∀ count, 0 ≤ energy count)
    (descent : ∀ count, energy (count + 1) + fall count ≤ energy count) :
    ∃ count, fall count < bound := by
  by_contra large
  push Not at large
  have telescoped (count : Nat) : energy count + count * bound ≤ energy 0 := by
    induction count with
    | zero => simp
    | succ count inductionHypothesis =>
        push_cast
        linarith [descent count, large count]
  obtain ⟨count, enough⟩ := exists_nat_gt (energy 0 / bound)
  rw [div_lt_iff₀ positive] at enough
  linarith [telescoped count, nonneg count]

/-- With a saddle point, some iteration of a run converges. -/
theorem Initial.exists_converged (initial : Initial plan begun) (positive : 0 < plan.penalty)
    (slack : 0 < plan.slack) (relative : 0 ≤ plan.epsilonRel)
    (saddle : SaddlePoint begun.terms star prices) :
    ∃ count, (iterate plan (run plan begun count)).2.converged = true := by
  have bound : 0 < min (plan.penalty * plan.slack ^ 2) (plan.slack ^ 2 / plan.penalty) :=
    lt_min (mul_pos positive (pow_pos slack 2)) (div_pos (pow_pos slack 2) positive)
  obtain ⟨count, small⟩ := exists_small_fall bound
    (fun count => energy_nonneg positive star prices (run plan begun count))
    fun count => by
      rw [run_succ]
      exact (initial.run_regular positive count).energy_iterate initial positive saddle
  exact ⟨count, (initial.run_regular positive count).converged_of_small initial positive slack
    relative small⟩

end ConsensusState

end HingeLoss
