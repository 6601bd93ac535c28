import HingeLoss.Proofs.Rule.Measure

/-! The terms of a comparison measure how far it is violated. -/

namespace HingeLoss

/-- What a rule charges for an amount. -/
noncomputable def penalty (squared : Bool) (amount : ℝ) : ℝ :=
  if squared then amount ^ 2 else amount

/-- Of two opposite directions at most one is charged. -/
theorem penalty_add_penalty_neg (squared : Bool) (difference : ℝ) :
    penalty squared (max 0 difference) + penalty squared (max 0 (-difference)) =
      penalty squared |difference| := by
  have nothing : penalty squared 0 = 0 := by cases squared <;> simp [penalty]
  rcases le_total 0 difference with above | below
  · rw [max_eq_right above, max_eq_left (neg_nonpos.mpr above), nothing, add_zero,
      abs_of_nonneg above]
  · rw [max_eq_left below, max_eq_right (neg_nonneg.mpr below), nothing, zero_add,
      abs_of_nonpos below]

namespace Term

variable {term : Term ℝ}

theorem cutOff_of_isHinged (hinged : term.shape.isHinged = true) (valueOf : AtomId → ℝ) :
    term.cutOff valueOf = max 0 (term.raw valueOf) := by
  rw [cutOff, if_pos hinged, max_comm]

/-- The objective of a soft hinge charges what its linear form has above zero. -/
theorem objective_of_isHinged {value : ℝ} (soft : term.weight = .soft value) {squared : Bool}
    (shape : term.shape = .ofFlags true squared) (valueOf : AtomId → ℝ) :
    term.objective valueOf = value * penalty squared (max 0 (term.raw valueOf)) := by
  have hinged : term.shape.isHinged = true := by rw [shape, Shape.isHinged_ofFlags]
  have isSquared : term.shape.isSquared = squared := by rw [shape, Shape.isSquared_ofFlags]
  unfold objective
  rw [soft, dissatisfaction_eq, isSquared, cutOff_of_isHinged hinged]
  rfl

end Term

namespace Comparison

variable {comparison : Comparison ℝ} {valueOf : AtomId → ℝ}

/-- By how much a comparison is violated. -/
noncomputable def violation (comparison : Comparison ℝ) (valueOf : AtomId → ℝ) : ℝ :=
  match comparison.comparator with
  | .atMost => max 0 (comparison.total valueOf - comparison.constant)
  | .atLeast => max 0 (comparison.constant - comparison.total valueOf)
  | .equal => |comparison.total valueOf - comparison.constant|

theorem violation_eq_zero_iff : comparison.violation valueOf = 0 ↔ comparison.Holds valueOf := by
  unfold violation Holds
  cases comparison.comparator with
  | atMost => exact max_eq_left_iff.trans sub_nonpos
  | atLeast => exact max_eq_left_iff.trans sub_nonpos
  | equal => exact abs_eq_zero.trans sub_eq_zero

/-- The objectives of the potentials of a soft comparison add up to its weighted violation. -/
theorem sum_objective_potentials {rule : Rule ℝ} {value : ℝ} (soft : rule.weight = .soft value) :
    ((comparison.potentials rule).map (·.objective valueOf)).sum =
      value * penalty rule.squared (comparison.violation valueOf) := by
  obtain ⟨id, name, weight, squared⟩ := rule
  dsimp only at soft
  subst soft
  have upper := @Term.objective_of_isHinged
    (comparison.excess (.ofFlags true squared) (.soft value)) value rfl squared rfl valueOf
  have lower := @Term.objective_of_isHinged
    (comparison.shortfall (.ofFlags true squared) (.soft value)) value rfl squared rfl valueOf
  rw [raw_excess] at upper
  rw [raw_shortfall] at lower
  unfold potentials violation
  cases comparison.comparator with
  | atMost => exact List.sum_singleton.trans upper
  | atLeast => exact List.sum_singleton.trans lower
  | equal =>
      have both := penalty_add_penalty_neg squared (comparison.total valueOf - comparison.constant)
      rw [neg_sub] at both
      refine (List.sum_pair ..).trans ?_
      rw [← both, mul_add]
      exact congrArg₂ (· + ·) upper lower

/-- The constraints of a hard comparison hold together exactly where the comparison holds. -/
theorem hold_potentials_iff {rule : Rule ℝ} (hard : rule.weight = .hard) :
    (∀ term ∈ comparison.potentials rule, term.holdsWithin valueOf 0 = true) ↔
      comparison.Holds valueOf := by
  rw [← violation_eq_zero_iff]
  have hinged := isHinged_hinged rule
  unfold potentials violation
  cases comparison.comparator with
  | atMost =>
      rw [List.forall_mem_singleton, Term.holdsWithin_zero_iff, Term.cutOff_of_isHinged hinged,
        raw_excess]
  | atLeast =>
      rw [List.forall_mem_singleton, Term.holdsWithin_zero_iff, Term.cutOff_of_isHinged hinged,
        raw_shortfall]
  | equal =>
      have linear : (comparison.excess .linear .hard).cutOff valueOf =
          comparison.total valueOf - comparison.constant := comparison.raw_excess valueOf _ _
      simp only [hard, List.forall_mem_singleton, Term.holdsWithin_zero_iff, linear, abs_eq_zero]

end Comparison

/-- A comparison is measured by its terms, whenever they are built and whatever the values are. The
objectives of a soft one add up to the weight times the violation or its square, and the constraints
of a hard one hold together without tolerance exactly where the comparison holds. -/
theorem comparison_measured {comparison : Comparison ℝ} {rule : Rule ℝ} {terms : List (Term ℝ)}
    (built : comparison.terms rule = .ok terms) (valueOf : AtomId → ℝ) :
    let violation := comparison.violation valueOf
    (∀ weight, rule.weight = .soft weight → (terms.map (·.objective valueOf)).sum =
        weight * (if rule.squared then violation ^ 2 else violation)) ∧
      (rule.weight = .hard →
        ((∀ term ∈ terms, term.holdsWithin valueOf 0 = true) ↔ comparison.Holds valueOf)) := by
  intro violation
  obtain ⟨rfl, -⟩ := Comparison.terms_ok built
  exact ⟨fun _ soft => Comparison.sum_objective_potentials soft, Comparison.hold_potentials_iff⟩

/-- An equality of two atoms under a squared rule: its hinges as a soft one, and its constraint. -/
theorem comparison_measured_sample :
    let rule (weight : Weight ℝ) : Rule ℝ := ⟨⟨0⟩, "near", weight, true⟩
    let near : Comparison ℝ := ⟨⟨0⟩, [⟨0⟩, ⟨1⟩], [2, -1], .equal, 3⟩
    ∃ hinges constraint, near.terms (rule (.soft 5)) = .ok hinges ∧ hinges.length = 2 ∧
      (hinges.map (·.objective fun _ => 1)).sum = 20 ∧
      near.terms (rule .hard) = .ok [constraint] ∧
      constraint.holdsWithin (fun _ => 1) 0 = false ∧
      constraint.holdsWithin (fun _ => 3) 0 = true := by
  intro rule near
  have hinges : near.terms (rule (.soft 5)) =
      .ok [near.excess .squaredHinge (.soft 5), near.shortfall .squaredHinge (.soft 5)] := by
    simp [near, rule, Comparison.terms, Comparison.above, Comparison.below, Comparison.excess,
      Comparison.shortfall, Rule.term, Term.build, Term.maxArity, Scalar.isFinite,
      Scalar.isNonnegative, Except.mapError, Shape.ofFlags, bind, Except.bind, pure, Except.pure]
  have constraint : near.terms (rule .hard) = .ok [near.excess .linear .hard] := rfl
  have total (value : ℝ) : near.total (fun _ => value) = value := by
    norm_num [near, Comparison.total]
    ring
  have objectives := (comparison_measured hinges fun _ => 1).1 5 rfl
  have violation : near.violation (fun _ => 1) = 2 := by
    have difference : near.violation (fun _ => 1) = |near.total (fun _ => 1) - 3| := rfl
    rw [difference, total]
    norm_num
  have holds (value : ℝ) :
      (near.excess .linear .hard).holdsWithin (fun _ => value) 0 = true ↔ value = 3 := by
    have each := (comparison_measured constraint fun _ => value).2 rfl
    rw [List.forall_mem_singleton] at each
    exact each.trans (iff_of_eq (congrArg (· = 3) (total value)))
  refine ⟨_, _, hinges, rfl, ?_, constraint, ?_, ?_⟩
  · rw [objectives, violation]
    norm_num [rule]
  · rw [← Bool.not_eq_true, holds]
    norm_num
  · exact (holds 3).mpr rfl

end HingeLoss
