import HingeLoss.Proofs.Consensus.Proximal
import HingeLoss.Proofs.Descent.Projection
import HingeLoss.Proofs.Rule.Truth

/-! A step on distinct atoms lowers the linear form of its own term, and so its dissatisfaction. -/

namespace HingeLoss

/-- A move that is cut off at the ends of the unit interval is made in part. -/
theorem Scalar.exists_share {value : ℝ} (nonnegative : 0 ≤ value) (atMostOne : value ≤ 1)
    (move : ℝ) :
    ∃ share, 0 ≤ share ∧ share ≤ 1 ∧ clampUnit (value - move) = value - share * move := by
  rcases lt_or_ge (value - move) 0 with below | aboveZero
  · have forward : 0 < move := by linarith
    refine ⟨value / move, div_nonneg nonnegative forward.le, (div_le_one forward).mpr (by linarith),
      ?_⟩
    rw [clampUnit_of_nonpos below.le, div_mul_cancel₀ value forward.ne', sub_self]
  · rcases lt_or_ge 1 (value - move) with above | belowOne
    · have backward : move < 0 := by linarith
      refine ⟨(value - 1) / move, div_nonneg_of_nonpos (by linarith) backward.le,
        (div_le_one_of_neg backward).mpr (by linarith), ?_⟩
      rw [clampUnit_of_one_le above.le, div_mul_cancel₀ _ backward.ne, sub_sub_cancel]
    · exact ⟨1, zero_le_one, le_refl 1, by rw [clampUnit_of_mem aboveZero belowOne, one_mul]⟩

/-- Summands that fall by parts of some bounds fall together by a part of their sum. -/
theorem exists_fall {γ : Type} {items : List γ} {before after bound : γ → ℝ} {factor : ℝ}
    (each : ∀ item ∈ items, ∃ part, 0 ≤ part ∧ part ≤ bound item ∧
      after item = before item - factor * part) :
    ∃ total, 0 ≤ total ∧ total ≤ (items.map bound).sum ∧
      (items.map after).sum = (items.map before).sum - factor * total := by
  induction items with
  | nil => exact ⟨0, le_refl 0, le_refl 0, by simp⟩
  | cons item later inductionHypothesis =>
      rw [List.forall_mem_cons] at each
      obtain ⟨⟨part, partNonnegative, partBelow, moved⟩, eachLater⟩ := each
      obtain ⟨total, nonnegative, below, movedLater⟩ := inductionHypothesis eachLater
      refine ⟨part + total, add_nonneg partNonnegative nonnegative, ?_, ?_⟩
      · rw [List.map_cons, List.sum_cons]
        exact add_le_add partBelow below
      · rw [List.map_cons, List.map_cons, List.sum_cons, List.sum_cons, moved, movedLater]
        ring

/-- A step against the slope of a shape never raises it, if the step over an unhinged square is no
longer than to the point opposite. -/
theorem Shape.apply_step_le (shape : Shape) {raw step weight total : ℝ} (stepNonnegative : 0 ≤ step)
    (weightNonnegative : 0 ≤ weight) (totalNonnegative : 0 ≤ total)
    (short : shape = .squaredLinear → step * weight * total ≤ 1) :
    shape.apply (raw - step * (weight * shape.slope raw) * total) ≤ shape.apply raw := by
  have lengthNonnegative : 0 ≤ step * weight * total :=
    mul_nonneg (mul_nonneg stepNonnegative weightNonnegative) totalNonnegative
  generalize length : step * weight * total = way at lengthNonnegative short
  have regrouped : step * (weight * shape.slope raw) * total = way * shape.slope raw := by
    rw [← length]
    ring
  rw [regrouped]
  cases shape with
  | linear =>
      change raw - way * 1 ≤ raw
      linarith
  | hinge =>
      rw [apply_hinge, apply_hinge]
      refine max_le_max_right 0 (sub_le_self raw (mul_nonneg lengthNonnegative ?_))
      change 0 ≤ if 0 < raw then (1 : ℝ) else 0
      split
      · exact zero_le_one
      · exact le_refl _
  | squaredLinear =>
      have slope : squaredLinear.slope raw = 2 * raw := by rw [Shape.slope, Scalar.two_eq]
      rw [apply_squaredLinear, apply_squaredLinear, slope, sq_le_sq]
      have factored : raw - way * (2 * raw) = (1 - 2 * way) * raw := by ring
      have contracts : |1 - 2 * way| ≤ 1 :=
        abs_le.mpr ⟨by linarith [short rfl], by linarith⟩
      rw [factored, abs_mul]
      exact mul_le_of_le_one_left (abs_nonneg raw) contracts
  | squaredHinge =>
      have slope : squaredHinge.slope raw = 2 * max raw 0 := by
        rw [Shape.slope, Scalar.two_eq, Scalar.positivePart_eq]
      rw [apply_squaredHinge, apply_squaredHinge, slope]
      have lower : raw - way * (2 * max raw 0) ≤ raw :=
        sub_le_self raw (mul_nonneg lengthNonnegative
          (mul_nonneg zero_le_two (le_max_right raw 0)))
      exact pow_le_pow_left₀ (le_max_right _ 0) (max_le_max_right 0 lower) 2

theorem StepSchedule.step_nonneg (schedule : StepSchedule ℝ) {rate : ℝ} (positive : 0 < rate)
    (epoch : Nat) : 0 ≤ schedule.step rate epoch := by
  cases schedule with
  | constant => exact positive.le
  | inverseScale exponent =>
      exact div_nonneg positive.le (Real.rpow_nonneg (Nat.cast_nonneg _) exponent)

namespace Term

variable {term : Term ℝ}

/-- The square of a coefficient, if its atom is free. -/
def freeSquare (records : Array (AtomRecord ℝ)) (entry : AtomId × ℝ) : ℝ :=
  if records[entry.1.index]?.any fun record => !record.fixed then entry.2 ^ 2 else 0

theorem sum_freeSquare (records : Array (AtomRecord ℝ)) (term : Term ℝ) :
    (term.entries.map (freeSquare records)).sum =
      ((term.freeCoefficients records).map fun coefficient => coefficient ^ 2).sum := by
  rw [freeCoefficients]
  induction term.entries with
  | nil => rfl
  | cons entry later inductionHypothesis =>
      rw [List.map_cons, List.sum_cons, inductionHypothesis, List.filter_cons, freeSquare]
      split <;> simp

/-- Among entries of distinct atoms, an atom has one entry. -/
theorem filter_of_distinct {entries : List (AtomId × ℝ)} (distinct : (entries.map Prod.fst).Nodup)
    {entry : AtomId × ℝ} (member : entry ∈ entries) :
    (entries.filter fun other => other.1.index = entry.1.index) = [entry] := by
  induction entries with
  | nil => exact absurd member List.not_mem_nil
  | cons first later inductionHypothesis =>
      rw [List.map_cons, List.nodup_cons] at distinct
      rw [List.filter_cons]
      rcases List.mem_cons.mp member with rfl | memberLater
      · have none : (later.filter fun other => other.1.index = entry.1.index) = [] := by
          refine List.filter_eq_nil_iff.mpr fun other otherMember same => distinct.1 ?_
          rw [← AtomId.index_injective (of_decide_eq_true same)]
          exact List.mem_map_of_mem otherMember
        rw [if_pos (decide_eq_true rfl), none]
      · have apart : first.1.index ≠ entry.1.index := fun same => distinct.1
          (AtomId.index_injective same ▸ List.mem_map_of_mem memberLater)
        rw [if_neg (by simpa using apart)]
        exact inductionHypothesis distinct.2 memberLater

theorem coefficientsAt_of_distinct (distinct : (term.entries.map Prod.fst).Nodup)
    {entry : AtomId × ℝ} (member : entry ∈ term.entries) :
    term.coefficientsAt entry.1.index = [entry.2] := by
  rw [coefficientsAt, filter_of_distinct distinct member, List.map_singleton]

end Term

namespace Epoch

open Scalar (moveInTurn)

variable {plan : EpochPlan ℝ} {epoch : Epoch ℝ ℝ} {term : Term ℝ} {weight : ℝ}

/-- Values are in the unit interval if those of the atoms are, since there are no others. -/
theorem ranged_of_inside {records : Array (AtomRecord ℝ)} {values : Array ℝ}
    (size : values.size = records.size)
    (inside : ∀ index record, records[index]? = some record →
      0 ≤ values.getD index 0 ∧ values.getD index 0 ≤ 1) : Ranged records values where
  size := size
  inUnit index := by
    cases found : records[index]? with
    | some record => exact inside index record found
    | none =>
        have outside : values.size ≤ index := size.trans_le (Array.getElem?_eq_none_iff.mp found)
        rw [Array.getD_eq_getD_getElem?, Array.getElem?_eq_none outside]
        exact ⟨le_refl _, zero_le_one⟩

/-- The move of the only entry of an atom changes what the entry adds to the linear form against the
slope, by a part of the square of its coefficient. An observed atom does not move. -/
theorem exists_part {record : AtomRecord ℝ} {value after step slope coefficient : ℝ}
    (inUnit : 0 ≤ value ∧ value ≤ 1) (moved : after = if record.fixed = false then
      moveInTurn value [step * (slope * coefficient)] else value) :
    ∃ part, 0 ≤ part ∧ (part ≤ if !record.fixed then coefficient ^ 2 else 0) ∧
      coefficient * after = coefficient * value - step * slope * part := by
  cases fixed : record.fixed with
  | true =>
      rw [fixed, if_neg (by simp)] at moved
      exact ⟨0, le_refl 0, by simp, by rw [moved, mul_zero, sub_zero]⟩
  | false =>
      obtain ⟨share, nonnegative, atMostOne, cut⟩ :=
        Scalar.exists_share inUnit.1 inUnit.2 (step * (slope * coefficient))
      refine ⟨share * coefficient ^ 2, mul_nonneg nonnegative (sq_nonneg _), ?_, ?_⟩
      · simpa using mul_le_of_le_one_left (sq_nonneg coefficient) atMostOne
      · rw [moved, fixed, if_pos rfl, moveInTurn, List.foldl_cons, List.foldl_nil, cut]
        ring

/-- A step over distinct atoms lowers the linear form by a part of the squares of the coefficients,
and its values stay in the unit interval. -/
theorem follow_lowers (soft : term.weight = .soft weight) (plain : plan.adagrad = false)
    (ranged : Ranged plan.records epoch.values)
    (held : ∀ atom ∈ term.atoms, atom.index < plan.records.size)
    (distinct : (term.entries.map Prod.fst).Nodup) :
    ∃ after, follow plan epoch term = .ok after ∧ Ranged plan.records after.values ∧
      (∀ index record, plan.records[index]? = some record →
        (record.fixed = true ∨ ∀ atom ∈ term.atoms, atom.index ≠ index) →
        after.values.getD index 0 = epoch.values.getD index 0) ∧
      ∃ total, 0 ≤ total ∧
        total ≤ ((term.freeCoefficients plan.records).map fun coefficient => coefficient ^ 2).sum ∧
        term.raw (valueAt after.values) = term.raw (valueAt epoch.values) -
          plan.step * (weight * term.shape.slope (term.raw (valueAt epoch.values))) * total := by
  obtain ⟨after, followed, size, moved⟩ := follow_moves soft plain ranged held
  refine ⟨after, followed, ranged_of_inside (size.trans ranged.size) ?_,
    fun index record found => rests_of_moved (moved index record found), ?_⟩
  · intro index record found
    rw [moved index record found]
    split
    · exact Scalar.moveInTurn_inUnit (ranged.inUnit index) _
    · exact ranged.inUnit index
  · have each : ∀ entry ∈ term.entries, ∃ part, 0 ≤ part ∧
        part ≤ Term.freeSquare plan.records entry ∧
        entry.2 * valueAt after.values entry.1 = entry.2 * valueAt epoch.values entry.1 -
          plan.step * (weight * term.shape.slope (term.raw (valueAt epoch.values))) * part := by
      intro entry member
      have found := Array.getElem?_eq_getElem (held entry.1 (List.of_mem_zip member).1)
      have value := moved entry.1.index _ found
      rw [Term.coefficientsAt_of_distinct distinct member] at value
      rw [Term.freeSquare, found]
      exact exists_part (ranged.inUnit entry.1.index) value
    obtain ⟨total, nonnegative, below, fallen⟩ := exists_fall each
    refine ⟨total, nonnegative, below.trans_eq (Term.sum_freeSquare plan.records term), ?_⟩
    rw [Term.raw_eq, Term.raw_eq, fallen, Term.raw_eq]
    ring

/-- A step over distinct atoms does not raise the dissatisfaction of its term, if a step over an
unhinged square is short. -/
theorem follow_never_worse (soft : term.weight = .soft weight) (weightNonnegative : 0 ≤ weight)
    (plain : plan.adagrad = false) (stepNonnegative : 0 ≤ plan.step)
    (ranged : Ranged plan.records epoch.values)
    (held : ∀ atom ∈ term.atoms, atom.index < plan.records.size)
    (distinct : (term.entries.map Prod.fst).Nodup)
    (short : term.shape = .squaredLinear → plan.step * weight *
      ((term.freeCoefficients plan.records).map fun coefficient => coefficient ^ 2).sum ≤ 1)
    {after : Epoch ℝ ℝ} (followed : follow plan epoch term = .ok after) :
    term.dissatisfaction (valueAt after.values) ≤ term.dissatisfaction (valueAt epoch.values) := by
  obtain ⟨other, otherFollowed, -, -, total, nonnegative, below, lowered⟩ :=
    follow_lowers soft plain ranged held distinct
  obtain rfl : after = other := Except.ok.inj (followed.symm.trans otherFollowed)
  rw [Term.dissatisfaction, lowered]
  refine term.shape.apply_step_le stepNonnegative weightNonnegative nonnegative fun square => ?_
  exact (mul_le_mul_of_nonneg_left below (mul_nonneg stepNonnegative weightNonnegative)).trans
    (short square)

end Epoch

end HingeLoss
