import HingeLoss.Proofs.Consensus.Start
import HingeLoss.Proofs.Descent.Followable

/-! The occurrences of an atom move it in turn, which need not be the projected gradient step. -/

namespace HingeLoss

namespace Scalar

theorem clampUnit_of_mem {value : ℝ} (nonnegative : 0 ≤ value) (atMostOne : value ≤ 1) :
    clampUnit value = value := by
  rw [clampUnit_eq, min_eq_right atMostOne, max_eq_right nonnegative]

theorem clampUnit_of_nonpos {value : ℝ} (below : value ≤ 0) : clampUnit value = 0 := by
  rw [clampUnit_eq, min_eq_right (below.trans zero_le_one), max_eq_left below]

theorem clampUnit_of_one_le {value : ℝ} (above : 1 ≤ value) : clampUnit value = 1 := by
  rw [clampUnit_eq, min_eq_left above, max_eq_right zero_le_one]

/-- Moves that are made one after another, each of them cut off at the ends of the unit interval. -/
noncomputable def moveInTurn (value : ℝ) (moves : List ℝ) : ℝ :=
  moves.foldl (fun value move => clampUnit (value - move)) value

theorem moveInTurn_inUnit {value : ℝ} (inUnit : 0 ≤ value ∧ value ≤ 1) (moves : List ℝ) :
    0 ≤ moveInTurn value moves ∧ moveInTurn value moves ≤ 1 := by
  induction moves generalizing value with
  | nil => exact inUnit
  | cons move later inductionHypothesis =>
      exact inductionHypothesis (AtomStore.clampUnit_inUnit (value - move))

/-- Once the moves have led out of the unit interval, none goes back. -/
def Unopposed (value : ℝ) (moves : List ℝ) : Prop :=
  ∀ before after, moves = before ++ after →
    (value - before.sum < 0 → ∀ move ∈ after, 0 ≤ move) ∧
      (1 < value - before.sum → ∀ move ∈ after, move ≤ 0)

variable {value : ℝ} {moves : List ℝ}

/-- Moves of one sign do not go against each other. -/
theorem unopposed_of_nonneg (atMostOne : value ≤ 1) (sameSign : ∀ move ∈ moves, 0 ≤ move) :
    Unopposed value moves := by
  rintro before after rfl
  rw [List.forall_mem_append] at sameSign
  refine ⟨fun _ => sameSign.2, fun above => absurd above (not_lt.mpr ?_)⟩
  linarith [List.sum_nonneg sameSign.1]

theorem unopposed_of_nonpos (nonnegative : 0 ≤ value) (sameSign : ∀ move ∈ moves, move ≤ 0) :
    Unopposed value moves := by
  rintro before after rfl
  rw [List.forall_mem_append] at sameSign
  refine ⟨fun below => absurd below (not_lt.mpr ?_), fun _ => sameSign.2⟩
  linarith [List.sum_le_card_nsmul before 0 sameSign.1, smul_zero (A := ℝ) before.length]

/-- Multiples of values of one sign have one sign. -/
theorem unopposed_of_sameSign {values : List ℝ} (nonnegative : 0 ≤ value) (atMostOne : value ≤ 1)
    (sameSign : (∀ item ∈ values, 0 ≤ item) ∨ ∀ item ∈ values, item ≤ 0) (factor : ℝ) :
    Unopposed value (values.map fun item => factor * item) := by
  rcases le_total 0 factor with forward | backward <;> rcases sameSign with above | below
  · exact unopposed_of_nonneg atMostOne (List.forall_mem_map.mpr fun item member =>
      mul_nonneg forward (above item member))
  · exact unopposed_of_nonpos nonnegative (List.forall_mem_map.mpr fun item member =>
      mul_nonpos_of_nonneg_of_nonpos forward (below item member))
  · exact unopposed_of_nonpos nonnegative (List.forall_mem_map.mpr fun item member =>
      mul_nonpos_of_nonpos_of_nonneg backward (above item member))
  · exact unopposed_of_nonneg atMostOne (List.forall_mem_map.mpr fun item member =>
      mul_nonneg_of_nonpos_of_nonpos backward (below item member))

theorem Unopposed.tail {move : ℝ} (unopposed : Unopposed value (move :: moves)) :
    Unopposed (value - move) moves := by
  rintro before after rfl
  have further := unopposed (move :: before) after rfl
  rwa [List.sum_cons, ← sub_sub] at further

/-- A move from the nearest point of the unit interval ends where the move from the point itself
would. -/
theorem Unopposed.clampUnit_sub {move : ℝ} (unopposed : Unopposed value (move :: moves)) :
    clampUnit (clampUnit value - move) = clampUnit (value - move) := by
  obtain ⟨stayBelow, stayAbove⟩ := unopposed [] _ rfl
  rw [List.sum_nil, sub_zero] at stayBelow stayAbove
  rcases lt_or_ge value 0 with below | nonnegative
  · have further := stayBelow below move List.mem_cons_self
    rw [clampUnit_of_nonpos below.le, clampUnit_of_nonpos (by linarith),
      clampUnit_of_nonpos (by linarith)]
  · rcases lt_or_ge 1 value with above | atMostOne
    · have further := stayAbove above move List.mem_cons_self
      rw [clampUnit_of_one_le above.le, clampUnit_of_one_le (by linarith),
        clampUnit_of_one_le (by linarith)]
    · rw [clampUnit_of_mem nonnegative atMostOne]

/-- Moves that do not go against each other can be made at once. -/
theorem Unopposed.moveInTurn_eq (unopposed : Unopposed value moves) :
    moveInTurn (clampUnit value) moves = clampUnit (value - moves.sum) := by
  induction moves generalizing value with
  | nil => rw [List.sum_nil, sub_zero]; rfl
  | cons move later inductionHypothesis =>
      rw [moveInTurn, List.foldl_cons, unopposed.clampUnit_sub, List.sum_cons, ← sub_sub]
      exact inductionHypothesis unopposed.tail

/-- Without any length, the moves lead nowhere. -/
theorem moveInTurn_of_zero (nonnegative : 0 ≤ value) (atMostOne : value ≤ 1)
    (zero : ∀ move ∈ moves, move = 0) : moveInTurn value moves = value := by
  have unopposed := unopposed_of_nonneg atMostOne fun move member => (zero move member).ge
  have turned := unopposed.moveInTurn_eq
  rwa [List.sum_eq_zero zero, sub_zero, clampUnit_of_mem nonnegative atMostOne] at turned

end Scalar

namespace Term

/-- The coefficients of the occurrences of the atom of an index, in their order. -/
def coefficientsAt (term : Term ℝ) (index : Nat) : List ℝ :=
  (term.entries.filter fun entry => entry.1.index = index).map Prod.snd

/-- An atom that a term does not have has no coefficients. -/
theorem coefficientsAt_of_apart {term : Term ℝ} {index : Nat}
    (apart : ∀ atom ∈ term.atoms, atom.index ≠ index) : term.coefficientsAt index = [] := by
  rw [coefficientsAt, List.map_eq_nil_iff, List.filter_eq_nil_iff]
  intro entry member here
  exact apart entry.1 (List.of_mem_zip member).1 (of_decide_eq_true here)

end Term

namespace Epoch

open Scalar (moveInTurn Unopposed)

variable {plan : EpochPlan ℝ} {epoch : Epoch ℝ ℝ}

/-- Without adaptive steps, an entry moves its own atom alone, and only if this is free. -/
theorem values_moveAtom (plain : plan.adagrad = false) (scale : ℝ) (entry : AtomId × ℝ) :
    (moveAtom plan scale epoch entry).values =
      if plan.records[entry.1.index]?.any fun record => !record.fixed then
        epoch.values.setIfInBounds entry.1.index (Scalar.clampUnit
          (valueAt epoch.values entry.1 - plan.step * (scale * entry.2)))
      else epoch.values := by
  unfold moveAtom
  dsimp only
  cases plan.records[entry.1.index]? with
  | none => rfl
  | some record => cases fixed : record.fixed <;> simp [fixed, plain]

theorem getD_moveAtom (plain : plan.adagrad = false) (scale : ℝ) {index : Nat}
    {record : AtomRecord ℝ} (found : plan.records[index]? = some record)
    (inside : index < epoch.values.size) (entry : AtomId × ℝ) :
    (moveAtom plan scale epoch entry).values.getD index 0 =
      if entry.1.index = index ∧ record.fixed = false then
        Scalar.clampUnit (epoch.values.getD index 0 - plan.step * (scale * entry.2))
      else epoch.values.getD index 0 := by
  rw [values_moveAtom plain]
  by_cases here : entry.1.index = index
  · subst here
    cases fixed : record.fixed <;> simp [found, fixed, valueAt, inside]
  · have apart : ¬ (entry.1.index = index ∧ record.fixed = false) := fun both => here both.1
    rw [if_neg apart, Array.getD_eq_getD_getElem?, Array.getD_eq_getD_getElem?]
    split
    · rw [Array.getElem?_setIfInBounds_ne here]
    · rfl

theorem getD_foldl_moveAtom (plain : plan.adagrad = false) (scale : ℝ) {index : Nat}
    {record : AtomRecord ℝ} (found : plan.records[index]? = some record)
    (inside : index < epoch.values.size) (entries : List (AtomId × ℝ)) :
    (entries.foldl (moveAtom plan scale) epoch).values.getD index 0 =
      if record.fixed = false then
        moveInTurn (epoch.values.getD index 0)
          (((entries.filter fun entry => entry.1.index = index).map Prod.snd).map
            fun coefficient => plan.step * (scale * coefficient))
      else epoch.values.getD index 0 := by
  induction entries generalizing epoch with
  | nil => simp [moveInTurn]
  | cons entry later inductionHypothesis =>
      rw [List.foldl_cons, inductionHypothesis (by rwa [size_moveAtom]),
        getD_moveAtom plain scale found inside, List.filter_cons]
      by_cases here : entry.1.index = index <;> by_cases free : record.fixed = false <;>
        simp [here, free, moveInTurn]

/-- The values of the unit interval, one for each atom. -/
structure Ranged (records : Array (AtomRecord ℝ)) (values : Array ℝ) : Prop where
  size : values.size = records.size
  inUnit : ∀ index, 0 ≤ values.getD index 0 ∧ values.getD index 0 ≤ 1

/-- Following a potential moves each free atom by all of its occurrences in turn. The slope is taken
before the first move. -/
theorem follow_moves {term : Term ℝ} {weight : ℝ} (soft : term.weight = .soft weight)
    (plain : plan.adagrad = false) (ranged : Ranged plan.records epoch.values)
    (held : ∀ atom ∈ term.atoms, atom.index < plan.records.size) :
    let slope := weight * term.shape.slope (term.raw (valueAt epoch.values))
    ∃ after, follow plan epoch term = .ok after ∧ after.values.size = epoch.values.size ∧
      ∀ index record, plan.records[index]? = some record →
        after.values.getD index 0 =
          if record.fixed = false then
            moveInTurn (epoch.values.getD index 0) ((term.coefficientsAt index).map
              fun coefficient => plan.step * (slope * coefficient))
          else epoch.values.getD index 0 := by
  intro slope
  have potential : term.isHard = false := by rw [Term.isHard, soft]; rfl
  have scale : term.gradientScale (term.raw (valueAt epoch.values)) = slope := by
    rw [Term.gradientScale, soft]
  have checked : (checkAtoms epoch.values.size term.atoms : Except (SolverFault ℝ) Unit) = .ok () :=
    checkAtoms_ok (ranged.size ▸ held)
  simp only [follow, potential, Bool.false_eq_true, if_false, checked, scale]
  split
  · rename_i flat
    refine ⟨_, rfl, rfl, fun index record _ => ?_⟩
    -- the step is skipped, and its moves would have had no length
    have level : slope = 0 := by
      simp only [Scalar.same, Bool.and_eq_true, decide_eq_true_eq] at flat
      exact le_antisymm flat.1 flat.2
    have still : moveInTurn (epoch.values.getD index 0) ((term.coefficientsAt index).map
        fun coefficient => plan.step * (slope * coefficient)) = epoch.values.getD index 0 :=
      Scalar.moveInTurn_of_zero (ranged.inUnit index).1 (ranged.inUnit index).2
        (List.forall_mem_map.mpr fun coefficient _ => by rw [level, zero_mul, mul_zero])
    rw [still, ite_self]
  · refine ⟨_, rfl, size_foldl_moveAtom _ term.entries, fun index record found => ?_⟩
    let counted : Epoch ℝ ℝ := { epoch with visited := epoch.visited + 1 }
    have inside : index < counted.values.size :=
      Nat.lt_of_lt_of_eq (Array.getElem?_eq_some_iff.mp found).1 ranged.size.symm
    exact getD_foldl_moveAtom plain slope found inside term.entries

/-- An observed atom rests, and so does an atom that the term does not have. -/
theorem rests_of_moved {term : Term ℝ} {index : Nat} {record : AtomRecord ℝ} {move : ℝ → ℝ}
    {before after : ℝ} (moved : after = if record.fixed = false then
      moveInTurn before ((term.coefficientsAt index).map move) else before)
    (resting : record.fixed = true ∨ ∀ atom ∈ term.atoms, atom.index ≠ index) :
    after = before := by
  rw [moved]
  rcases resting with fixed | apart
  · rw [fixed, if_neg (by simp)]
  · rw [Term.coefficientsAt_of_apart apart]
    exact ite_self _

end Epoch

open Scalar (moveInTurn Unopposed)

/-- The step of a potential moves each free atom by its occurrences in turn, and is the projected
gradient step if none goes against one that was cut off. -/
theorem occurrences_move_in_turn {plan : EpochPlan ℝ} {epoch : Epoch ℝ ℝ} {term : Term ℝ}
    {weight : ℝ} (soft : term.weight = .soft weight) (plain : plan.adagrad = false)
    (ranged : Epoch.Ranged plan.records epoch.values)
    (held : ∀ atom ∈ term.atoms, atom.index < plan.records.size) :
    let slope := weight * term.shape.slope (term.raw (valueAt epoch.values))
    ∃ after, Epoch.follow plan epoch term = .ok after ∧ after.values.size = epoch.values.size ∧
      ∀ index record, plan.records[index]? = some record →
        let value := epoch.values.getD index 0
        let coefficients := term.coefficientsAt index
        let moves := coefficients.map fun coefficient => plan.step * (slope * coefficient)
        (record.fixed = true ∨ (∀ atom ∈ term.atoms, atom.index ≠ index) →
            after.values.getD index 0 = value) ∧
          (record.fixed = false →
            after.values.getD index 0 = moveInTurn value moves ∧
              ((∀ coefficient ∈ coefficients, 0 ≤ coefficient) ∨
                  (∀ coefficient ∈ coefficients, coefficient ≤ 0) ∨ Unopposed value moves →
                after.values.getD index 0 =
                  Scalar.clampUnit (value - plan.step * (slope * coefficients.sum)))) := by
  intro slope
  obtain ⟨after, followed, size, moved⟩ := Epoch.follow_moves soft plain ranged held
  refine ⟨after, followed, size, fun index record found => ?_⟩
  intro value coefficients moves
  have inUnit := ranged.inUnit index
  constructor
  · exact Epoch.rests_of_moved (moved index record found)
  · intro free
    have turned := (moved index record found).trans (if_pos free)
    refine ⟨turned, fun sameSign => turned.trans ?_⟩
    have factored : moves = coefficients.map fun coefficient => plan.step * slope * coefficient :=
      List.map_congr_left fun coefficient _ => (mul_assoc _ _ _).symm
    have unopposed : Unopposed value moves := by
      rcases sameSign with above | below | unopposed
      · exact factored ▸ Scalar.unopposed_of_sameSign inUnit.1 inUnit.2 (.inl above) _
      · exact factored ▸ Scalar.unopposed_of_sameSign inUnit.1 inUnit.2 (.inr below) _
      · exact unopposed
    have total : moves.sum = plan.step * (slope * coefficients.sum) := by
      rw [factored, List.sum_map_mul_left, List.map_id', mul_assoc]
    rw [← total, ← unopposed.moveInTurn_eq, Scalar.clampUnit_of_mem inUnit.1 inUnit.2]

section Sample

/-- Steps over one free atom. -/
noncomputable def lonePlan (value step : ℝ) : EpochPlan ℝ := ⟨#[⟨value, false⟩], false, step⟩

noncomputable def loneEpoch (value : ℝ) : Epoch ℝ ℝ := ⟨#[value], #[], 0, 0⟩

/-- A term that has the atom twice. -/
noncomputable def twiceTerm (first second : ℝ) : Term ℝ :=
  ⟨⟨0⟩, .linear, .soft 1, 0, [⟨0⟩, ⟨0⟩], [first, second]⟩

theorem loneEpoch_ranged {value : ℝ} (inUnit : 0 ≤ value ∧ value ≤ 1) (step : ℝ) :
    Epoch.Ranged (lonePlan value step).records (loneEpoch value).values where
  size := rfl
  inUnit index := by
    cases index with
    | zero => simpa [loneEpoch] using inUnit
    | succ index => simp [loneEpoch]

theorem twiceTerm_held (value step first second : ℝ) :
    ∀ atom ∈ (twiceTerm first second).atoms, atom.index < (lonePlan value step).records.size := by
  simp [twiceTerm, lonePlan, AtomId.index]

theorem coefficientsAt_twiceTerm (first second : ℝ) :
    (twiceTerm first second).coefficientsAt 0 = [first, second] := by
  simp [Term.coefficientsAt, twiceTerm, Term.entries, AtomId.index]

/-- Two occurrences that pull the same way move the atom by their sum. -/
theorem occurrences_move_in_turn_sample :
    ∃ after, Epoch.follow (lonePlan (1 / 2) (1 / 8)) (loneEpoch (1 / 2)) (twiceTerm 1 1) =
        .ok after ∧
      after.values.getD 0 0 = 1 / 4 := by
  have soft : (twiceTerm 1 1).weight = .soft 1 := rfl
  obtain ⟨after, followed, -, moved⟩ := occurrences_move_in_turn soft rfl
    (loneEpoch_ranged (by norm_num) (1 / 8)) (twiceTerm_held (1 / 2) (1 / 8) 1 1)
  refine ⟨after, followed, ?_⟩
  have projected := ((moved 0 ⟨1 / 2, false⟩ rfl).2 rfl).2
  rw [coefficientsAt_twiceTerm] at projected
  rw [projected (.inl (by simp))]
  norm_num [lonePlan, loneEpoch, twiceTerm, Shape.slope, Scalar.clampUnit]

/-- Two occurrences that pull against each other can lead the wrong way. Together their coefficients
are two, and the projected gradient step from one half leads to zero. But the first occurrence moves
the atom to zero, and the second one from there to one, where the objective is greatest. -/
theorem opposed_occurrences_overshoot :
    let term := twiceTerm 3 (-1)
    let epoch := loneEpoch (1 / 2)
    let slope := Shape.linear.slope (term.raw (valueAt epoch.values))
    term.Accepted ∧
      Scalar.clampUnit (epoch.values.getD 0 0 -
        1 * (1 * slope * (term.coefficientsAt 0).sum)) = 0 ∧
      ∃ after, Epoch.follow (lonePlan (1 / 2) 1) epoch term = .ok after ∧
        after.values.getD 0 0 = 1 ∧ term.objective (valueAt epoch.values) = 1 ∧
        term.objective (valueAt after.values) = 2 := by
  intro term epoch slope
  refine ⟨?_, ?_, ?_⟩
  · simp [term, Term.Accepted, Term.build, twiceTerm, Term.maxArity, Scalar.isFinite,
      Scalar.isNonnegative]
  · rw [coefficientsAt_twiceTerm]
    norm_num [slope, epoch, loneEpoch, Shape.slope, Scalar.clampUnit]
  · have soft : (twiceTerm 3 (-1)).weight = .soft 1 := rfl
    obtain ⟨after, followed, -, moved⟩ := Epoch.follow_moves soft rfl
      (loneEpoch_ranged (by norm_num) 1) (twiceTerm_held (1 / 2) 1 3 (-1))
    have atEnd : after.values.getD 0 0 = 1 := by
      rw [moved 0 ⟨1 / 2, false⟩ rfl, coefficientsAt_twiceTerm]
      norm_num [moveInTurn, lonePlan, loneEpoch, twiceTerm, Shape.slope, Scalar.clampUnit]
    have objective (values : Array ℝ) : term.objective (valueAt values) = 2 * values.getD 0 0 := by
      simp only [term, twiceTerm, Term.objective, Term.dissatisfaction, Term.raw, Term.entries,
        Shape.apply, valueAt, AtomId.index, List.zip_cons_cons, List.zip_nil_left, List.foldl_cons,
        List.foldl_nil, UInt32.toNat_zero]
      ring
    refine ⟨after, followed, atEnd, ?_, ?_⟩
    · rw [objective]
      norm_num [epoch, loneEpoch]
    · rw [objective, atEnd, mul_one]

end Sample

end HingeLoss
