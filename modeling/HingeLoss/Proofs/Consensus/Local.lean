import HingeLoss.Proofs.Number.Exact
import HingeLoss.Consensus.Local

/-! The local step of one term admits a supporting line of the weighted shape. -/

namespace HingeLoss

namespace Weight

/-- What a weighted shape costs at a value of the linear form. A constraint costs nothing. -/
noncomputable def cost (weight : Weight ℝ) (shape : Shape) (raw : ℝ) : ℝ :=
  match weight with
  | .soft value => value * shape.apply raw
  | .hard => 0

/-- Whether a constraint holds at a value of the linear form. Potentials admit every value. -/
def Admits (weight : Weight ℝ) (shape : Shape) (raw : ℝ) : Prop :=
  weight = .hard → if shape.isHinged then raw ≤ 0 else raw = 0

/-- A soft weight is not negative. -/
def Nonnegative (weight : Weight ℝ) : Prop := ∀ value, weight = .soft value → 0 ≤ value

theorem admits_soft (value : ℝ) (shape : Shape) (raw : ℝ) : Admits (.soft value) shape raw :=
  nofun

end Weight

namespace LocalTerm

variable {weight penalty pulled norm other : ℝ}

/-- The step of a linear shape follows its slope. -/
theorem linear_supports (positive : 0 < penalty) :
    weight * (pulled - weight / penalty * norm) +
        penalty * (weight / penalty) * (other - (pulled - weight / penalty * norm)) ≤
      weight * other := by
  have slope : penalty * (weight / penalty) = weight := mul_div_cancel₀ weight positive.ne'
  rw [slope]
  linarith

/-- A hinge that is not above zero stays, one that stays above zero is linear, and one in between
stops at the corner, where its slope lies between zero and the weight. -/
theorem corner_supports (positive : 0 < penalty) (normPositive : 0 < norm)
    (above : 0 < pulled) (short : pulled - weight / penalty * norm < 0) :
    penalty * (pulled / norm) * other ≤ weight * max other 0 := by
  have slopeNonnegative : 0 ≤ penalty * (pulled / norm) := by positivity
  have slopeBelow : penalty * (pulled / norm) ≤ weight := by
    rw [mul_div_assoc', div_le_iff₀ normPositive]
    have scaled : pulled < weight / penalty * norm := by linarith
    rw [div_mul_eq_mul_div, lt_div_iff₀ positive] at scaled
    linarith
  rcases le_total other 0 with below | aboveZero
  · rw [max_eq_right below, mul_zero]
    exact mul_nonpos_of_nonneg_of_nonpos slopeNonnegative below
  · rw [max_eq_left aboveZero]
    exact mul_le_mul_of_nonneg_right slopeBelow aboveZero

/-- The step of a squared shape leads to a point where the slope is the penalty times the step. -/
theorem squaredStep_reaches (pulled : ℝ) (positive : 0 < penalty) (weightNonnegative : 0 ≤ weight)
    (normNonnegative : 0 ≤ norm) :
    pulled - stepLength.squaredStep norm weight penalty pulled * norm =
        pulled / (1 + 2 * weight * norm / penalty) ∧
      penalty * stepLength.squaredStep norm weight penalty pulled =
        2 * weight * (pulled / (1 + 2 * weight * norm / penalty)) := by
  unfold stepLength.squaredStep
  rw [Scalar.two_eq]
  have scale : 0 < 1 + 2 * weight * norm / penalty := by positivity
  constructor
  · field_simp
    ring
  · field_simp

theorem parabola_supports (weightNonnegative : 0 ≤ weight) (reached : ℝ) :
    weight * reached ^ 2 + 2 * weight * reached * (other - reached) ≤ weight * other ^ 2 := by
  have square : 0 ≤ weight * (other - reached) ^ 2 := by positivity
  linarith [square]

/-- The same for one branch of a parabola. -/
theorem branch_supports (weightNonnegative : 0 ≤ weight) {reached : ℝ} (above : 0 ≤ reached) :
    weight * max reached 0 ^ 2 + 2 * weight * reached * (other - reached) ≤
      weight * max other 0 ^ 2 := by
  rw [max_eq_left above]
  rcases le_total other 0 with below | aboveZero
  · rw [max_eq_right below]
    have crossed : 0 ≤ weight * reached * (-other) :=
      mul_nonneg (mul_nonneg weightNonnegative above) (by linarith)
    have square : 0 ≤ weight * reached ^ 2 := by positivity
    linarith [crossed, square]
  · rw [max_eq_left aboveZero]
    exact parabola_supports weightNonnegative reached

theorem project_norm (normPositive : 0 < norm) :
    pulled - (if 0 < norm then pulled / norm else 0) * norm = 0 := by
  rw [if_pos normPositive, div_mul_cancel₀ pulled normPositive.ne', sub_self]

/-- The point that a soft term steps to supports its cost. -/
theorem soft_supports {term : LocalTerm ℝ} (positive : 0 < penalty)
    (soft : term.weight = .soft weight) (weightNonnegative : 0 ≤ weight)
    (normNonnegative : 0 ≤ term.normSquared) :
    let step := term.stepLength penalty pulled
    let reached := pulled - step * term.normSquared
    term.weight.cost term.shape reached + penalty * step * (other - reached) ≤
      term.weight.cost term.shape other := by
  simp only [stepLength, soft, Weight.cost]
  cases term.shape with
  | linear => exact linear_supports positive
  | hinge =>
      simp only [Shape.apply_hinge]
      by_cases below : pulled ≤ 0
      · simp only [below, if_true, zero_mul, mul_zero, sub_zero, max_eq_right, add_zero]
        positivity
      · by_cases full : 0 ≤ pulled - weight / penalty * term.normSquared
        · simp only [below, full, if_true, if_false, max_eq_left]
          exact (linear_supports positive).trans
            (mul_le_mul_of_nonneg_left (le_max_left other 0) weightNonnegative)
        · have normPositive : 0 < term.normSquared := by
            refine lt_of_le_of_ne normNonnegative fun flat => full ?_
            rw [← flat, mul_zero, sub_zero]
            exact (not_le.mp below).le
          simp only [below, full, if_false, project_norm normPositive, max_self, mul_zero, zero_add,
            sub_zero]
          rw [if_pos normPositive]
          exact corner_supports positive normPositive (not_le.mp below) (not_le.mp full)
  | squaredLinear =>
      obtain ⟨reached, slope⟩ := squaredStep_reaches pulled positive weightNonnegative
        normNonnegative
      simp only [Shape.apply_squaredLinear, reached, slope]
      exact parabola_supports weightNonnegative _
  | squaredHinge =>
      simp only [Shape.apply_squaredHinge]
      by_cases below : pulled ≤ 0
      · simp only [below, if_true, zero_mul, mul_zero, sub_zero, max_eq_right, add_zero,
          zero_pow two_ne_zero]
        positivity
      · obtain ⟨reached, slope⟩ := squaredStep_reaches pulled positive weightNonnegative
          normNonnegative
        have above : 0 ≤ pulled / (1 + 2 * weight * term.normSquared / penalty) :=
          div_nonneg (not_le.mp below).le (by positivity)
        simp only [below, if_false, reached, slope]
        exact branch_supports weightNonnegative above

/-- The point that a constraint steps to satisfies it, and every other such point lies behind. -/
theorem hard_supports {term : LocalTerm ℝ} (positive : 0 < penalty) (hard : term.weight = .hard)
    (normNonnegative : 0 ≤ term.normSquared) (flat : term.normSquared = 0 → other = pulled)
    (admits : term.weight.Admits term.shape other) :
    let step := term.stepLength penalty pulled
    let reached := pulled - step * term.normSquared
    term.weight.Admits term.shape reached ∧ penalty * step * (other - reached) ≤ 0 := by
  have holds := admits hard
  rcases normNonnegative.eq_or_lt with flatNorm | normPositive
  · have same := flat flatNorm.symm
    simp only [← flatNorm, mul_zero, sub_zero, same, sub_self]
    exact ⟨same ▸ admits, le_refl _⟩
  · simp only [stepLength, hard]
    by_cases stays : (term.shape.isHinged && pulled ≤ 0) = true
    · rw [if_pos stays, zero_mul, sub_zero, mul_zero, zero_mul]
      refine ⟨fun _ => ?_, le_refl _⟩
      rw [Bool.and_eq_true, decide_eq_true_eq] at stays
      rw [if_pos stays.1]
      exact stays.2
    · rw [if_neg stays, project_norm normPositive, sub_zero, if_pos normPositive]
      constructor
      · intro _
        split <;> rfl
      · split at holds
        · rename_i hinged
          have above : 0 < pulled := by simpa [hinged] using stays
          exact mul_nonpos_of_nonneg_of_nonpos (by positivity) holds
        · rw [holds, mul_zero]

/-- The step of a term leads to a point that satisfies it, if any does, and that supports its cost.
-/
theorem stepLength_supports {term : LocalTerm ℝ} (positive : 0 < penalty)
    (nonnegative : term.weight.Nonnegative) (normNonnegative : 0 ≤ term.normSquared)
    (flat : term.normSquared = 0 → other = pulled)
    (admits : term.weight.Admits term.shape other) :
    let step := term.stepLength penalty pulled
    let reached := pulled - step * term.normSquared
    term.weight.Admits term.shape reached ∧
      term.weight.cost term.shape reached + penalty * step * (other - reached) ≤
        term.weight.cost term.shape other := by
  cases kind : term.weight with
  | soft weight =>
      refine ⟨Weight.admits_soft weight _ _, ?_⟩
      rw [← kind]
      exact soft_supports positive kind (nonnegative weight kind) normNonnegative
  | hard =>
      obtain ⟨holds, behind⟩ := hard_supports positive kind normNonnegative flat admits
      rw [kind] at holds
      refine ⟨holds, ?_⟩
      simp only [Weight.cost, zero_add]
      exact behind

/-- The linear form as a sum. -/
theorem rawAt_eq (term : LocalTerm ℝ) (valueOf : Copy ℝ → ℝ) :
    term.rawAt valueOf =
      term.constant + (term.copies.map fun copy => copy.coefficient * valueOf copy).sum :=
  foldl_add_eq _ _ _

theorem rawAt_sub_rawAt (term : LocalTerm ℝ) (first second : Copy ℝ → ℝ) :
    term.rawAt first - term.rawAt second =
      (term.copies.map fun copy => copy.coefficient * (first copy - second copy)).sum := by
  rw [rawAt_eq, rawAt_eq, add_sub_add_left_eq_sub, sub_eq_iff_eq_add, ← List.sum_map_add]
  congr 1
  exact List.map_congr_left fun copy _ => by ring

/-- The weight of a term is not negative and its norm is that of its coefficients. -/
structure Sound (term : LocalTerm ℝ) : Prop where
  nonnegative : term.weight.Nonnegative
  norm : term.normSquared = (term.copies.map fun copy => copy.coefficient ^ 2).sum

theorem Sound.norm_nonneg {term : LocalTerm ℝ} (sound : term.Sound) : 0 ≤ term.normSquared := by
  rw [sound.norm]
  refine List.sum_nonneg fun square member => ?_
  obtain ⟨copy, -, rfl⟩ := List.mem_map.mp member
  positivity

/-- Without a norm all coefficients are zero. -/
theorem Sound.coefficient_of_flat {term : LocalTerm ℝ} (sound : term.Sound)
    (flat : term.normSquared = 0) {copy : Copy ℝ} (member : copy ∈ term.copies) :
    copy.coefficient = 0 := by
  have squares := sound.norm.symm.trans flat
  have square : copy.coefficient ^ 2 ≤
      (term.copies.map fun copy => copy.coefficient ^ 2).sum :=
    List.single_le_sum (fun square member => by
      obtain ⟨copy, -, rfl⟩ := List.mem_map.mp member
      positivity) _ (List.mem_map_of_mem member)
  rw [squares] at square
  exact pow_eq_zero_iff two_ne_zero |>.mp (le_antisymm square (sq_nonneg _))

/-- Without a norm the linear form is constant. -/
theorem Sound.rawAt_of_flat {term : LocalTerm ℝ} (sound : term.Sound)
    (flat : term.normSquared = 0) (first second : Copy ℝ → ℝ) :
    term.rawAt first = term.rawAt second := by
  rw [← sub_eq_zero, rawAt_sub_rawAt]
  refine List.sum_eq_zero fun summand member => ?_
  obtain ⟨copy, copyMember, rfl⟩ := List.mem_map.mp member
  rw [sound.coefficient_of_flat flat copyMember, zero_mul]

/-- What a term costs at values of the atoms. -/
noncomputable def costAt (term : LocalTerm ℝ) (valueOf : AtomId → ℝ) : ℝ :=
  term.weight.cost term.shape (term.rawAt fun copy => valueOf copy.atom)

/-- Whether values of the atoms satisfy a term. -/
def AdmitsAt (term : LocalTerm ℝ) (valueOf : AtomId → ℝ) : Prop :=
  term.weight.Admits term.shape (term.rawAt fun copy => valueOf copy.atom)

/-- What a term costs at its own copies. -/
noncomputable def ownCost (term : LocalTerm ℝ) : ℝ :=
  term.weight.cost term.shape (term.rawAt Copy.value)

/-- Whether the copies of a term satisfy it. -/
def Holds (term : LocalTerm ℝ) : Prop := term.weight.Admits term.shape (term.rawAt Copy.value)

/-- One iteration of a term, between the values of the atoms before and after it. -/
noncomputable def update (before after : Array ℝ) (penalty : ℝ) (term : LocalTerm ℝ) :
    LocalTerm ℝ :=
  (term.minimize before penalty).raisePrices after penalty

/-- What one iteration makes of a copy. -/
noncomputable def updateCopy (before after : Array ℝ) (penalty step : ℝ) (copy : Copy ℝ) :
    Copy ℝ :=
  let value := pull before penalty copy - step * copy.coefficient
  { copy with value, price := copy.price + penalty * (value - valueAt after copy.atom) }

theorem copies_update (before after : Array ℝ) (penalty : ℝ) (term : LocalTerm ℝ) :
    (term.update before after penalty).copies =
      term.copies.map (updateCopy before after penalty
        (term.stepLength penalty (term.rawAt (pull before penalty)))) := by
  simp only [update, raisePrices, minimize, List.map_map]
  rfl

theorem rawAt_update (before after : Array ℝ) (penalty : ℝ) (term : LocalTerm ℝ)
    (valueOf : Copy ℝ → ℝ) :
    (term.update before after penalty).rawAt valueOf =
      term.rawAt fun copy => valueOf (updateCopy before after penalty
        (term.stepLength penalty (term.rawAt (pull before penalty))) copy) := by
  rw [rawAt_eq, rawAt_eq, copies_update, List.map_map]
  rfl

/-- After an iteration the copies satisfy their term, if any values do, and their prices support its
cost up to the move of the atoms. -/
theorem Sound.update_supports {term : LocalTerm ℝ} (sound : term.Sound)
    (positive : 0 < penalty) (before after : Array ℝ) {valueOf : AtomId → ℝ}
    (admits : term.AdmitsAt valueOf) :
    let moved := term.update before after penalty
    moved.Holds ∧
      moved.ownCost + (moved.copies.map fun copy =>
          (penalty * (valueAt before copy.atom - valueAt after copy.atom) - copy.price) *
            (valueOf copy.atom - copy.value)).sum ≤
        term.costAt valueOf := by
  intro moved
  let pulled := term.rawAt (pull before penalty)
  let step := term.stepLength penalty pulled
  have reached : moved.rawAt Copy.value = pulled - step * term.normSquared := by
    have difference := term.rawAt_sub_rawAt (pull before penalty)
      fun copy => pull before penalty copy - step * copy.coefficient
    have summand (copy : Copy ℝ) : copy.coefficient * (pull before penalty copy -
        (pull before penalty copy - step * copy.coefficient)) =
          step * copy.coefficient ^ 2 := by
      ring
    simp only [summand, List.sum_map_mul_left, ← sound.norm] at difference
    rw [← difference, rawAt_update]
    change _ = term.rawAt (pull before penalty) - _
    rw [sub_sub_cancel]
    rfl
  have slope : (moved.copies.map fun copy =>
      (penalty * (valueAt before copy.atom - valueAt after copy.atom) - copy.price) *
        (valueOf copy.atom - copy.value)).sum =
        penalty * step * ((term.rawAt fun copy => valueOf copy.atom) -
          moved.rawAt Copy.value) := by
    rw [rawAt_update, rawAt_sub_rawAt, copies_update, List.map_map, ← List.sum_map_mul_left]
    congr 1
    refine List.map_congr_left fun copy _ => ?_
    simp only [Function.comp_apply, updateCopy, pull]
    change _ = penalty * step * (copy.coefficient * (valueOf copy.atom - (_ - step * _)))
    field_simp
    ring
  rw [slope, ownCost, Holds, reached]
  exact stepLength_supports positive sound.nonnegative sound.norm_nonneg
    (fun flat => sound.rawAt_of_flat flat _ _) admits

end LocalTerm

end HingeLoss
