import Mathlib.Analysis.SpecialFunctions.Pow.Real
import HingeLoss.Number.Scalar
import HingeLoss.Term.Shape

/-! The real numbers are a scalar all of whose values are finite. -/

namespace HingeLoss

noncomputable instance : Scalar ℝ where
  toZero := Real.instZero
  toOne := Real.instOne
  toAdd := Real.instAdd
  toSub := Real.instSub
  toMul := Real.instMul
  toDiv := inferInstance
  toNeg := Real.instNeg
  toNatCast := Real.instNatCast
  toLT := Real.instLT
  toLE := Real.instLE
  decideLt _ _ := Classical.propDecidable _
  decideLe _ _ := Classical.propDecidable _
  isFinite _ := true
  sqrt := Real.sqrt
  pow := Real.rpow

instance : Widening ℝ ℝ := ⟨id⟩

namespace Scalar

theorem square_eq (value : ℝ) : square value = value ^ 2 := (sq value).symm

theorem two_eq : (two : ℝ) = 2 := Nat.cast_ofNat

theorem positivePart_eq (value : ℝ) : positivePart value = max value 0 := by
  unfold positivePart
  split
  · rename_i positive
    exact (max_eq_left positive.le).symm
  · rename_i notPositive
    exact (max_eq_right (not_lt.mp notPositive)).symm

theorem clampUnit_eq (value : ℝ) : clampUnit value = max 0 (min 1 value) := by
  unfold clampUnit
  split
  · rename_i negative
    rw [min_eq_right (by linarith), max_eq_left negative.le]
  · rename_i notNegative
    split
    · rename_i large
      rw [min_eq_left large.le, max_eq_right zero_le_one]
    · rename_i notLarge
      rw [min_eq_right (not_lt.mp notLarge), max_eq_right (not_lt.mp notNegative)]

theorem absolute_eq (value : ℝ) : absolute value = |value| := by
  unfold absolute
  split
  · rename_i negative
    exact (abs_of_neg negative).symm
  · rename_i notNegative
    exact (abs_of_nonneg (not_lt.mp notNegative)).symm

theorem larger_eq (left right : ℝ) : larger left right = max left right := by
  unfold larger
  split
  · rename_i less
    exact (max_eq_right less.le).symm
  · rename_i notLess
    rw [if_pos le_rfl, max_eq_left (not_lt.mp notLess)]

end Scalar

/-- A sum that is taken item by item, from a start on. -/
theorem foldl_add_eq {γ : Type} (summand : γ → ℝ) (items : List γ) (start : ℝ) :
    items.foldl (fun sum item => sum + summand item) start = start + (items.map summand).sum := by
  induction items generalizing start with
  | nil => simp
  | cons item later inductionHypothesis =>
      rw [List.foldl_cons, inductionHypothesis, List.map_cons, List.sum_cons, add_assoc]

theorem Shape.apply_hinge (raw : ℝ) : hinge.apply raw = max raw 0 :=
  Scalar.positivePart_eq raw

theorem Shape.apply_squaredLinear (raw : ℝ) : squaredLinear.apply raw = raw ^ 2 :=
  Scalar.square_eq raw

theorem Shape.apply_squaredHinge (raw : ℝ) : squaredHinge.apply raw = max raw 0 ^ 2 := by
  rw [← Scalar.positivePart_eq]
  exact Scalar.square_eq _

end HingeLoss
