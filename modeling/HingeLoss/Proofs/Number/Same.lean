import Mathlib.Tactic.SplitIfs
import HingeLoss.Proofs.Number.Void
import HingeLoss.Term.Shape

/-! Sums, products and comparisons do not tell numbers apart that differ in the sign of a zero. -/

namespace HingeLoss

/-- Two scalars are the same number, or the same word where there is no number. -/
def Scalar.SameNumber {α : Type} [Scalar α] (left right : α) : Prop :=
  left = right ∨ Scalar.same left right = true

theorem Scalar.SameNumber.refl {α : Type} [Scalar α] (value : α) : SameNumber value value :=
  .inl rfl

open Scalar (SameNumber)
open Float.Model Float.Model.UnpackedFloat

/-- A number whose sign is dropped if it is a zero. -/
def unsignedZero : UnpackedFloat → UnpackedFloat
  | .zero _ => .zero .positive
  | other => other

theorem unsignedZero_add (format : Format) (left right : UnpackedFloat) :
    unsignedZero (UnpackedFloat.add format left right) =
      unsignedZero (UnpackedFloat.add format (unsignedZero left) (unsignedZero right)) := by
  cases left with
  | zero sign =>
      cases right with
      | zero other => cases sign <;> cases other <;> rfl
      | infinity | notANumber | finite => rfl
  | infinity | notANumber | finite => cases right <;> rfl

theorem unsignedZero_mul (format : Format) (left right : UnpackedFloat) :
    unsignedZero (UnpackedFloat.mul format left right) =
      unsignedZero (UnpackedFloat.mul format (unsignedZero left) (unsignedZero right)) := by
  cases left <;> cases right <;> rfl

theorem eq_or_zeros_of_unsignedZero {left right : UnpackedFloat}
    (same : unsignedZero left = unsignedZero right) :
    left = right ∨ ∃ first second, left = .zero first ∧ right = .zero second := by
  cases left with
  | zero first =>
      cases right with
      | zero second => exact .inr ⟨first, second, rfl, rfl⟩
      | infinity | notANumber | finite => cases same
  | infinity | notANumber | finite =>
      cases right with
      | zero => cases same
      | infinity | notANumber | finite => exact .inl same

/-- The rank of a word of which the upper half is negative. -/
def rankOfWord (half word : Nat) : Int :=
  if half ≤ word then -((word % half : Nat) : Int) else (word % half : Nat)

/-- Words of the same rank are equal, or both are zeros. -/
theorem eq_or_zeros_of_rankOfWord {half left right : Nat} (leftFits : left < 2 * half)
    (rightFits : right < 2 * half) (same : rankOfWord half left = rankOfWord half right) :
    left = right ∨ (left = 0 ∨ left = half) ∧ (right = 0 ∨ right = half) := by
  have remainder {word : Nat} (fits : word < 2 * half) :
      word % half = if half ≤ word then word - half else word := by
    split
    · rename_i above
      rw [Nat.mod_eq_sub_mod above, Nat.mod_eq_of_lt (by omega)]
    · rename_i below
      exact Nat.mod_eq_of_lt (Nat.lt_of_not_le below)
  unfold rankOfWord at same
  rw [remainder leftFits, remainder rightFits] at same
  split_ifs at same <;> omega

/-- Numbers that are kept in words. Arithmetic unpacks them and packs what it has rounded. -/
class Packed (α : Type) [Scalar α] where
  format : Format
  unpack : α → UnpackedFloat
  pack : UnpackedFloat → α
  add_eq (left right : α) :
    left + right = pack (UnpackedFloat.add format (unpack left) (unpack right))
  mul_eq (left right : α) :
    left * right = pack (UnpackedFloat.mul format (unpack left) (unpack right))
  unsignedZero_unpack {left right : α} (same : SameNumber left right) :
    unsignedZero (unpack left) = unsignedZero (unpack right)
  pack_zero (first second : Sign) : SameNumber (pack (.zero first)) (pack (.zero second))

namespace Scalar.SameNumber

variable {α : Type} [Scalar α] [Packed α] {left right other another : α}

theorem pack {left right : UnpackedFloat} (same : unsignedZero left = unsignedZero right) :
    SameNumber (Packed.pack left : α) (Packed.pack right) := by
  rcases eq_or_zeros_of_unsignedZero same with rfl | ⟨first, second, rfl, rfl⟩
  · exact .refl _
  · exact Packed.pack_zero first second

theorem add (first : SameNumber left other) (second : SameNumber right another) :
    SameNumber (left + right) (other + another) := by
  rw [Packed.add_eq, Packed.add_eq]
  apply SameNumber.pack
  rw [unsignedZero_add, Packed.unsignedZero_unpack first, Packed.unsignedZero_unpack second,
    ← unsignedZero_add]

theorem mul (first : SameNumber left other) (second : SameNumber right another) :
    SameNumber (left * right) (other * another) := by
  rw [Packed.mul_eq, Packed.mul_eq]
  apply SameNumber.pack
  rw [unsignedZero_mul, Packed.unsignedZero_unpack first, Packed.unsignedZero_unpack second,
    ← unsignedZero_mul]

end Scalar.SameNumber

namespace Double

variable {left right : Double}

theorem rank_eq (value : Double) : value.rank = rankOfWord 0x8000000000000000 value.bits.toNat := by
  have masked : value.magnitude = value.bits.toNat % 0x8000000000000000 := by
    rw [magnitude, UInt64.toNat_and]
    exact Nat.and_two_pow_sub_one_eq_mod _ 63
  unfold rank rankOfWord
  rw [masked]
  by_cases negative : value.isNegative = true
  · rw [if_pos negative, if_pos]
    exact UInt64.le_iff_toNat_le.mp (of_decide_eq_true negative)
  · rw [if_neg negative, if_neg]
    exact fun above => negative (decide_eq_true (UInt64.le_iff_toNat_le.mpr above))

theorem eq_or_zeros (same : SameNumber left right) :
    left = right ∨ (left = ⟨0⟩ ∨ left = ⟨0x8000000000000000⟩) ∧
      (right = ⟨0⟩ ∨ right = ⟨0x8000000000000000⟩) := by
  rcases same with equal | same
  · exact .inl equal
  · simp only [Scalar.same, Bool.and_eq_true, decide_eq_true_eq] at same
    have ranks : left.rank = right.rank := Int.le_antisymm same.1.2.2 same.2.2.2
    rw [rank_eq, rank_eq] at ranks
    have words := eq_or_zeros_of_rankOfWord left.bits.toNat_lt right.bits.toNat_lt ranks
    obtain ⟨leftBits⟩ := left
    obtain ⟨rightBits⟩ := right
    simpa [← UInt64.toNat_inj] using words

instance : Packed Double where
  format := .binary64
  unpack := unpacked
  pack := ofUnpacked
  add_eq := add_eq
  mul_eq := mul_eq
  unsignedZero_unpack same := by
    rcases eq_or_zeros same with rfl | ⟨rfl | rfl, rfl | rfl⟩ <;> rfl
  pack_zero first second := by
    cases first <;> cases second <;> exact .inr (by decide)

end Double

namespace Single

variable {left right other another : Single}

theorem magnitude_eq (value : Single) : value.magnitude = value.bits.toNat % 0x80000000 := by
  rw [magnitude, UInt32.toNat_and]
  exact Nat.and_two_pow_sub_one_eq_mod _ 31

theorem rank_eq (value : Single) : value.rank = rankOfWord 0x80000000 value.bits.toNat := by
  unfold rank rankOfWord
  rw [magnitude_eq]
  by_cases negative : value.isNegative = true
  · rw [if_pos negative, if_pos]
    exact UInt32.le_iff_toNat_le.mp (of_decide_eq_true negative)
  · rw [if_neg negative, if_neg]
    exact fun above => negative (decide_eq_true (UInt32.le_iff_toNat_le.mpr above))

theorem eq_or_zeros (same : SameNumber left right) :
    left = right ∨ (left = ⟨0⟩ ∨ left = ⟨0x80000000⟩) ∧
      (right = ⟨0⟩ ∨ right = ⟨0x80000000⟩) := by
  rcases same with equal | same
  · exact .inl equal
  · simp only [Scalar.same, Bool.and_eq_true, decide_eq_true_eq] at same
    have ranks : left.rank = right.rank := Int.le_antisymm same.1.2.2 same.2.2.2
    rw [rank_eq, rank_eq] at ranks
    have words := eq_or_zeros_of_rankOfWord left.bits.toNat_lt right.bits.toNat_lt ranks
    obtain ⟨leftBits⟩ := left
    obtain ⟨rightBits⟩ := right
    simpa [← UInt32.toNat_inj] using words

instance : Packed Single where
  format := .binary32
  unpack value := value.toFloat.toModel.unpack
  pack value := ofFloat (.ofModel (.pack value))
  add_eq _ _ := rfl
  mul_eq _ _ := rfl
  unsignedZero_unpack same := by
    rcases eq_or_zeros same with rfl | ⟨rfl | rfl, rfl | rfl⟩ <;> rfl
  pack_zero first second := by
    cases first <;> cases second <;> exact .inr (by decide)

theorem sameNumber_widen (same : SameNumber left right) :
    SameNumber (HingeLoss.widen left : Double) (HingeLoss.widen right) := by
  rcases eq_or_zeros same with rfl | ⟨rfl | rfl, rfl | rfl⟩
  · exact .refl _
  all_goals exact .inr (by decide)

/-- A number that is the same as zero is one of its two words. -/
theorem isVoid_widen {value : Single} (zero : Scalar.same value 0 = true) :
    (HingeLoss.widen value : Double).IsVoid := by
  rcases eq_or_zeros (.inr zero) with rfl | ⟨rfl | rfl, -⟩
  · exact .inl rfl
  · exact .inl rfl
  · exact .inr (.inl rfl)

theorem sameNumber_neg (same : SameNumber left right) : SameNumber (-left) (-right) := by
  rcases eq_or_zeros same with rfl | ⟨rfl | rfl, rfl | rfl⟩
  · exact .refl _
  all_goals exact .inr (by decide)

theorem isNaN_congr (same : SameNumber left right) : left.isNaN = right.isNaN := by
  rcases eq_or_zeros same with rfl | ⟨rfl | rfl, rfl | rfl⟩ <;> rfl

theorem rank_congr (same : SameNumber left right) : left.rank = right.rank := by
  rcases eq_or_zeros same with rfl | ⟨rfl | rfl, rfl | rfl⟩ <;> rfl

theorem lt_congr (first : SameNumber left other) (second : SameNumber right another) :
    left < right ↔ other < another := by
  change _ ∧ _ ∧ _ ↔ _ ∧ _ ∧ _
  rw [isNaN_congr first, isNaN_congr second, rank_congr first, rank_congr second]

theorem le_congr (first : SameNumber left other) (second : SameNumber right another) :
    left ≤ right ↔ other ≤ another := by
  change _ ∧ _ ∧ _ ↔ _ ∧ _ ∧ _
  rw [isNaN_congr first, isNaN_congr second, rank_congr first, rank_congr second]

theorem sameNumber_positivePart (same : SameNumber left right) :
    SameNumber (Scalar.positivePart left) (Scalar.positivePart right) := by
  unfold Scalar.positivePart
  simp only [lt_congr (.refl 0) same]
  split
  · exact same
  · exact .refl 0

theorem sameNumber_absolute (same : SameNumber left right) :
    SameNumber (Scalar.absolute left) (Scalar.absolute right) := by
  unfold Scalar.absolute
  simp only [lt_congr same (.refl 0)]
  split
  · exact sameNumber_neg same
  · exact same

theorem sameNumber_apply (shape : Shape) (same : SameNumber left right) :
    SameNumber (shape.apply left) (shape.apply right) := by
  cases shape with
  | linear => exact same
  | hinge => exact sameNumber_positivePart same
  | squaredLinear => exact same.mul same
  | squaredHinge => exact (sameNumber_positivePart same).mul (sameNumber_positivePart same)

end Single

end HingeLoss
