import HingeLoss.Number.Double

/-! No root lies below a product with zero, so a tolerance of zero is never met. -/

namespace HingeLoss

open Float.Model Float.Model.UnpackedFloat

namespace Double

/-- Both zeros, and the value that arithmetic gives where there is no number. -/
def IsVoid (value : Double) : Prop :=
  value = ⟨0⟩ ∨ value = ⟨0x8000000000000000⟩ ∨ value = ⟨0x7ff8000000000000⟩

/-- The number that arithmetic reads from the bits. -/
def unpacked (value : Double) : UnpackedFloat := value.toFloat.toModel.unpack

/-- The bits that arithmetic gives for a number. -/
def ofUnpacked (value : UnpackedFloat) : Double := ofFloat (.ofModel (pack value))

theorem mul_eq (left right : Double) :
    left * right = ofUnpacked (UnpackedFloat.mul .binary64 left.unpacked right.unpacked) := rfl

theorem add_eq (left right : Double) :
    left + right = ofUnpacked (UnpackedFloat.add .binary64 left.unpacked right.unpacked) := rfl

theorem sqrt_eq (value : Double) :
    Scalar.sqrt value = ofUnpacked (UnpackedFloat.sqrt .binary64 value.unpacked) := rfl

/-- A zero or no number. -/
def Weak (value : UnpackedFloat) : Prop := value = .notANumber ∨ ∃ sign, value = .zero sign

theorem IsVoid.weak {value : Double} (void : value.IsVoid) : Weak value.unpacked := by
  rcases void with rfl | rfl | rfl
  · exact .inr ⟨.positive, rfl⟩
  · exact .inr ⟨.negative, rfl⟩
  · exact .inl rfl

theorem isVoid_ofUnpacked {value : UnpackedFloat} (weak : Weak value) :
    (ofUnpacked value).IsVoid := by
  rcases weak with rfl | ⟨_ | _, rfl⟩
  · exact .inr (.inr rfl)
  · exact .inr (.inl rfl)
  · exact .inl rfl

theorem weak_mul (format : Format) {left right : UnpackedFloat} (weak : Weak left ∨ Weak right) :
    Weak (UnpackedFloat.mul format left right) := by
  rcases weak with (rfl | ⟨sign, rfl⟩) | (rfl | ⟨sign, rfl⟩)
  · exact .inl rfl
  · cases right with
    | infinity | notANumber => exact .inl rfl
    | zero | finite => exact .inr ⟨_, rfl⟩
  · cases left <;> exact .inl rfl
  · cases left with
    | infinity | notANumber => exact .inl rfl
    | zero | finite => exact .inr ⟨_, rfl⟩

theorem weak_add (format : Format) {left right : UnpackedFloat} (leftWeak : Weak left)
    (rightWeak : Weak right) : Weak (UnpackedFloat.add format left right) := by
  rcases leftWeak with rfl | ⟨sign, rfl⟩
  · exact .inl rfl
  · rcases rightWeak with rfl | ⟨other, rfl⟩
    · exact .inl rfl
    · cases sign <;> cases other <;> exact .inr ⟨_, rfl⟩

theorem isVoid_mul {left right : Double} (void : left.IsVoid ∨ right.IsVoid) :
    (left * right).IsVoid := by
  rw [mul_eq]
  exact isVoid_ofUnpacked (weak_mul _ (void.imp IsVoid.weak IsVoid.weak))

theorem isVoid_add {left right : Double} (leftVoid : left.IsVoid) (rightVoid : right.IsVoid) :
    (left + right).IsVoid := by
  rw [add_eq]
  exact isVoid_ofUnpacked (weak_add _ leftVoid.weak rightVoid.weak)

/-- The sign bit of components with a positive sign is not set. -/
theorem isNegative_packComponents (exponent : BitVec 11) (mantissa : BitVec 52) :
    (⟨.ofBitVec (packComponents .binary64 .positive exponent mantissa)⟩ : Double).isNegative =
      false := by
  have unset : (packComponents .binary64 .positive exponent mantissa).msb = false := by
    rw [packComponents, BitVec.msb_append, BitVec.msb_append]
    rfl
  rw [BitVec.msb_eq_false_iff_two_mul_lt] at unset
  change 2 * (packComponents .binary64 .positive exponent mantissa).toNat < 2 ^ 64 at unset
  rw [isNegative, decide_eq_false_iff_not, UInt64.le_iff_toNat_le]
  change ¬ 2 ^ 63 ≤ (packComponents .binary64 .positive exponent mantissa).toNat
  omega

theorem isNegative_ofUnpacked_positive (mantissa : Nat) (exponent : Int)
    (positive : 0 < mantissa) :
    (ofUnpacked (.finite .positive mantissa exponent positive)).isNegative = false := by
  change (⟨.ofBitVec (UnpackedFloat.pack .binary64 _)⟩ : Double).isNegative = false
  delta UnpackedFloat.pack
  dsimp only
  split
  · rfl
  · split
    · exact isNegative_packComponents _ _
    · exact isNegative_packComponents _ _

theorem isNegative_ofUnpacked_dite {test : Prop} [Decidable test] {holds : test → UnpackedFloat}
    {fails : ¬ test → UnpackedFloat} (ifHolds : ∀ yes, (ofUnpacked (holds yes)).isNegative = false)
    (ifFails : ∀ no, (ofUnpacked (fails no)).isNegative = false) :
    (ofUnpacked (dite test holds fails)).isNegative = false := by
  by_cases yes : test
  · rw [dif_pos yes]
    exact ifHolds yes
  · rw [dif_neg yes]
    exact ifFails yes

/-- A root has a negative sign only if it is a zero. -/
theorem isNegative_sqrt (value : Double) :
    (Scalar.sqrt value : Double).isNegative = false ∨
      (Scalar.sqrt value : Double) = ⟨0x8000000000000000⟩ := by
  rw [sqrt_eq]
  cases value.unpacked with
  | notANumber => exact .inl rfl
  | infinity sign => cases sign <;> exact .inl rfl
  | zero sign =>
      cases sign with
      | positive => exact .inl rfl
      | negative => exact .inr rfl
  | finite sign mantissa exponent positive =>
      cases sign with
      | negative => exact .inl rfl
      | positive =>
          delta UnpackedFloat.sqrt roundWithAccuracy
          exact .inl (isNegative_ofUnpacked_dite (fun _ => rfl)
            fun _ => isNegative_ofUnpacked_positive _ _ _)

/-- No root lies below a zero. -/
theorem not_sqrt_lt (value : Double) {bound : Double} (void : bound.IsVoid) :
    ¬ Scalar.sqrt value < bound := by
  rintro ⟨-, number, below⟩
  have zero : bound.rank = 0 := by
    rcases void with rfl | rfl | rfl
    · rfl
    · rfl
    · cases number
  have above : 0 ≤ (Scalar.sqrt value : Double).rank := by
    rcases isNegative_sqrt value with unsigned | same
    · rw [rank, unsigned]
      exact Int.natCast_nonneg _
    · rw [same]
      decide
  rw [zero] at below
  exact Int.not_lt.mpr above below

end Double

end HingeLoss
