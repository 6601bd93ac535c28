/-! The arithmetic that terms and solvers are written over, rounded or exact. -/

namespace HingeLoss

class Scalar (α : Type) extends Zero α, One α, Add α, Sub α, Mul α, Div α, Neg α, NatCast α,
    LT α, LE α where
  decideLt : (left right : α) → Decidable (left < right)
  decideLe : (left right : α) → Decidable (left ≤ right)
  isFinite : α → Bool
  sqrt : α → α
  pow : α → α → α

/-- A narrow scalar has an exact image in a wide one. -/
class Widening (α : Type) (β : outParam Type) where
  widen : α → β

export Widening (widen)

namespace Scalar

variable {α : Type} [Scalar α]

instance (left right : α) : Decidable (left < right) := decideLt left right

instance (left right : α) : Decidable (left ≤ right) := decideLe left right

/-- Values below zero and values without an order against zero have the positive part zero. -/
@[inline] def positivePart (value : α) : α := if 0 < value then value else 0

/-- A value outside the unit interval moves to the nearer end. -/
@[inline] def clampUnit (value : α) : α :=
  if value < 0 then 0 else if 1 < value then 1 else value

@[inline] def absolute (value : α) : α := if value < 0 then -value else value

@[inline] def square (value : α) : α := value * value

/-- Two values are the same number. A value that is not a number is the same as none. -/
@[inline] def same (left right : α) : Bool := left ≤ right && right ≤ left

/-- The larger of two values. A value that is not a number gives way to the other. -/
@[inline] def larger (left right : α) : α :=
  if left < right then right else if left ≤ left then left else right

/-- This value is one over a power of ten. -/
@[inline] def tenth (places : Nat) : α := 1 / (Nat.pow 10 places : α)

@[inline] def two : α := ((2 : Nat) : α)

@[inline] def isPositive (value : α) : Bool := isFinite value && 0 < value

@[inline] def isNonnegative (value : α) : Bool := isFinite value && 0 ≤ value

end Scalar

end HingeLoss
