import HingeLoss.Number.Scalar

/-! The shape of a potential: linear or hinged, squared or not. -/

namespace HingeLoss

inductive Shape where
  | linear
  | hinge
  | squaredLinear
  | squaredHinge
deriving DecidableEq, Inhabited

namespace Shape

def ofFlags (hinged squared : Bool) : Shape :=
  match hinged, squared with
  | false, false => linear
  | true, false => hinge
  | false, true => squaredLinear
  | true, true => squaredHinge

def isHinged : Shape → Bool
  | linear | squaredLinear => false
  | hinge | squaredHinge => true

def isSquared : Shape → Bool
  | linear | hinge => false
  | squaredLinear | squaredHinge => true

/-- The byte that stands for the shape in a record. -/
def tag : Shape → UInt8
  | linear => 0
  | hinge => 1
  | squaredLinear => 2
  | squaredHinge => 3

def ofTag? (tag : UInt8) : Option Shape :=
  if tag = 0 then some linear
  else if tag = 1 then some hinge
  else if tag = 2 then some squaredLinear
  else if tag = 3 then some squaredHinge
  else none

def name : Shape → String
  | linear => "linear"
  | hinge => "hinge"
  | squaredLinear => "squared-linear"
  | squaredHinge => "squared-hinge"

theorem ofFlags_flags (shape : Shape) : ofFlags shape.isHinged shape.isSquared = shape := by
  cases shape <;> rfl

theorem ofTag_tag (shape : Shape) : ofTag? shape.tag = some shape := by
  cases shape <;> rfl

variable {α : Type} [Scalar α]

@[inline] def apply (shape : Shape) (raw : α) : α :=
  match shape with
  | linear => raw
  | hinge => Scalar.positivePart raw
  | squaredLinear => Scalar.square raw
  | squaredHinge => Scalar.square (Scalar.positivePart raw)

/-- The derivative by the raw value. At the corner of a hinge it is zero. -/
@[inline] def slope (shape : Shape) (raw : α) : α :=
  match shape with
  | linear => 1
  | hinge => if 0 < raw then 1 else 0
  | squaredLinear => Scalar.two * raw
  | squaredHinge => Scalar.two * Scalar.positivePart raw

end Shape

end HingeLoss
