import HingeLoss.Number.Binary
import HingeLoss.Number.Scalar

/-! Single-precision numbers, each held as its 32 bits. -/

namespace HingeLoss

structure Single where
  bits : UInt32
deriving DecidableEq, Inhabited, Hashable

namespace Single

@[inline] def magnitude (value : Single) : Nat := (value.bits &&& 0x7fffffff).toNat

@[inline] def isNegative (value : Single) : Bool := 0x80000000 ≤ value.bits

@[inline] def isNaN (value : Single) : Bool := 0x7f800000 < (value.bits &&& 0x7fffffff)

@[inline] def isFinite (value : Single) : Bool := (value.bits &&& 0x7fffffff) < 0x7f800000

/-- This integer orders the numbers; both zeros have rank zero. -/
@[inline] def rank (value : Single) : Int :=
  if value.isNegative then -(value.magnitude : Int) else value.magnitude

@[inline] def toFloat (value : Single) : Float32 := Float32.ofBits value.bits

@[inline] def ofFloat (value : Float32) : Single := ⟨value.toBits⟩

/-- The number with a sign and a magnitude. -/
def ofMagnitude (negative : Bool) (magnitude : Nat) : Single :=
  ⟨(magnitude + if negative then BinaryFormat.single.signWeight else 0).toUInt32⟩

def ofNat (value : Nat) : Single := ofMagnitude false (BinaryFormat.single.nearest value 1)

instance : Scalar Single where
  zero := ⟨0⟩
  one := ⟨0x3f800000⟩
  add left right := ofFloat (left.toFloat + right.toFloat)
  sub left right := ofFloat (left.toFloat - right.toFloat)
  mul left right := ofFloat (left.toFloat * right.toFloat)
  div left right := ofFloat (left.toFloat / right.toFloat)
  neg value := ⟨value.bits ^^^ 0x80000000⟩
  natCast := ofNat
  lt left right := left.isNaN = false ∧ right.isNaN = false ∧ left.rank < right.rank
  le left right := left.isNaN = false ∧ right.isNaN = false ∧ left.rank ≤ right.rank
  decideLt _ _ := inferInstanceAs (Decidable (_ ∧ _))
  decideLe _ _ := inferInstanceAs (Decidable (_ ∧ _))
  isFinite := isFinite
  sqrt value := ofFloat value.toFloat.sqrt
  pow base exponent := ofFloat (base.toFloat ^ exponent.toFloat)

end Single

end HingeLoss
