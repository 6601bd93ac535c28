import HingeLoss.Number.Single

/-! Double-precision numbers, and the two ways between them and single-precision ones. -/

namespace HingeLoss

structure Double where
  bits : UInt64
deriving DecidableEq, Inhabited

namespace Double

@[inline] def magnitude (value : Double) : Nat := (value.bits &&& 0x7fffffffffffffff).toNat

@[inline] def isNegative (value : Double) : Bool := 0x8000000000000000 ≤ value.bits

@[inline] def isNaN (value : Double) : Bool :=
  0x7ff0000000000000 < (value.bits &&& 0x7fffffffffffffff)

@[inline] def isFinite (value : Double) : Bool :=
  (value.bits &&& 0x7fffffffffffffff) < 0x7ff0000000000000

/-- This integer orders the numbers; both zeros have rank zero. -/
@[inline] def rank (value : Double) : Int :=
  if value.isNegative then -(value.magnitude : Int) else value.magnitude

@[inline] def toFloat (value : Double) : Float := Float.ofBits value.bits

@[inline] def ofFloat (value : Float) : Double := ⟨value.toBits⟩

/-- The number with a sign and a magnitude. -/
def ofMagnitude (negative : Bool) (magnitude : Nat) : Double :=
  ⟨(magnitude + if negative then BinaryFormat.double.signWeight else 0).toUInt64⟩

def ofNat (value : Nat) : Double := ofMagnitude false (BinaryFormat.double.nearest value 1)

def ofInt (value : Int) : Double :=
  ofMagnitude (value < 0) (BinaryFormat.double.nearest value.natAbs 1)

instance : Scalar Double where
  zero := ⟨0⟩
  one := ⟨0x3ff0000000000000⟩
  add left right := ofFloat (left.toFloat + right.toFloat)
  sub left right := ofFloat (left.toFloat - right.toFloat)
  mul left right := ofFloat (left.toFloat * right.toFloat)
  div left right := ofFloat (left.toFloat / right.toFloat)
  neg value := ⟨value.bits ^^^ 0x8000000000000000⟩
  natCast := ofNat
  lt left right := left.isNaN = false ∧ right.isNaN = false ∧ left.rank < right.rank
  le left right := left.isNaN = false ∧ right.isNaN = false ∧ left.rank ≤ right.rank
  decideLt _ _ := inferInstanceAs (Decidable (_ ∧ _))
  decideLe _ _ := inferInstanceAs (Decidable (_ ∧ _))
  isFinite := isFinite
  sqrt value := ofFloat value.toFloat.sqrt
  pow base exponent := ofFloat (base.toFloat ^ exponent.toFloat)

/-- The nearest single-precision number. -/
def narrow (value : Double) : Single :=
  if value.isNaN then Single.ofMagnitude value.isNegative 0x7fc00000
  else if value.isFinite then
    let (significand, exponent) := BinaryFormat.double.unpack value.magnitude
    Single.ofMagnitude value.isNegative (BinaryFormat.single.nearestScaled significand exponent)
  else Single.ofMagnitude value.isNegative BinaryFormat.single.infinity

end Double

namespace Single

/-- A normal number keeps its fraction and moves its exponent by the difference of the biases; a
subnormal one becomes normal. -/
def widen (value : Single) : Double :=
  let sign : UInt64 := (value.bits >>> 31).toUInt64 <<< 63
  let magnitude : UInt64 := (value.bits &&& 0x7fffffff).toUInt64
  if 0x7f800000 ≤ magnitude then
    let fraction : UInt64 := (magnitude &&& 0x7fffff) <<< 29
    ⟨sign ||| (0x7ff0000000000000 : UInt64) ||| fraction⟩
  else if 0x800000 ≤ magnitude then ⟨sign ||| ((magnitude <<< 29) + 0x3800000000000000)⟩
  else if magnitude = 0 then ⟨sign⟩
  else
    let top := magnitude.toNat.log2
    let exponent : UInt64 := (top + 874).toUInt64 <<< 52
    let fraction : UInt64 := (magnitude <<< (52 - top).toUInt64) &&& 0xfffffffffffff
    ⟨sign ||| exponent ||| fraction⟩

instance : Widening Single Double where
  widen := widen

end Single

end HingeLoss
