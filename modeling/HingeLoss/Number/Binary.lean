/-! Binary floating point words over the natural numbers, with rounding to the nearest. -/

namespace HingeLoss

/-- The widths of a binary floating point format. -/
structure BinaryFormat where
  exponentBits : Nat
  fractionBits : Nat

namespace BinaryFormat

def single : BinaryFormat := ⟨8, 23⟩

def double : BinaryFormat := ⟨11, 52⟩

/-- This value is the weight of the sign above the magnitude. -/
def signWeight (format : BinaryFormat) : Nat :=
  Nat.pow 2 (format.exponentBits + format.fractionBits)

/-- This magnitude is infinity: finite magnitudes lie below it, the NaNs above it. -/
def infinity (format : BinaryFormat) : Nat :=
  (Nat.pow 2 format.exponentBits - 1) * Nat.pow 2 format.fractionBits

/-- This exponent of two is the unit of the subnormal magnitudes. -/
def leastExponent (format : BinaryFormat) : Int :=
  2 - (Nat.pow 2 (format.exponentBits - 1) : Int) - format.fractionBits

/-- A finite magnitude is its significand times two to its exponent. -/
def unpack (format : BinaryFormat) (magnitude : Nat) : Nat × Int :=
  let field := magnitude / Nat.pow 2 format.fractionBits
  let fraction := magnitude % Nat.pow 2 format.fractionBits
  if field = 0 then (fraction, format.leastExponent)
  else (Nat.pow 2 format.fractionBits + fraction, format.leastExponent + field - 1)

/-- The quotient goes to the nearest natural number, a half to the even one. -/
def halfEven (numerator denominator : Nat) : Nat :=
  let quotient := numerator / denominator
  let twice := 2 * (numerator % denominator)
  if twice < denominator then quotient
  else if denominator < twice then quotient + 1
  else quotient + quotient % 2

/-- This exponent is the greatest one whose power of two is at most the positive quotient. -/
def floorLog (numerator denominator : Nat) : Int :=
  let guess : Int := (numerator.log2 : Int) - denominator.log2
  if numerator * Nat.pow 2 (-guess).toNat < denominator * Nat.pow 2 guess.toNat then guess - 1
  else guess

/-- The magnitude nearest to a quotient. The unit is that of the quotient's own power of two or the
subnormal one, so that a significand that rounds up to the next power carries into the exponent. -/
def nearest (format : BinaryFormat) (numerator denominator : Nat) : Nat :=
  if numerator = 0 then 0
  else
    let unit := max (floorLog numerator denominator - format.fractionBits) format.leastExponent
    let significand :=
      halfEven (numerator * Nat.pow 2 (-unit).toNat) (denominator * Nat.pow 2 unit.toNat)
    min ((unit - format.leastExponent).toNat * Nat.pow 2 format.fractionBits + significand)
      format.infinity

/-- The magnitude nearest to a significand times a power of two. -/
def nearestScaled (format : BinaryFormat) (significand : Nat) (exponent : Int) : Nat :=
  format.nearest (significand * Nat.pow 2 exponent.toNat) (Nat.pow 2 (-exponent).toNat)

/-- The magnitude nearest to a significand times a power of ten. Exponents far outside the range of
the format are settled before any power is formed. -/
def nearestDecimal (format : BinaryFormat) (significand : Nat) (exponent : Int) : Nat :=
  let limit : Int := Nat.pow 2 format.exponentBits
  let top : Int := exponent + (significand.log2 / 3 : Nat)
  if significand = 0 then 0
  else if limit < exponent then format.infinity
  else if top < -limit then 0
  else format.nearest (significand * Nat.pow 10 exponent.toNat) (Nat.pow 10 (-exponent).toNat)

end BinaryFormat

end HingeLoss
