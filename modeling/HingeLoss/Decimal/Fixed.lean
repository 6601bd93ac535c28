import HingeLoss.Decimal.Basic

/-! Texts with a fixed number of digits, rounded once, a half to the even digit. -/

namespace HingeLoss

namespace Decimal

/-- The digits of a positive or zero binary value on a decimal grid, a half to the even digit. -/
def gridDigits (significand : Nat) (exponent grid : Int) : Nat :=
  BinaryFormat.halfEven (significand * Nat.pow 2 exponent.toNat * Nat.pow 10 (-grid).toNat)
    (Nat.pow 2 (-exponent).toNat * Nat.pow 10 grid.toNat)

/-- The digits with a point before the last places. -/
def withPlaces (digits places : Nat) : String :=
  let text := (padLeft (places + 1) (toString digits)).toList
  String.ofList (text.take (text.length - places)) ++ "." ++
    String.ofList (text.drop (text.length - places))

/-- One digit before the point and a fixed number after it. A value that rounds up to the next power
of ten moves its exponent. -/
def fixedScientific (significand : Nat) (exponent : Int) (places : Nat) : String :=
  if significand = 0 then withPlaces 0 places ++ "e0"
  else
    let power := leadingPoint significand exponent - 1
    let digits := gridDigits significand exponent (power - places)
    if Nat.pow 10 (places + 1) ≤ digits then
      withPlaces (digits / 10) places ++ "e" ++ toString (power + 1)
    else withPlaces digits places ++ "e" ++ toString power

end Decimal

/-- A finite word as its significand and exponent, or the text of a value that has none. -/
def nonFinite (notANumber negative : Bool) : String :=
  if notANumber then "NaN" else sign negative ++ "inf"

/-- The value with a fixed number of places after the point. -/
def Single.fixed (value : Single) (places : Nat) : String :=
  if value.isFinite then
    let (significand, exponent) := BinaryFormat.single.unpack value.magnitude
    sign value.isNegative ++
      Decimal.withPlaces (Decimal.gridDigits significand exponent (-places)) places
  else nonFinite value.isNaN value.isNegative

/-- The value with a fixed number of places after the point. -/
def Double.fixed (value : Double) (places : Nat) : String :=
  if value.isFinite then
    let (significand, exponent) := BinaryFormat.double.unpack value.magnitude
    sign value.isNegative ++
      Decimal.withPlaces (Decimal.gridDigits significand exponent (-places)) places
  else nonFinite value.isNaN value.isNegative

/-- The value with an exponent and a fixed number of places after the point. -/
def Double.fixedScientific (value : Double) (places : Nat) : String :=
  if value.isFinite then
    let (significand, exponent) := BinaryFormat.double.unpack value.magnitude
    sign value.isNegative ++ Decimal.fixedScientific significand exponent places
  else nonFinite value.isNaN value.isNegative

end HingeLoss
