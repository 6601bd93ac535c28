import HingeLoss.Number.Double

/-! Decimal numbers, and the numerals that floating point words stand for. -/

namespace HingeLoss

/-- The digits times ten to the exponent. -/
structure Decimal where
  digits : Nat
  exponent : Int
deriving DecidableEq, Inhabited

/-- A signed decimal or one of the values that have none. -/
inductive Numeral where
  | finite (negative : Bool) (value : Decimal)
  | infinite (negative : Bool)
  | notANumber

namespace Decimal

/-- Zeros at the end of the digits move into the exponent, at most as many as the bound. -/
def trim : Nat → Decimal → Decimal
  | 0, value => value
  | bound + 1, value =>
      if value.digits ≠ 0 ∧ value.digits % 10 = 0 then
        trim bound ⟨value.digits / 10, value.exponent + 1⟩
      else value

def zeros (count : Nat) : String := String.ofList (List.replicate count '0')

/-- Zeros fill the text up to a width. -/
def padLeft (width : Nat) (text : String) : String := zeros (width - text.length) ++ text

/-- This integer is the number of digits before the point in positional notation. -/
def point (value : Decimal) : Int :=
  if value.digits = 0 then 0 else (toString value.digits).length + value.exponent

/-- All digits around a point, without an exponent. No point is written after the last digit. -/
def positional (value : Decimal) : String :=
  let text := toString value.digits
  if value.digits = 0 then "0"
  else if 0 ≤ value.exponent then text ++ zeros value.exponent.toNat
  else
    let places := (-value.exponent).toNat
    if places < text.length then
      String.ofList (text.toList.take (text.length - places)) ++ "." ++
        String.ofList (text.toList.drop (text.length - places))
    else "0." ++ zeros (places - text.length) ++ text

/-- One digit before the point and a power of ten after the others, with a sign of its own. -/
def scientific (value : Decimal) : String :=
  let text := (toString value.digits).toList
  let power := value.exponent + text.length - 1
  let mark := if power < 0 then "e" else "e+"
  let fraction := String.ofList (text.drop 1)
  String.ofList (text.take 1) ++ (if fraction.isEmpty then "" else "." ++ fraction) ++ mark ++
    toString power

/-- This exponent is the number of digits of a positive binary value before the point. -/
def leadingPoint (significand : Nat) (exponent : Int) : Int :=
  let guess : Int := ((significand.log2 + exponent) * 1233).fdiv 4096
  let reaches (power : Int) : Bool :=
    Nat.pow 2 (-exponent).toNat * Nat.pow 10 power.toNat ≤
      significand * Nat.pow 2 exponent.toNat * Nat.pow 10 (-power).toNat
  if reaches (guess + 1) then guess + 2
  else if reaches guess then guess + 1
  else guess

end Decimal

def sign (negative : Bool) : String := if negative then "-" else ""

end HingeLoss
