import HingeLoss.Decimal.Basic

/-! The shortest decimal that reads back as a given floating point word. -/

namespace HingeLoss

/-- The way between two decimals at the same distance. -/
inductive Tie where
  | up
  | even

/-- Four times the lower end, the value and the upper end of the interval of a word, in units of a
power of two. The ends belong to the interval when `closed` holds. -/
structure Rounding where
  lower : Nat
  value : Nat
  upper : Nat
  exponent : Int
  closed : Bool

namespace Rounding

/-- The interval of a positive finite magnitude. Below a power of two the words lie twice as dense.
-/
def ofMagnitude (format : BinaryFormat) (magnitude : Nat) : Rounding :=
  let (significand, exponent) := format.unpack magnitude
  let unit := Nat.pow 2 format.fractionBits
  let dense := magnitude % unit = 0 ∧ unit < magnitude
  { lower := 4 * significand - if dense then 1 else 2
    value := 4 * significand
    upper := 4 * significand + 2
    exponent := exponent - 2
    closed := significand % 2 = 0 }

def scale (part : Nat) (exponent grid : Int) : Nat :=
  part * Nat.pow 2 exponent.toNat * Nat.pow 10 (-grid).toNat

/-- The grid point below the value, or the one above it, if the interval holds one of them. -/
def onGrid (range : Rounding) (tie : Tie) (grid : Int) : Option Nat :=
  let denominator := Nat.pow 2 (-range.exponent).toNat * Nat.pow 10 grid.toNat
  let value := scale range.value range.exponent grid
  let floor := value / denominator
  let twice := 2 * (value % denominator)
  let lower := scale range.lower range.exponent grid
  let upper := scale range.upper range.exponent grid
  let below : Bool := 0 < floor && (lower < floor * denominator ||
    (lower == floor * denominator && range.closed))
  let above : Bool := (floor + 1) * denominator < upper ||
    ((floor + 1) * denominator == upper && range.closed)
  let tieAbove : Bool := match tie with
    | .up => true
    | .even => floor % 2 == 1
  let nearerAbove : Bool := denominator < twice || (twice == denominator && tieAbove)
  if below && above then some (if nearerAbove then floor + 1 else floor)
  else if below then some floor
  else if above then some (floor + 1)
  else none

def search (range : Rounding) (tie : Tie) : Nat → Int → Decimal
  | 0, grid => ⟨(range.onGrid tie grid).getD 0, grid⟩
  | rest + 1, grid =>
      match range.onGrid tie grid with
      | some digits => ⟨digits, grid⟩
      | none => search range tie rest (grid - 1)

/-- Seventeen digits tell any two words of either format apart. -/
def shortest (range : Rounding) (tie : Tie) : Decimal :=
  Decimal.trim 20 (range.search tie 17 (Decimal.leadingPoint range.value range.exponent - 1))

end Rounding

def Decimal.shortest (format : BinaryFormat) (tie : Tie) (magnitude : Nat) : Decimal :=
  if magnitude = 0 then ⟨0, 0⟩ else (Rounding.ofMagnitude format magnitude).shortest tie

def Single.numeral (value : Single) (tie : Tie) : Numeral :=
  if value.isNaN then .notANumber
  else if value.isFinite then
    .finite value.isNegative (Decimal.shortest .single tie value.magnitude)
  else .infinite value.isNegative

def Double.numeral (value : Double) (tie : Tie) : Numeral :=
  if value.isNaN then .notANumber
  else if value.isFinite then
    .finite value.isNegative (Decimal.shortest .double tie value.magnitude)
  else .infinite value.isNegative

namespace Numeral

/-- Numbers in messages are positional, and integers have no point. -/
def plain : Numeral → String
  | finite negative value => sign negative ++ value.positional
  | infinite negative => sign negative ++ "inf"
  | notANumber => "NaN"

end Numeral

def Single.text (value : Single) : String := (value.numeral .up).plain

def Double.text (value : Double) : String := (value.numeral .up).plain

end HingeLoss
