import HingeLoss.Decimal.Basic

/-! Lists of bytes as little-endian words and as hexadecimal texts. -/

namespace HingeLoss

abbrev Bytes := List UInt8

namespace Bytes

/-- The byte of a number at a place of a positional system with base 256. -/
def place (value power : Nat) : UInt8 := (value / Nat.pow 256 power).toUInt8

def ofUInt16 (word : UInt16) : Bytes := [place word.toNat 0, place word.toNat 1]

def toUInt16 (first second : UInt8) : UInt16 := (first.toNat + second.toNat * 256).toUInt16

def ofUInt32 (word : UInt32) : Bytes :=
  [place word.toNat 0, place word.toNat 1, place word.toNat 2, place word.toNat 3]

def toUInt32 (first second third fourth : UInt8) : UInt32 :=
  (first.toNat + second.toNat * 256 + third.toNat * 65536 + fourth.toNat * 16777216).toUInt32

theorem toNat_place (value power : Nat) :
    (place value power).toNat = value / Nat.pow 256 power % 256 := by
  simp [place]

theorem toUInt16_place (word : UInt16) :
    toUInt16 (place word.toNat 0) (place word.toNat 1) = word := by
  apply UInt16.toNat_inj.mp
  have bound := word.toNat_lt
  simp only [toUInt16, toNat_place, Nat.pow_eq, Nat.toUInt16_eq, UInt16.toNat_ofNat']
  omega

theorem toUInt32_place (word : UInt32) :
    toUInt32 (place word.toNat 0) (place word.toNat 1) (place word.toNat 2) (place word.toNat 3) =
      word := by
  apply UInt32.toNat_inj.mp
  have bound := word.toNat_lt
  simp only [toUInt32, toNat_place, Nat.pow_eq, Nat.toUInt32_eq, UInt32.toNat_ofNat']
  omega

theorem ofUInt16_toUInt16 (first second : UInt8) :
    ofUInt16 (toUInt16 first second) = [first, second] := by
  have := first.toNat_lt
  have := second.toNat_lt
  simp only [ofUInt16, List.cons.injEq, and_true]
  refine ⟨?_, ?_⟩ <;>
  · apply UInt8.toNat_inj.mp
    simp only [toNat_place, Nat.pow_eq, toUInt16, Nat.toUInt16_eq, UInt16.toNat_ofNat']
    omega

theorem ofUInt32_toUInt32 (first second third fourth : UInt8) :
    ofUInt32 (toUInt32 first second third fourth) = [first, second, third, fourth] := by
  have := first.toNat_lt
  have := second.toNat_lt
  have := third.toNat_lt
  have := fourth.toNat_lt
  simp only [ofUInt32, List.cons.injEq, and_true]
  refine ⟨?_, ?_, ?_, ?_⟩ <;>
  · apply UInt8.toNat_inj.mp
    simp only [toNat_place, Nat.pow_eq, toUInt32, Nat.toUInt32_eq, UInt32.toNat_ofNat']
    omega

end Bytes

def hexDigit? (c : Char) : Option Nat :=
  if c.isDigit then some (c.toNat - 48)
  else if 'a' ≤ c && c ≤ 'f' then some (c.toNat - 87)
  else if 'A' ≤ c && c ≤ 'F' then some (c.toNat - 55)
  else none

/-- The number that a row of hexadecimal digits stands for. -/
def hexValue? (digits : List Char) : Option Nat :=
  digits.foldlM (fun value c => (hexDigit? c).map (value * 16 + ·)) 0

/-- The lowercase digits of a number, with zeros up to a width. -/
def hexText (width value : Nat) : String :=
  Decimal.padLeft width (String.ofList (Nat.toDigits 16 value))

namespace Bytes

def toHex (bytes : Bytes) : String := String.join (bytes.map fun byte => hexText 2 byte.toNat)

def ofHexDigits? : List Char → Option Bytes
  | [] => some []
  | high :: low :: rest => do
      let value ← hexValue? [high, low]
      let bytes ← ofHexDigits? rest
      some (value.toUInt8 :: bytes)
  | _ => none

def ofHex? (text : String) : Option Bytes := ofHexDigits? text.toList

end Bytes

end HingeLoss
