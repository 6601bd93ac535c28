import HingeLoss.Data.Basic
import HingeLoss.Number.Bytes

/-! Reading JSON texts that hold exactly one value. -/

namespace HingeLoss.Json

abbrev Input := List Char

def skipBlank : Input → Input
  | c :: rest =>
      if c = ' ' || c = '\n' || c = '\t' || c = '\r' then skipBlank rest else c :: rest
  | [] => []

/-- The digits at the front, as a number with their count, and what follows. -/
def digits : Nat → Nat → Input → Nat × Nat × Input
  | value, count, c :: rest =>
      if c.isDigit then digits (10 * value + (c.toNat - 48)) (count + 1) rest
      else (value, count, c :: rest)
  | value, count, [] => (value, count, [])

/-- The digits at the front that still fit behind the digits of a number of sixty-four bits, the
number with them, their count, and what follows. -/
def fittingDigits : Nat → Nat → Input → Nat × Nat × Input
  | value, count, c :: rest =>
      let next := 10 * value + (c.toNat - 48)
      if c.isDigit && next < UInt64.size then fittingDigits next (count + 1) rest
      else (value, count, c :: rest)
  | value, count, [] => (value, count, [])

/-- A number before its sign is applied: the digits that are kept and the power of ten behind them.
It is whole when it has no point, no exponent and no digit that is not kept. -/
structure Number where
  digits : Nat
  exponent : Int
  whole : Bool

/-- The digits before the point. They start with zero only if they are zero, and each one that is
not kept is a power of ten. -/
def integer (input : Input) : Option (Number × Input) :=
  match input with
  | '0' :: rest => some (⟨0, 0, true⟩, rest)
  | _ =>
      let (value, kept, rest) := fittingDigits 0 0 input
      let (_, passed, rest) := digits 0 0 rest
      if kept = 0 then none else some (⟨value, passed, passed = 0⟩, rest)

/-- The point and the places after it, if there are any. Behind the first place that does not fit no
place is kept. -/
def fraction (number : Number) : Input → Option (Number × Input)
  | '.' :: rest =>
      let (value, kept, rest) := fittingDigits number.digits 0 rest
      let (_, passed, rest) := digits 0 0 rest
      if kept + passed = 0 then none else some (⟨value, number.exponent - kept, false⟩, rest)
  | rest => some (number, rest)

/-- The mark, sign and digits of an exponent, if there are any. -/
def exponent (number : Number) (input : Input) : Option (Number × Input) :=
  match input with
  | c :: rest =>
      if c = 'e' || c = 'E' then
        let (negative, rest) := match rest with
          | '+' :: rest => (false, rest)
          | '-' :: rest => (true, rest)
          | rest => (false, rest)
        let (value, count, rest) := digits 0 0 rest
        let power : Int := if negative then -(value : Int) else value
        if count = 0 then none
        else some (⟨number.digits, number.exponent + power, false⟩, rest)
      else some (number, input)
  | [] => some (number, [])

def unsigned (input : Input) : Option (Number × Input) := do
  let (number, rest) ← integer input
  let (number, rest) ← fraction number rest
  exponent number rest

/-- The double nearest to a power of ten. -/
def powerOfTen (power : Nat) : Double :=
  Double.ofMagnitude false (BinaryFormat.double.nearestDecimal 1 power)

/-- The digits as a double, multiplied or divided by powers of ten. Every step rounds, and no power
is beyond the doubles. -/
def Number.scaled (number : Number) : Double :=
  let value := Double.ofNat number.digits
  let power := number.exponent.natAbs
  if number.digits = 0 then value
  else if 0 ≤ number.exponent then value * powerOfTen power
  else if power ≤ 308 then value / powerOfTen power
  else if power ≤ 616 then value / powerOfTen 308 / powerOfTen (power - 308)
  else 0

/-- Whole numbers of sixty-four bits stay whole. Zero with a minus is not whole. -/
def numberData (negative : Bool) (number : Number) : Data :=
  let limit : Nat := if negative then UInt64.size / 2 else UInt64.size - 1
  if number.whole && number.digits ≤ limit && !(negative && number.digits == 0) then
    .whole (if negative then -(number.digits : Int) else number.digits)
  else
    let value := number.scaled
    if value.isFinite then .real (if negative then -value else value) else .unreadable

def isHigh (unit : Nat) : Bool := 0xD800 ≤ unit && unit < 0xDC00

def isLow (unit : Nat) : Bool := 0xDC00 ≤ unit && unit < 0xE000

def escaped (c : Char) : Option Char :=
  if c = '"' || c = '\\' || c = '/' then some c
  else if c = 'b' then some '\x08'
  else if c = 'f' then some '\x0c'
  else if c = 'n' then some '\n'
  else if c = 'r' then some '\r'
  else if c = 't' then some '\t'
  else none

/-- What has been read of a text, the last character first. -/
structure TextSoFar where
  read : List Char
  /-- The first half of a surrogate pair, if the second half is still to come. -/
  waiting : Option Nat
  readable : Bool

namespace TextSoFar

def start : TextSoFar := ⟨[], none, true⟩

/-- A half that is still waiting never finds its other half. -/
def isReadable (soFar : TextSoFar) : Bool := soFar.readable && soFar.waiting.isNone

def push (soFar : TextSoFar) (c : Char) : TextSoFar := ⟨c :: soFar.read, none, soFar.isReadable⟩

/-- A unit of sixteen bits is a character, a half of one, or the end of a pair. -/
def pushUnit (soFar : TextSoFar) (unit : Nat) : TextSoFar :=
  if isHigh unit then ⟨soFar.read, some unit, soFar.isReadable⟩
  else if isLow unit then
    match soFar.waiting with
    | some high =>
        let code := 0x10000 + (high - 0xD800) * 1024 + (unit - 0xDC00)
        ⟨Char.ofNat code :: soFar.read, none, soFar.readable⟩
    | none => { soFar with readable := false }
  else soFar.push (Char.ofNat unit)

def finish (soFar : TextSoFar) : Option String :=
  if soFar.isReadable then some (String.ofList soFar.read.reverse) else none

end TextSoFar

/-- The characters up to the closing quote. -/
def characters (soFar : TextSoFar) : Input → Option (Option String × Input)
  | [] => none
  | '"' :: rest => some (soFar.finish, rest)
  | '\\' :: 'u' :: a :: b :: c :: d :: rest => do
      let unit ← hexValue? [a, b, c, d]
      characters (soFar.pushUnit unit) rest
  | '\\' :: c :: rest => do
      let c ← escaped c
      characters (soFar.push c) rest
  | c :: rest => if c.toNat < 32 then none else characters (soFar.push c) rest

/-- A text behind its opening quote. -/
def quoted (input : Input) : Option (Option String × Input) := characters .start input

/-- A record with one more field at its front. A field without a name makes it unreadable. -/
def withField (name : Option String) (value : Data) (record : Data) : Data :=
  match name, record with
  | some name, .record fields => .record ((name, value) :: fields)
  | _, _ => .unreadable

mutual

/-- The value at the front, at most a number of steps deep. -/
def value : Nat → Input → Option (Data × Input)
  | 0, _ => none
  | bound + 1, input =>
      match skipBlank input with
      | 'n' :: 'u' :: 'l' :: 'l' :: rest => some (.null, rest)
      | 't' :: 'r' :: 'u' :: 'e' :: rest => some (.flag true, rest)
      | 'f' :: 'a' :: 'l' :: 's' :: 'e' :: rest => some (.flag false, rest)
      | '"' :: rest => do
          let (text, rest) ← quoted rest
          some (text.elim .unreadable .text, rest)
      | '[' :: rest =>
          match skipBlank rest with
          | ']' :: rest => some (.list [], rest)
          | rest => do
              let (items, rest) ← items bound rest
              some (.list items, rest)
      | '{' :: rest =>
          match skipBlank rest with
          | '}' :: rest => some (.record [], rest)
          | rest => fields bound rest
      | '-' :: rest => do
          let (number, rest) ← unsigned rest
          some (numberData true number, rest)
      | rest => do
          let (number, rest) ← unsigned rest
          some (numberData false number, rest)

/-- The values of a list up to its bracket. -/
def items : Nat → Input → Option (List Data × Input)
  | 0, _ => none
  | bound + 1, input => do
      let (item, rest) ← value bound input
      match skipBlank rest with
      | ',' :: rest =>
          let (later, rest) ← items bound rest
          some (item :: later, rest)
      | ']' :: rest => some ([item], rest)
      | _ => none

/-- The fields of a record up to its brace. -/
def fields : Nat → Input → Option (Data × Input)
  | 0, _ => none
  | bound + 1, input =>
      match skipBlank input with
      | '"' :: rest => do
          let (name, rest) ← quoted rest
          match skipBlank rest with
          | ':' :: rest =>
              let (value, rest) ← value bound rest
              match skipBlank rest with
              | ',' :: rest =>
                  let (later, rest) ← fields bound rest
                  some (withField name value later, rest)
              | '}' :: rest => some (withField name value (.record []), rest)
              | _ => none
          | _ => none
      | _ => none

end

/-- Lists and records can be read at most this number of levels deep. -/
def depth : Nat := 127

/-- The one value of a text. -/
def parse? (text : String) : Option Data := do
  let input := text.toList
  let (value, rest) ← value (2 * input.length + 2) input
  if (skipBlank rest).isEmpty then some (value.within depth) else none

end HingeLoss.Json
