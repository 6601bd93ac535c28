import HingeLoss.Data.Basic
import HingeLoss.Toml.Text

/-! The numbers of the settings language, and its dates and times. -/

namespace HingeLoss.Toml

/-- The digits that follow a digit. Behind an underscore there must be another one. -/
def moreDigits (accepts : Char → Bool) : Input → Option (List Char × Input)
  | '_' :: c :: rest =>
      if accepts c then (moreDigits accepts rest).map fun (later, rest) => (c :: later, rest)
      else none
  | c :: rest =>
      if accepts c then (moreDigits accepts rest).map fun (later, rest) => (c :: later, rest)
      else if c = '_' then none
      else some ([], c :: rest)
  | [] => some ([], [])

/-- One digit or more. -/
def digits (accepts : Char → Bool) : Input → Option (List Char × Input)
  | c :: rest =>
      if accepts c then (moreDigits accepts rest).map fun (later, rest) => (c :: later, rest)
      else none
  | [] => none

/-- Decimal digits that start with zero only if they are zero. -/
def wholeDigits : Input → Option (List Char × Input)
  | '0' :: rest => some (['0'], rest)
  | rest => digits Char.isDigit rest

def value (base : Nat) (digits : List Char) : Nat :=
  digits.foldl (fun value c => value * base + (hexDigit? c).getD 0) 0

/-- An integer in range. -/
def integer? (value : Int) : Option Data :=
  if Int64.minValue.toInt ≤ value ∧ value ≤ Int64.maxValue.toInt then some (.whole value) else none

/-- The sign at the front, and whether there is one. -/
def signed : Input → Bool × Bool × Input
  | '+' :: rest => (false, true, rest)
  | '-' :: rest => (true, true, rest)
  | rest => (false, false, rest)

/-- The exponent behind its mark. -/
def exponent (input : Input) : Option (Int × Input) := do
  let (negative, _, rest) := signed input
  let (found, rest) ← digits Char.isDigit rest
  let power := value 10 found
  some (if negative then -(power : Int) else power, rest)

def isExponentMark (c : Char) : Bool := c = 'e' || c = 'E'

/-- The exponent, if there is one. -/
def exponent? : Input → Option (Int × Input)
  | c :: rest => if isExponentMark c then exponent rest else some (0, c :: rest)
  | [] => some (0, [])

/-- The double nearest to a decimal. -/
def real? (negative : Bool) (digits : Nat) (power : Int) : Option Data :=
  let magnitude := BinaryFormat.double.nearestDecimal digits power
  if magnitude = BinaryFormat.double.infinity && !negative then none
  else some (.real (Double.ofMagnitude negative magnitude))

/-- A decimal number: an integer unless a point or an exponent follows its digits. -/
def decimal (negative : Bool) (input : Input) : Option (Data × Input) := do
  let (whole, rest) ← wholeDigits input
  match rest with
  | '.' :: rest =>
      let (places, rest) ← digits Char.isDigit rest
      let (power, rest) ← exponent? rest
      some (← real? negative (value 10 (whole ++ places)) (power - places.length), rest)
  | c :: later =>
      if isExponentMark c then
        let (power, rest) ← exponent later
        some (← real? negative (value 10 whole) power, rest)
      else
        let magnitude : Int := value 10 whole
        some (← integer? (if negative then -magnitude else magnitude), rest)
  | [] =>
      let magnitude : Int := value 10 whole
      some (← integer? (if negative then -magnitude else magnitude), rest)

/-- An integer of another base behind its mark. -/
def based (base : Nat) (accepts : Char → Bool) (input : Input) : Option (Data × Input) := do
  let (found, rest) ← digits accepts input
  some (← integer? (value base found), rest)

def number (input : Input) : Option (Data × Input) :=
  match input with
  | '0' :: 'x' :: rest => based 16 (fun c => (hexDigit? c).isSome) rest
  | '0' :: 'o' :: rest => based 8 (fun c => '0' ≤ c && c ≤ '7') rest
  | '0' :: 'b' :: rest => based 2 (fun c => c = '0' || c = '1') rest
  | _ =>
      let (negative, _, rest) := signed input
      match rest with
      | 'i' :: 'n' :: 'f' :: rest =>
          some (.real (Double.ofMagnitude negative BinaryFormat.double.infinity), rest)
      | 'n' :: 'a' :: 'n' :: rest =>
          some (.real (Double.ofMagnitude negative 0x7FF8000000000000), rest)
      | _ => decimal negative rest

/-- A number of two digits between two bounds. -/
def pair (least greatest : Nat) : Input → Option (Nat × Input)
  | a :: b :: rest =>
      let found := value 10 [a, b]
      if a.isDigit && b.isDigit && least ≤ found && found ≤ greatest then some (found, rest)
      else none
  | _ => none

/-- A certain character. -/
def expect (mark : Char) : Input → Option Input
  | c :: rest => if c = mark then some rest else none
  | [] => none

def daysOf (year month : Nat) : Nat :=
  if month = 2 then
    if year % 4 = 0 && (year % 100 ≠ 0 || year % 400 = 0) then 29 else 28
  else if month = 4 || month = 6 || month = 9 || month = 11 then 30
  else 31

/-- What follows a date. -/
def date : Input → Option Input
  | a :: b :: c :: d :: rest =>
      if [a, b, c, d].all Char.isDigit then do
        let (month, rest) ← pair 1 12 (← expect '-' rest)
        let (_, rest) ← pair 1 (daysOf (value 10 [a, b, c, d]) month) (← expect '-' rest)
        some rest
      else none
  | _ => none

/-- What follows a time of day. A fraction of a second needs a digit. -/
def time (input : Input) : Option Input := do
  let (_, rest) ← pair 0 23 input
  let (_, rest) ← pair 0 59 (← expect ':' rest)
  let (_, rest) ← pair 0 60 (← expect ':' rest)
  match rest with
  | '.' :: c :: later => if c.isDigit then some (later.dropWhile Char.isDigit) else some rest
  | _ => some rest

/-- What follows the distance from universal time, if it is given. -/
def offset (input : Input) : Input :=
  match input with
  | 'Z' :: rest => rest
  | 'z' :: rest => rest
  | c :: rest =>
      let found : Option Input := do
        let (_, rest) ← pair 0 23 rest
        let (_, rest) ← pair 0 59 (← expect ':' rest)
        some rest
      if c = '+' || c = '-' then found.getD input else input
  | [] => []

/-- What follows a date, a time or both. -/
def moment (input : Input) : Option Input :=
  match date input with
  | some (c :: rest) =>
      if c = 'T' || c = 't' || c = ' ' then
        match time rest with
        | some later => some (offset later)
        | none => some (c :: rest)
      else some (c :: rest)
  | some [] => some []
  | none => time input

end HingeLoss.Toml
