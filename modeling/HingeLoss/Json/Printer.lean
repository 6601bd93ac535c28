import HingeLoss.Data.Basic
import HingeLoss.Decimal.Shortest
import HingeLoss.Number.Bytes

/-! Writing JSON without blanks. -/

namespace HingeLoss.Json

/-- Quotes, backslashes and control characters are escaped, the common ones by a letter. -/
def escape (c : Char) : String :=
  if c = '"' then "\\\""
  else if c = '\\' then "\\\\"
  else if c = '\n' then "\\n"
  else if c = '\r' then "\\r"
  else if c = '\t' then "\\t"
  else if c = '\x08' then "\\b"
  else if c = '\x0c' then "\\f"
  else if c.toNat < 32 then "\\u" ++ hexText 4 c.toNat
  else c.toString

def quote (text : String) : String := "\"" ++ String.join (text.toList.map escape) ++ "\""

/-- Where positional notation ends: the greatest and the least position of the point, the latter for
numbers below one. -/
structure NumberRange where
  greatest : Int
  least : Int

def singleRange : NumberRange := ⟨13, -6⟩

def doubleRange : NumberRange := ⟨16, -5⟩

/-- Integers have one place after the point. Without a number the text is null. -/
def number (range : NumberRange) : Numeral → String
  | .finite negative value =>
      if value.digits = 0 then sign negative ++ "0.0"
      else if range.least < value.point && value.point ≤ range.greatest then
        sign negative ++ value.positional ++ if 0 ≤ value.exponent then ".0" else ""
      else sign negative ++ value.scientific
  | _ => "null"

mutual

def render : Data → String
  | .null => "null"
  | .flag value => if value then "true" else "false"
  | .whole value => toString value
  | .real value => number doubleRange (value.numeral .even)
  | .short value => number singleRange (value.numeral .even)
  | .text value => quote value
  | .list items => "[" ++ renderItems items ++ "]"
  | .record fields => "\x7b" ++ renderFields fields ++ "\x7d"
  | .moment => "null"
  | .unreadable => "null"

def renderItems : List Data → String
  | [] => ""
  | [item] => render item
  | item :: rest => render item ++ "," ++ renderItems rest

def renderFields : List (String × Data) → String
  | [] => ""
  | [(name, value)] => quote name ++ ":" ++ render value
  | (name, value) :: rest => quote name ++ ":" ++ render value ++ "," ++ renderFields rest

end

end HingeLoss.Json
