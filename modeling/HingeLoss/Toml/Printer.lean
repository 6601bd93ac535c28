import HingeLoss.Decimal.Shortest
import HingeLoss.Data.Basic
import HingeLoss.Toml.Text

/-! Writing the settings language: the plain fields of a table, then its tables under headers. -/

namespace HingeLoss.Toml

/-- The characters that no text holds without an escape. -/
def isControl (c : Char) : Bool := (c.toNat < 32 && c ≠ '\t' && c ≠ '\n') || c.toNat = 127

/-- The length of the longest run of a character. -/
def longestRun (mark : Char) (chars : List Char) : Nat :=
  (chars.foldl (fun (run, longest) c =>
    if c = mark then (run + 1, max longest (run + 1)) else (0, longest)) (0, 0)).2

/-- A character between quotes. -/
def escapeText (severalLines : Bool) (c : Char) : String :=
  if c = '\x08' then "\\b"
  else if c = '\t' then "\\t"
  else if c = '\n' then if severalLines then "\n" else "\\n"
  else if c = '\x0c' then "\\f"
  else if c = '\r' then "\\r"
  else if c = '\\' then "\\\\"
  else if isControl c then "\\u" ++ (hexText 4 c.toNat).toUpper
  else c.toString

/-- The characters between quotes. Of a run of quotes only a number may stand bare in a row. -/
def escapeAll (severalLines : Bool) (bare : Nat) : Nat → List Char → String
  | _, [] => ""
  | run, c :: rest =>
      if c = '"' then
        if run < bare then "\"" ++ escapeAll severalLines bare (run + 1) rest
        else "\\\"" ++ escapeAll severalLines bare 0 rest
      else escapeText severalLines c ++ escapeAll severalLines bare 0 rest

/-- A text in the first of these forms that holds it as it is: quotes, apostrophes, three quotes,
three apostrophes. If none does, it stands between quotes with escapes. -/
def quoteText (text : String) : String :=
  let chars := text.toList
  let plain := !chars.any isControl
  let escape := chars.contains '\\'
  let newline := chars.contains '\n'
  let quotes := longestRun '"' chars
  let apostrophes := longestRun '\x27' chars
  let opening := if newline then "\n" else ""
  let oneLine := "\"" ++ escapeAll false 0 0 chars ++ "\""
  let severalLines := "\"\"\"" ++ opening ++ escapeAll true 2 0 chars ++ "\"\"\""
  if plain && !escape && !newline && quotes = 0 then oneLine
  else if plain && !newline && apostrophes = 0 then "\x27" ++ text ++ "\x27"
  else if plain && !escape && quotes ≤ 2 then severalLines
  else if plain && apostrophes ≤ 2 then "\x27\x27\x27" ++ opening ++ text ++ "\x27\x27\x27"
  else if newline then severalLines
  else oneLine

/-- All digits around a point, with a place after it. -/
def realText (value : Double) : String :=
  match value.numeral .up with
  | .finite negative value =>
      sign negative ++ value.positional ++
        if value.digits = 0 || 0 ≤ value.exponent then ".0" else ""
  | .infinite negative => sign negative ++ "inf"
  | .notANumber => sign value.isNegative ++ "nan"

/-- A value on one line. A whole number beyond sixty-three bits has no text. -/
def scalarText? : Data → Option String
  | .flag value => some (if value then "true" else "false")
  | .whole value => if value ≤ Int64.maxValue.toInt then some (toString value) else none
  | .real value => some (realText value)
  | .short value => some (realText value.widen)
  | .text value => some (quoteText value)
  | _ => none

def nameText (name : String) : String :=
  if !name.isEmpty && name.toList.all isBare then name
  else "\"" ++ escapeAll false 0 0 name.toList ++ "\""

/-- The lines of the plain fields. -/
def fieldLines? : List (String × Data) → Option String
  | [] => some ""
  | (_, .null) :: rest => fieldLines? rest
  | (_, .record _) :: rest => fieldLines? rest
  | (name, data) :: rest => do
      let line ← scalarText? data
      some (nameText name ++ " = " ++ line ++ "\n" ++ (← fieldLines? rest))

mutual

/-- The texts of a table and of the tables in it. A table that holds nothing but tables has no
header of its own. -/
def tables? (path : String) : Data → Option (List String)
  | .record fields => do
      let lines ← fieldLines? fields
      let inner ← innerTables? path fields
      let header := if path.isEmpty then "" else "[" ++ path ++ "]\n"
      some (if lines.isEmpty && (path.isEmpty || !inner.isEmpty) then inner
        else (header ++ lines) :: inner)
  | _ => some []

def innerTables? (path : String) : List (String × Data) → Option (List String)
  | [] => some []
  | (name, data) :: rest => do
      let gap := if path.isEmpty then "" else "."
      let these ← tables? (path ++ gap ++ nameText name) data
      some (these ++ (← innerTables? path rest))

end

/-- The text of a table, if every value in it has one. -/
def render? (data : Data) : Option String := (tables? "" data).map ("\n".intercalate ·)

end HingeLoss.Toml
