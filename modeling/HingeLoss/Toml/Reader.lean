import HingeLoss.Toml.Number
import HingeLoss.Toml.Table

/-! Reading the settings language line by line. -/

namespace HingeLoss.Toml

/-- Blanks, comments and line ends between the values of a list are passed over. A comment ends with
its line. -/
def skipSpace : Bool → Input → Option Input
  | _, '\n' :: rest => skipSpace false rest
  | _, '\r' :: '\n' :: rest => skipSpace false rest
  | false, c :: rest =>
      if isBlank c then skipSpace false rest
      else if c = '#' then skipSpace true rest
      else some (c :: rest)
  | true, c :: rest => if isPlain c then skipSpace true rest else none
  | false, [] => some []
  | true, [] => none

/-- What follows the rest of a line, which holds blanks and a comment at most. -/
def lineEnd : Bool → Input → Option Input
  | _, '\n' :: rest => some rest
  | _, '\r' :: '\n' :: rest => some rest
  | _, [] => some []
  | false, c :: rest =>
      if isBlank c then lineEnd false rest
      else if c = '#' then lineEnd true rest
      else none
  | true, c :: rest => if isPlain c then lineEnd true rest else none

/-- A value that holds no others. -/
def scalar (input : Input) : Option (Data × Input) :=
  match input with
  | '"' :: _ => (text input).map fun (found, rest) => (.text found, rest)
  | '\x27' :: _ => (text input).map fun (found, rest) => (.text found, rest)
  | 't' :: 'r' :: 'u' :: 'e' :: rest => some (.flag true, rest)
  | 'f' :: 'a' :: 'l' :: 's' :: 'e' :: rest => some (.flag false, rest)
  | _ =>
      match moment input with
      | some rest => some (.moment, rest)
      | none => number input

/-- The values of a list behind its bracket. A comma may follow the last one. -/
def items (item : Input → Option (Data × Input)) : Nat → Input → Option (List Data × Input)
  | 0, _ => none
  | bound + 1, input => do
      match ← skipSpace false input with
      | ']' :: rest => some ([], rest)
      | input =>
          let (data, rest) ← item input
          match ← skipSpace false rest with
          | ',' :: rest =>
              let (later, rest) ← items item bound rest
              some (data :: later, rest)
          | ']' :: rest => some ([data], rest)
          | _ => none

/-- A key, its value and what follows. -/
def assignment (item : Input → Option (Data × Input)) (input : Input) :
    Option (List String × Data × Input) := do
  let (names, rest) ← key input
  let (data, rest) ← item (skipBlank (← expect '=' rest))
  some (names, data, rest)

/-- The keys and values of a table on one line. No comma follows the last one. -/
def fields (item : Input → Option (Data × Input)) :
    Nat → Items → Input → Option (Items × Input)
  | 0, _, _ => none
  | bound + 1, held, input => do
      let (names, data, rest) ← assignment item input
      let held ← held.put true names data
      match skipBlank rest with
      | ',' :: rest => fields item bound held rest
      | '}' :: rest => some (held, rest)
      | _ => none

/-- A value at most a number of levels deep. -/
def valueWithin : Nat → Input → Option (Data × Input)
  | 0, input => scalar input
  | levels + 1, input =>
      match input with
      | '[' :: rest => do
          let (found, rest) ← items (valueWithin levels) input.length rest
          some (.list found, rest)
      | '{' :: rest =>
          match skipBlank rest with
          | '}' :: rest => some (.record [], rest)
          | _ => do
              let (found, rest) ← fields (valueWithin levels) input.length [] rest
              some (found.toData, rest)
      | _ => scalar input

/-- The lines of a text, at most a number of them, below the header that came last. -/
def lines : Nat → List String → Items → Input → Option Items
  | 0, _, _, _ => none
  | bound + 1, header, held, input =>
      match skipBlank input with
      | [] => some held
      | '#' :: rest => do lines bound header held (← lineEnd true rest)
      | '\n' :: rest => lines bound header held rest
      | '\r' :: '\n' :: rest => lines bound header held rest
      | '[' :: '[' :: rest => do
          let (path, rest) ← key rest
          let rest ← lineEnd false (← expect ']' (← expect ']' rest))
          lines bound path (← held.declareRow path) rest
      | '[' :: rest => do
          let (path, rest) ← key rest
          let rest ← lineEnd false (← expect ']' rest)
          lines bound path (← held.declare path) rest
      | rest => do
          let (names, data, rest) ← assignment (valueWithin depth) rest
          let rest ← lineEnd false rest
          lines bound header (← held.putUnder header names data) rest

/-- The table of a whole text, which may start with a mark for its byte order. -/
def parse? (text : String) : Option Data :=
  let input := match text.toList with
    | '\uFEFF' :: rest => rest
    | input => input
  (lines (input.length + 1) [] [] input).map Items.toData

end HingeLoss.Toml
