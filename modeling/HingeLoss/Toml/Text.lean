import HingeLoss.Number.Bytes

/-! The texts and keys of the settings language. -/

namespace HingeLoss.Toml

abbrev Input := List Char

def isBlank (c : Char) : Bool := c = ' ' || c = '\t'

def skipBlank (input : Input) : Input := input.dropWhile isBlank

/-- The characters of comments, which stand for themselves in a text of one line too. -/
def isPlain (c : Char) : Bool := c = '\t' || (32 ≤ c.toNat && c.toNat ≠ 127)

/-- What follows the end of a line. -/
def newline? : Input → Option Input
  | '\n' :: rest => some rest
  | '\r' :: '\n' :: rest => some rest
  | _ => none

/-- Blanks and line ends are passed over. -/
def skipLines : Input → Input
  | '\r' :: '\n' :: rest => skipLines rest
  | c :: rest => if isBlank c || c = '\n' then skipLines rest else c :: rest
  | [] => []

/-- The line end behind the opening of a text of several lines does not belong to it. -/
def dropNewline (input : Input) : Input := (newline? input).getD input

/-- What follows a backslash at the end of a line: the blank space up to the next character is left
out. -/
def folded? (input : Input) : Option Input := (newline? (skipBlank input)).map skipLines

/-- The character of a number, if it has one. -/
def scalar? (digits : List Char) : Option Char := do
  let value ← hexValue? digits
  if value.isValidChar then some (Char.ofNat value) else none

/-- The character that an escape stands for, and what follows it. -/
def escaped : Input → Option (Char × Input)
  | 'u' :: a :: b :: c :: d :: rest => (scalar? [a, b, c, d]).map fun found => (found, rest)
  | 'U' :: a :: b :: c :: d :: e :: f :: g :: h :: rest =>
      (scalar? [a, b, c, d, e, f, g, h]).map fun found => (found, rest)
  | 'b' :: rest => some ('\x08', rest)
  | 't' :: rest => some ('\t', rest)
  | 'n' :: rest => some ('\n', rest)
  | 'f' :: rest => some ('\x0c', rest)
  | 'r' :: rest => some ('\r', rest)
  | '"' :: rest => some ('"', rest)
  | '\\' :: rest => some ('\\', rest)
  | _ => none

/-- The text that was read, the last character first. -/
def finished (read : List Char) (rest : Input) : Option (String × Input) :=
  some (String.ofList read.reverse, rest)

/-- Three marks close a text of several lines. Up to two marks right before them belong to it. -/
def closed (mark : Char) (read : List Char) (rest : Input) : Option (String × Input) :=
  match rest with
  | a :: b :: later =>
      if a = mark && b = mark then finished (mark :: mark :: read) later
      else if a = mark then finished (mark :: read) (b :: later)
      else finished read rest
  | [a] => if a = mark then finished (mark :: read) [] else finished read rest
  | [] => finished read []

/-- A quoted text up to its closing quotes, in at most a number of steps. -/
def basic (severalLines : Bool) : Nat → List Char → Input → Option (String × Input)
  | 0, _, _ => none
  | bound + 1, read, input =>
      match input with
      | [] => none
      | '"' :: rest =>
          if severalLines then
            match rest with
            | '"' :: '"' :: rest => closed '"' read rest
            | _ => basic severalLines bound ('"' :: read) rest
          else finished read rest
      | '\\' :: rest =>
          match if severalLines then folded? rest else none with
          | some rest => basic severalLines bound read rest
          | none => do
              let (c, rest) ← escaped rest
              basic severalLines bound (c :: read) rest
      | c :: rest =>
          match newline? input with
          | some rest => if severalLines then basic severalLines bound ('\n' :: read) rest else none
          | none => if isPlain c then basic severalLines bound (c :: read) rest else none

/-- A text between apostrophes up to the closing ones. -/
def literal (severalLines : Bool) : List Char → Input → Option (String × Input)
  | _, [] => none
  | read, '\x27' :: '\x27' :: '\x27' :: rest =>
      if severalLines then closed '\x27' read rest
      else finished read ('\x27' :: '\x27' :: rest)
  | read, '\r' :: '\n' :: rest =>
      if severalLines then literal severalLines ('\n' :: read) rest else none
  | read, c :: rest =>
      if c = '\x27' then
        if severalLines then literal severalLines (c :: read) rest else finished read rest
      else if isPlain c || (severalLines && c = '\n') then literal severalLines (c :: read) rest
      else none

/-- A text of one of the four kinds. -/
def text (input : Input) : Option (String × Input) :=
  match input with
  | '"' :: '"' :: '"' :: rest => basic true input.length [] (dropNewline rest)
  | '"' :: rest => basic false input.length [] rest
  | '\x27' :: '\x27' :: '\x27' :: rest => literal true [] (dropNewline rest)
  | '\x27' :: rest => literal false [] rest
  | _ => none

/-- The characters of a key without quotes. -/
def isBare (c : Char) : Bool := c.isAlphanum || c = '-' || c = '_'

/-- One name of a key. -/
def keyName (input : Input) : Option (String × Input) :=
  match input with
  | '"' :: rest => basic false input.length [] rest
  | '\x27' :: rest => literal false [] rest
  | _ =>
      let name := input.takeWhile isBare
      if name.isEmpty then none else some (String.ofList name, input.dropWhile isBare)

/-- Names between points, at most a number of them, and the blanks around them. -/
def keyNames : Nat → Input → Option (List String × Input)
  | 0, _ => none
  | bound + 1, input => do
      let (name, rest) ← keyName (skipBlank input)
      match skipBlank rest with
      | '.' :: rest =>
          let (later, rest) ← keyNames bound rest
          some (name :: later, rest)
      | rest => some ([name], rest)

/-- Keys and values go at most this number of levels deep. -/
def depth : Nat := 79

def key (input : Input) : Option (List String × Input) := keyNames depth input

end HingeLoss.Toml
