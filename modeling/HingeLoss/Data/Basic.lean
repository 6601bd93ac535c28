import HingeLoss.Number.Double

/-! The tree of values that text formats share, and how typed values are taken from it. -/

namespace HingeLoss

inductive Data where
  | null
  | flag (value : Bool)
  | whole (value : Int)
  | real (value : Double)
  /-- A number that is written with single precision. -/
  | short (value : Single)
  | text (value : String)
  | list (items : List Data)
  | record (fields : List (String × Data))
  /-- A date or a time. -/
  | moment
  /-- A value that is well formed but beyond every type. It can only be passed over. -/
  | unreadable
deriving Inhabited

namespace Data

mutual

/-- No part is beyond every type. -/
def isReadable : Data → Bool
  | .unreadable => false
  | .list items => areReadable items
  | .record fields => areReadableFields fields
  | _ => true

def areReadable : List Data → Bool
  | [] => true
  | item :: rest => isReadable item && areReadable rest

def areReadableFields : List (String × Data) → Bool
  | [] => true
  | (_, value) :: rest => isReadable value && areReadableFields rest

end

mutual

/-- Lists and records more than a number of levels deep become unreadable. -/
def within : Nat → Data → Data
  | 0, .list _ => .unreadable
  | levels + 1, .list items => .list (itemsWithin levels items)
  | 0, .record _ => .unreadable
  | levels + 1, .record fields => .record (fieldsWithin levels fields)
  | _, data => data

def itemsWithin (levels : Nat) : List Data → List Data
  | [] => []
  | item :: rest => within levels item :: itemsWithin levels rest

def fieldsWithin (levels : Nat) : List (String × Data) → List (String × Data)
  | [] => []
  | (name, value) :: rest => (name, within levels value) :: fieldsWithin levels rest

end

def flag? : Data → Option Bool
  | .flag value => some value
  | _ => none

def text? : Data → Option String
  | .text value => some value
  | _ => none

/-- A whole number from zero up to a bound that it does not reach. -/
def natBelow? (bound : Nat) : Data → Option Nat
  | .whole value => if 0 ≤ value ∧ value < bound then some value.toNat else none
  | _ => none

def size? (data : Data) : Option Nat := data.natBelow? UInt64.size

def word32? (data : Data) : Option UInt32 := (data.natBelow? UInt32.size).map Nat.toUInt32

def word64? (data : Data) : Option UInt64 := (data.natBelow? UInt64.size).map Nat.toUInt64

/-- A whole number is rounded once, another one to the nearest single. -/
def single? : Data → Option Single
  | .whole value =>
      some (Single.ofMagnitude (value < 0) (BinaryFormat.single.nearest value.natAbs 1))
  | .real value => some value.narrow
  | .short value => some value
  | _ => none

def double? : Data → Option Double
  | .whole value => some (Double.ofInt value)
  | .real value => some value
  | _ => none

def listOf? {α : Type} (item? : Data → Option α) : Data → Option (List α)
  | .list items => items.mapM item?
  | _ => none

/-- Null stands for no value. -/
def optional? {α : Type} (item? : Data → Option α) : Data → Option (Option α)
  | .null => some none
  | data => (item? data).map some

/-- The value of a record's field. -/
def field? (data : Data) (name : String) : Option Data :=
  match data with
  | .record fields => List.lookup name fields
  | _ => none

/-- The values of named fields, and whether they came by name. -/
structure Fields where
  named : Bool
  values : List (String × Data)

namespace Fields

/-- The field must be there. -/
def required {α : Type} (fields : Fields) (name : String) (item? : Data → Option α) : Option α :=
  (List.lookup name fields.values).bind item?

/-- A field that is not there has a standard value. -/
def defaulted {α : Type} (fields : Fields) (name : String) (standard : α)
    (item? : Data → Option α) : Option α :=
  match List.lookup name fields.values with
  | some data => item? data
  | none => some standard

/-- A field that is not there by name is null. In a list it must be there. -/
def nullable {α : Type} (fields : Fields) (name : String) (item? : Data → Option α) :
    Option (Option α) :=
  match List.lookup name fields.values with
  | some data => data.optional? item?
  | none => if fields.named then some none else none

end Fields

/-- No known name occurs twice. -/
def knownOnce (names : List String) : List (String × Data) → Bool
  | [] => true
  | (name, _) :: rest =>
      (!names.contains name || !rest.any fun field => field.1 = name) && knownOnce names rest

/-- The fields of a structure: a record in any order, or a list in the order of the names. Unknown
fields are passed over, and a moment is a record with no known field. -/
def fields? (names : List String) : Data → Option Fields
  | .record fields => if knownOnce names fields then some ⟨true, fields⟩ else none
  | .moment => some ⟨true, []⟩
  | .list items =>
      if items.length ≤ names.length then some ⟨false, names.zip items⟩ else none
  | _ => none

/-- A list is cut to its first items. -/
def firstItems (count : Nat) : Data → Data
  | .list items => .list (items.take count)
  | data => data

/-- A choice without a payload: its name, or its name with null. -/
def unit? (names : List String) : Data → Option String
  | .text name => if names.contains name then some name else none
  | .record [(name, .null)] => if names.contains name then some name else none
  | _ => none

end Data

end HingeLoss
