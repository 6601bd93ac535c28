import HingeLoss.Data.Basic

/-! The tables of the settings language, each of which belongs to the first form that defines it. -/

namespace HingeLoss.Toml

/-- How a table came to be. -/
inductive Origin where
  | header
  | path
  | dotted
deriving DecidableEq

inductive Item where
  | value (data : Data)
  | table (origin : Origin) (items : List (String × Item))
  /-- The tables under repeated headers of one name, the last one apart. -/
  | rows (earlier : List (List (String × Item))) (last : List (String × Item))

abbrev Items := List (String × Item)

namespace Items

/-- The item of a name is replaced, or added at the end. -/
def set : Items → String → Item → Items
  | [], name, item => [(name, item)]
  | held :: rest, name, item =>
      if held.1 = name then (name, item) :: rest else held :: set rest name item

/-- A value goes under a dotted key. Every name but the last one stands for a table that dotted keys
define, or for the last table under a repeated header; the last name must be new. -/
def put (isOpen : Bool) : List String → Data → Items → Option Items
  | [], _, _ => none
  | [name], data, items =>
      if isOpen && (List.lookup name items).isNone then some (items.set name (.value data))
      else none
  | name :: rest, data, items =>
      match List.lookup name items with
      | none => do
          let inner ← put true rest data []
          some (items.set name (.table .dotted inner))
      | some (.value _) => none
      | some (.rows earlier last) => do
          let last ← put false rest data last
          some (items.set name (.rows earlier last))
      | some (.table .header _) => none
      | some (.table origin inner) => do
          let inner ← put (origin = .dotted) rest data inner
          some (items.set name (.table origin inner))

/-- The item at the path of a header changes. Tables on the way are made, and of tables under a
repeated header the last one counts. -/
def change (act : Option Item → Option Item) : List String → Items → Option Items
  | [], _ => none
  | [name], items => do
      let item ← act (List.lookup name items)
      some (items.set name item)
  | name :: rest, items =>
      match List.lookup name items with
      | none => do
          let inner ← change act rest []
          some (items.set name (.table .path inner))
      | some (.value _) => none
      | some (.rows earlier last) => do
          let last ← change act rest last
          some (items.set name (.rows earlier last))
      | some (.table origin inner) => do
          let inner ← change act rest inner
          some (items.set name (.table origin inner))

/-- A header gives a new table. -/
def declare (path : List String) (items : Items) : Option Items :=
  items.change (fun
    | none => some (.table .header [])
    | some (.table .path inner) => some (.table .header inner)
    | _ => none) path

/-- A repeated header adds a table. -/
def declareRow (path : List String) (items : Items) : Option Items :=
  items.change (fun
    | none => some (.rows [] [])
    | some (.rows earlier last) => some (.rows (earlier ++ [last]) [])
    | _ => none) path

/-- A value goes under a dotted key in the table of a header. -/
def putUnder (header : List String) (keys : List String) (data : Data) (items : Items) :
    Option Items :=
  if header.isEmpty then items.put true keys data
  else items.change (fun
    | some (.table origin inner) => (put true keys data inner).map (.table origin)
    | some (.rows earlier last) => (put true keys data last).map (.rows earlier)
    | _ => none) header

end Items

mutual

def Item.toData : Item → Data
  | .value data => data
  | .table _ items => .record (itemsToFields items)
  | .rows earlier last => .list (rowsToData earlier ++ [.record (itemsToFields last)])

def itemsToFields : List (String × Item) → List (String × Data)
  | [] => []
  | (name, item) :: rest => (name, item.toData) :: itemsToFields rest

def rowsToData : List (List (String × Item)) → List Data
  | [] => []
  | items :: rest => .record (itemsToFields items) :: rowsToData rest

end

def Items.toData (items : Items) : Data := .record (itemsToFields items)

end HingeLoss.Toml
