import HingeLoss.Atom.Basic
import HingeLoss.Atom.Forest

/-! The atom store: the record of every atom, and the partition that component tracking merges. -/

namespace HingeLoss

structure AtomStore (α : Type) where
  records : Array (AtomRecord α)
  partition : Forest
  sizesAgree : partition.size = records.size

namespace AtomStore

variable {α : Type}

def empty : AtomStore α := ⟨#[], Forest.empty, rfl⟩

instance : Inhabited (AtomStore α) := ⟨empty⟩

def size (store : AtomStore α) : Nat := store.records.size

def values (store : AtomStore α) : Array α := store.records.map AtomRecord.value

/-- The number of atoms that are not observed. -/
def variableCount (store : AtomStore α) : Nat := store.records.countP fun record => !record.fixed

def lookup (store : AtomStore α) (atom : AtomId) : Except (AtomFault α) (AtomRecord α) :=
  match store.records[atom.index]? with
  | some record => .ok record
  | none => .error (.outOfRange atom.index store.size)

def check (store : AtomStore α) (atom : AtomId) : Except (AtomFault α) Unit :=
  (store.lookup atom).map fun _ => ()

def value (store : AtomStore α) (atom : AtomId) : Except (AtomFault α) α :=
  (store.lookup atom).map AtomRecord.value

def isFixed (store : AtomStore α) (atom : AtomId) : Except (AtomFault α) Bool :=
  (store.lookup atom).map AtomRecord.fixed

/-- The root of the set that an atom belongs to. -/
def find (store : AtomStore α) (atom : AtomId) : Except (AtomFault α) (AtomId × AtomStore α) :=
  if atom.index < store.size then
    .ok (AtomId.ofIndex (store.partition.find atom.index).1,
      { store with
        partition := (store.partition.find atom.index).2
        sizesAgree := (Forest.size_find _ _).trans store.sizesAgree })
  else .error (.outOfRange atom.index store.size)

/-- The sets of two atoms become one, and its root is the answer. -/
def union (store : AtomStore α) (first second : AtomId) :
    Except (AtomFault α) (AtomId × AtomStore α) :=
  if first.index < store.size then
    if second.index < store.size then
      .ok (AtomId.ofIndex (store.partition.union first.index second.index).1,
        { store with
          partition := (store.partition.union first.index second.index).2
          sizesAgree := (Forest.size_union _ _ _).trans store.sizesAgree })
    else .error (.outOfRange second.index store.size)
  else .error (.outOfRange first.index store.size)

/-- Every atom goes back to a set of its own. -/
def resetPartition (store : AtomStore α) : AtomStore α where
  records := store.records
  partition := store.partition.reset
  sizesAgree := (Forest.size_reset _).trans store.sizesAgree

variable [Scalar α]

def inUnit (value : α) : Bool := Scalar.isFinite value && 0 ≤ value && value ≤ 1

/-- A new atom takes the next number. -/
def register (store : AtomStore α) (record : AtomRecord α) :
    Except (AtomFault α) (AtomId × AtomStore α) :=
  if inUnit record.value then
    .ok (AtomId.ofIndex store.size,
      { records := store.records.push record
        partition := store.partition.push
        sizesAgree := by rw [Forest.size_push, store.sizesAgree, Array.size_push] })
  else .error (.invalidValue store.size record.value)

/-- A free atom takes a finite value, clamped to the unit interval. -/
def assign (store : AtomStore α) (atom : AtomId) (value : α) :
    Except (AtomFault α) (AtomStore α) :=
  match store.lookup atom with
  | .error fault => .error fault
  | .ok record =>
      if record.fixed then .error (.fixed atom.index)
      else if Scalar.isFinite value then
        .ok { store with
          records := store.records.modify atom.index fun record =>
            { record with value := Scalar.clampUnit value }
          sizesAgree := by rw [store.sizesAgree, Array.size_modify] }
      else .error (.invalidValue atom.index value)

/-- The store of a list of records, or the fault of the first record that is refused. -/
def ofRecords (records : List (AtomRecord α)) : Except (AtomFault α) (AtomStore α) :=
  records.foldlM (fun store record => (store.register record).map Prod.snd) empty

end AtomStore

end HingeLoss
