import HingeLoss.Atom.Store
import HingeLoss.Number.Bytes
import HingeLoss.Store.Fault

/-! The atom database over any layer of tables: records of atoms by number, and notes by name. -/

namespace HingeLoss

/-- A table of records that has been opened: its length, and its entries in their order. -/
structure RecordTable where
  length : Except SystemFault Nat
  entries : Except SystemFault (List (Except SystemFault (UInt32 × Bytes)))

/-- What a database does with its tables in some states. A batch collects changes until it is
committed, and a view shows the tables as they are. A table may never have been made. -/
structure TableLayer (State : Type) where
  Batch : Type
  View : Type
  begin : State → Except SystemFault Batch
  dropRecords : Batch → Except SystemFault Batch
  makeRecords : Batch → Except SystemFault Batch
  putRecord : Batch → UInt32 → Bytes → Except SystemFault Batch
  makeNotes : Batch → Except SystemFault Batch
  putNote : Batch → String → Bytes → Except SystemFault Batch
  commit : State → Batch → Except SystemFault Unit × State
  view : State → Except SystemFault View
  records : View → Except SystemFault (Option RecordTable)
  notes : View → Except SystemFault (Option (String → Except SystemFault (Option Bytes)))
  /-- The database is closed and opened where it was. -/
  reopen : State → Except (StoreFault Single) Unit × State

/-- How records of atoms are written into tables. -/
structure RecordCoding where
  encode : AtomRecord Single → Except SystemFault Bytes
  decode? : Bytes → Option (AtomRecord Single)

/-- A fault of the layer is one of the task that met it. -/
def during {α : Type} (task : String) (answer : Except SystemFault α) :
    Except (StoreFault Single) α :=
  answer.mapError fun fault => .database (.unavailable task fault)

/-- The next entry of the table must have the next number, be readable and be valid. -/
def RecordCoding.loadNext (coding : RecordCoding) (atoms : AtomStore Single)
    (entry : Except SystemFault (UInt32 × Bytes)) :
    Except (StoreFault Single) (AtomStore Single) := do
  let (number, bytes) ← during "read failed" entry
  let index := number.toNat
  if index ≠ atoms.size then .error (.database (.gap index))
  else match coding.decode? bytes with
    | none => .error (.database (.undecodable index))
    | some record =>
        match atoms.register record with
        | .error fault => .error (.atom fault)
        | .ok (_, atoms) => .ok atoms

namespace TableLayer

variable {State : Type} (layer : TableLayer State) (coding : RecordCoding)

/-- A record is collected under the number of its place. -/
def stageRecord (batch : layer.Batch) (entry : AtomRecord Single × Nat) :
    Except (StoreFault Single) layer.Batch := do
  let bytes ← during "encode atom failed" (coding.encode entry.1)
  during "insert failed" (layer.putRecord batch entry.2.toUInt32 bytes)

/-- The records of a store take the place of all that were in the table. -/
def stageAtoms (state : State) (atoms : AtomStore Single) :
    Except (StoreFault Single) layer.Batch := do
  let batch ← during "begin_write failed" (layer.begin state)
  let batch ← during "delete_table failed" (layer.dropRecords batch)
  let batch ← during "open_table failed" (layer.makeRecords batch)
  atoms.records.toList.zipIdx.foldlM (layer.stageRecord coding) batch

def stageNote (state : State) (name : String) (note : Bytes) :
    Except (StoreFault Single) layer.Batch := do
  let batch ← during "begin_write failed" (layer.begin state)
  let batch ← during "open_table failed" (layer.makeNotes batch)
  during "insert failed" (layer.putNote batch name note)

/-- What has been collected is committed. A batch that was not collected to its end is dropped. -/
def commitStaged (state : State) (staged : Except (StoreFault Single) layer.Batch) :
    Except (StoreFault Single) Unit × State :=
  match staged with
  | .error fault => (.error fault, state)
  | .ok batch =>
      let (answer, after) := layer.commit state batch
      (during "commit failed" answer, after)

/-- The table holds exactly the atoms of a store. The answer is their number. -/
def saveAtoms (state : State) (atoms : AtomStore Single) :
    Except (StoreFault Single) Nat × State :=
  let (answer, after) := layer.commitStaged state (layer.stageAtoms coding state atoms)
  (answer.map fun _ => atoms.size, after)

def writeNote (state : State) (name : String) (note : Bytes) :
    Except (StoreFault Single) Unit × State :=
  layer.commitStaged state (layer.stageNote state name note)

/-- The atoms of the table in the order of their numbers, each in a set of its own. -/
def loadAtoms (state : State) : Except (StoreFault Single) (AtomStore Single) := do
  let view ← during "begin_read failed" (layer.view state)
  match ← during "open_table failed" (layer.records view) with
  | none => pure AtomStore.empty
  | some table =>
      let _ ← during "len failed" table.length
      (← during "iter failed" table.entries).foldlM coding.loadNext AtomStore.empty

def readNote (state : State) (name : String) : Except (StoreFault Single) (Option Bytes) := do
  let view ← during "begin_read failed" (layer.view state)
  match ← during "open_table failed" (layer.notes view) with
  | none => pure none
  | some note? => during "get failed" (note? name)

end TableLayer

end HingeLoss
