import HingeLoss.Database.Layer
import Std.Data.TreeMap

/-! A layer of tables in memory, which nothing ever fails in. -/

namespace HingeLoss

/-- A record is the value in four bytes and the fixed flag in one; bytes after it are ignored. -/
def RecordCoding.packed : RecordCoding where
  encode record := .ok (Bytes.ofUInt32 record.value.bits ++ [if record.fixed then 1 else 0])
  decode?
    | a :: b :: c :: d :: flag :: _ =>
        let value : Single := ⟨Bytes.toUInt32 a b c d⟩
        if flag = 0 then some ⟨value, false⟩
        else if flag = 1 then some ⟨value, true⟩
        else none
    | _ => none

/-- The records by number and the notes by name. -/
structure AtomDatabase where
  records : Std.TreeMap UInt32 Bytes
  notes : List (String × Bytes)

namespace AtomDatabase

def empty : AtomDatabase := ⟨∅, []⟩

instance : Inhabited AtomDatabase := ⟨empty⟩

def putNote (database : AtomDatabase) (name : String) (note : Bytes) : AtomDatabase :=
  { database with notes := (name, note) :: database.notes.filter fun held => held.1 ≠ name }

def note? (database : AtomDatabase) (name : String) : Option Bytes :=
  List.lookup name database.notes

/-- A record's bytes are stored as they are. -/
def putRaw (database : AtomDatabase) (index : UInt32) (bytes : Bytes) : AtomDatabase :=
  { database with records := database.records.insert index bytes }

def removeRaw (database : AtomDatabase) (index : UInt32) : AtomDatabase :=
  { database with records := database.records.erase index }

/-- The layer whose states have these tables. Only a commit and an opening can fail. -/
def layer {State : Type} (tables : State → AtomDatabase)
    (commit : State → AtomDatabase → Except SystemFault Unit × State)
    (reopen : State → Except (StoreFault Single) Unit × State) : TableLayer State where
  Batch := AtomDatabase
  View := AtomDatabase
  begin state := .ok (tables state)
  dropRecords batch := .ok { batch with records := ∅ }
  makeRecords := .ok
  putRecord batch number bytes := .ok (batch.putRaw number bytes)
  makeNotes := .ok
  putNote batch name note := .ok (batch.putNote name note)
  commit
  view state := .ok (tables state)
  records view := .ok (some ⟨.ok view.records.size, .ok (view.records.toList.map .ok)⟩)
  notes view := .ok (some fun name => .ok (view.note? name))
  reopen

def inMemory : TableLayer AtomDatabase :=
  layer id (fun _ batch => (.ok (), batch)) fun database => (.ok (), database)

def save (database : AtomDatabase) (atoms : AtomStore Single) : Nat × AtomDatabase :=
  let (answer, after) := inMemory.saveAtoms .packed database atoms
  (answer.toOption.getD 0, after)

def load (database : AtomDatabase) : Except (StoreFault Single) (AtomStore Single) :=
  inMemory.loadAtoms .packed database

end AtomDatabase

end HingeLoss
