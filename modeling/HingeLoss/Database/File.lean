import HingeLoss.Database.Basic
import HingeLoss.Disk.System

/-! A layer of tables that are kept in a file, in a folder that is made for it. -/

namespace HingeLoss

namespace AtomDatabase

/-- A length in groups of seven bits, the lowest first. Only the last byte is below 128. -/
def encodeLength (length : Nat) : Bytes :=
  if length < 128 then [length.toUInt8]
  else (128 + length % 128).toUInt8 :: encodeLength (length / 128)

def decodeLength? : Bytes → Option (Nat × Bytes)
  | [] => none
  | byte :: rest =>
      if byte.toNat < 128 then some (byte.toNat, rest)
      else (decodeLength? rest).map fun (higher, rest) => (byte.toNat - 128 + 128 * higher, rest)

/-- A part of the file: its length and its bytes. -/
def encodePart (part : Bytes) : Bytes := encodeLength part.length ++ part

def decodePart? (bytes : Bytes) : Option (Bytes × Bytes) :=
  match decodeLength? bytes with
  | some (length, rest) =>
      if rest.length < length then none else some (rest.take length, rest.drop length)
  | none => none

/-- Every file starts with this mark. Its first byte is at the front of no text. -/
def mark : Bytes := [0x89, 0x61, 0x74, 0x6f, 0x6d, 0x73]

def encodeNote (entry : String × Bytes) : Bytes :=
  encodePart entry.1.toUTF8.data.toList ++ encodePart entry.2

def encodeEntry (entry : UInt32 × Bytes) : Bytes := Bytes.ofUInt32 entry.1 ++ encodePart entry.2

/-- The file of the tables: the mark, the number of notes, the notes, and the records in order. -/
def toBytes (database : AtomDatabase) : Bytes :=
  mark ++ encodeLength database.notes.length ++ database.notes.flatMap encodeNote ++
    database.records.toList.flatMap encodeEntry

def decodeNotes? : Nat → Bytes → Option (List (String × Bytes) × Bytes)
  | 0, rest => some ([], rest)
  | count + 1, rest => do
      let (name, rest) ← decodePart? rest
      let (note, rest) ← decodePart? rest
      let (notes, rest) ← decodeNotes? count rest
      some ((← String.fromUTF8? name.toByteArray, note) :: notes, rest)

/-- The records up to the end of the file, at most a number of them. -/
def decodeRecords? : Nat → Bytes → Option (List (UInt32 × Bytes))
  | _, [] => some []
  | bound + 1, a :: b :: c :: d :: rest => do
      let (bytes, rest) ← decodePart? rest
      let records ← decodeRecords? bound rest
      some ((Bytes.toUInt32 a b c d, bytes) :: records)
  | _, _ => none

def ofBytes? (bytes : Bytes) : Option AtomDatabase :=
  if bytes.take mark.length = mark then do
    let (count, rest) ← decodeLength? (bytes.drop mark.length)
    let (notes, rest) ← decodeNotes? count rest
    let records ← decodeRecords? rest.length rest
    some ⟨records.foldl (fun table (index, bytes) => table.insert index bytes) ∅, notes⟩
  else none

def fileName : String := "atoms.redb"

def damaged : SystemFault := .other "invalid data"

/-- The tables of a file's bytes. An empty file is one without tables. -/
def ofFile (bytes : Bytes) : Except SystemFault AtomDatabase :=
  match if bytes.isEmpty then some empty else ofBytes? bytes with
  | some database => .ok database
  | none => .error damaged

/-- The tables of the file at a path, which is made if it is missing. -/
def create (disk : Folder) (path : Path) : Except SystemFault AtomDatabase × Folder :=
  match disk.readAt path with
  | .ok bytes => (ofFile bytes, disk)
  | .error .notFound =>
      match disk.writeAt path empty.toBytes with
      | .ok made => (.ok empty, made)
      | .error fault => (.error fault, disk)
  | .error fault => (.error fault, disk)

/-- The tables of the file in a folder, and the disk with both, which are made if they are
missing. -/
def openOn (disk : Folder) (folder : Path) : Except (StoreFault Single) AtomDatabase × Folder :=
  match disk.ensureFolder folder with
  | (.error fault, left) => (during ("create " ++ folder.shown) (.error fault), left)
  | (.ok _, left) =>
      let path := folder.child fileName
      let (answer, left) := create left path
      (during ("failed to open redb at " ++ path.shown) answer, left)

end AtomDatabase

/-- Tables with the folder of their file on a disk. -/
structure DatabaseFile where
  tables : AtomDatabase
  folder : Path
  disk : Folder

namespace DatabaseFile

/-- Changed tables go to the file as a whole, or nothing changes. -/
def commit (file : DatabaseFile) (tables : AtomDatabase) :
    Except SystemFault Unit × DatabaseFile :=
  match file.disk.writeAt (file.folder.child AtomDatabase.fileName) tables.toBytes with
  | .error fault => (.error fault, file)
  | .ok disk => (.ok (), { file with tables, disk })

def reopen (file : DatabaseFile) : Except (StoreFault Single) Unit × DatabaseFile :=
  match AtomDatabase.openOn file.disk file.folder with
  | (.error fault, disk) => (.error fault, { file with disk })
  | (.ok tables, disk) => (.ok (), { file with tables, disk })

def layer : TableLayer DatabaseFile := AtomDatabase.layer tables commit reopen

end DatabaseFile

end HingeLoss
