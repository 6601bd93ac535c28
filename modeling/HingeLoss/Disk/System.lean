import HingeLoss.Disk.Basic
import HingeLoss.Disk.Path

/-! Paths on a disk, followed from the folder at the top one step after another. -/

namespace HingeLoss

/-- The system takes paths of bounded length whose characters it can tell from the end of a text. -/
def Path.check (path : Path) : Except SystemFault Unit :=
  if path.shown.toList.contains '\x00' then .error .nullInName
  else if 4096 ≤ path.shown.utf8ByteSize then .error .nameTooLong
  else .ok ()

namespace Folder

/-- A disk with one empty folder and a sink. -/
def fresh (name : String) : Folder :=
  [(name, .folder []), ("dev", .folder [("null", .sink)])]

/-- The system knows names of at most this many bytes. -/
def nameBytes : Nat := 255

/-- The names that lead from the top to the folder behind some steps. -/
def walk (disk : Folder) : List String → List String → Except SystemFault (List String)
  | place, [] => .ok place
  | place, step :: rest =>
      if step = "." then walk disk place rest
      else if step = ".." then walk disk place.dropLast rest
      else if nameBytes < step.utf8ByteSize then .error .nameTooLong
      else
        match disk.enter (place ++ [step]) with
        | .error fault => .error fault
        | .ok _ => walk disk (place ++ [step]) rest

/-- The place of the folder at a path. -/
def placeOf (disk : Folder) (path : Path) : Except SystemFault (List String) :=
  match path.check with
  | .error fault => .error fault
  | .ok _ => disk.walk [] path.steps

/-- The folder at a path. -/
def folderAt (disk : Folder) (path : Path) : Except SystemFault Folder :=
  (disk.placeOf path).bind disk.enter

/-- The disk with the folder at a path as it is given, if there is a folder at the path. -/
def putFolderAt (disk : Folder) (path : Path) (entries : Folder) : Folder :=
  match disk.placeOf path with
  | .ok place => disk.update place fun _ => entries
  | .error _ => disk

/-- The folder in which the last step of a path is taken, its place, and the name that this step
is, if it is a name. -/
def locate (disk : Folder) (path : Path) :
    Except SystemFault (Folder × List String × Option String) := do
  path.check
  let place ← disk.walk [] path.steps.dropLast
  let entries ← disk.enter place
  match path.steps.getLast? with
  | none => pure (entries, place, none)
  | some step =>
      if step = "." || step = ".." then pure (entries, place, none)
      else if nameBytes < step.utf8ByteSize then .error .nameTooLong
      else pure (entries, place, some step)

/-- The bytes of the file at a path. -/
def readAt (disk : Folder) (path : Path) : Except SystemFault Bytes := do
  match ← disk.locate path with
  | (_, _, none) => .error .isFolder
  | (entries, _, some name) =>
      let bytes ← entries.read name
      if path.slash then .error .notFolder else pure bytes

/-- The file at a path is made or replaced. -/
def writeAt (disk : Folder) (path : Path) (bytes : Bytes) : Except SystemFault Folder := do
  match ← disk.locate path with
  | (_, _, none) => .error .isFolder
  | (entries, place, some name) =>
      if path.slash then .error .isFolder
      else
        let written ← entries.write name bytes
        pure (disk.update place fun _ => written)

/-- An empty folder is made at a path. -/
def addFolderAt (disk : Folder) (path : Path) : Except SystemFault Folder := do
  match ← disk.locate path with
  | (_, _, none) => .error .alreadyExists
  | (entries, place, some name) =>
      let made ← entries.addFolder name
      pure (disk.update place fun _ => made)

/-- A path becomes an empty folder unless it is a folder. -/
def settle (disk : Folder) (path : Path) : Except SystemFault Unit × Folder :=
  match disk.addFolderAt path with
  | .ok made => (.ok (), made)
  | .error fault => (if (disk.folderAt path).isOk then .ok () else .error fault, disk)

/-- The first of some paths becomes a folder unless it is one. Each of them is the parent of the one
before it and is made first if it is missing. -/
def addFolders (disk : Folder) : List Path → Except SystemFault Unit × Folder
  | [] => (.ok (), disk)
  | path :: above =>
      if path.shown.isEmpty then (.ok (), disk)
      else
        match disk.addFolderAt path with
        | .error .notFound =>
            match disk.addFolders above with
            | (.error fault, left) => (.error fault, left)
            | (.ok _, left) => left.settle path
        | _ => disk.settle path

/-- The folder at a path and all folders above it are made as far as they are missing. Those that
are made before a fault stay. -/
def ensureFolder (disk : Folder) (path : Path) : Except SystemFault Unit × Folder :=
  disk.addFolders (path.ancestors (path.steps.length + 1))

/-- The file at a path is made or replaced, and all folders above it are made. -/
def place (disk : Folder) (path : Path) (bytes : Bytes) : Except SystemFault Unit × Folder :=
  match disk.ensureFolder path.parent with
  | (.error fault, left) => (.error fault, left)
  | (.ok _, left) =>
      match left.writeAt path bytes with
      | .error fault => (.error fault, left)
      | .ok written => (.ok (), written)

/-- The folder at a path is emptied and then removed by its name. A path that is lost with what has
been removed counts as removed, and a folder without a name of its own stays. -/
def removeTree (disk : Folder) (path : Path) : Except SystemFault Unit × Folder :=
  match disk.placeOf path with
  | .error fault => (.error fault, disk)
  | .ok place =>
      let emptied := disk.update place fun _ => []
      match emptied.locate path with
      | .error .notFound => (.ok (), emptied)
      | .error fault => (.error fault, emptied)
      | .ok (entries, place, some name) =>
          (.ok (), emptied.update place fun _ => entries.erase name)
      | .ok (_, _, none) =>
          let back := path.steps.getLast? = some ".."
          (.error (if back then .notEmpty else .invalidArgument), emptied)

end Folder

end HingeLoss
