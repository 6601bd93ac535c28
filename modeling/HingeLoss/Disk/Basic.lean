import HingeLoss.Page.Fault

/-! Files and folders, and the faults for which the system refuses an operation on them. -/

namespace HingeLoss

inductive Node where
  | file (bytes : Bytes)
  | folder (entries : List (String × Node))
  /-- A file that keeps nothing of what is written to it. -/
  | sink
deriving Inhabited

/-- The entries of a folder, in the order in which they were made. -/
abbrev Folder := List (String × Node)

namespace Folder

def get? (folder : Folder) (name : String) : Option Node := List.lookup name folder

/-- The entry of a name is replaced, or made at the end. -/
def put : Folder → String → Node → Folder
  | [], name, node => [(name, node)]
  | entry :: rest, name, node =>
      if entry.1 = name then (name, node) :: rest else entry :: put rest name node

def erase (folder : Folder) (name : String) : Folder := folder.filter fun entry => entry.1 ≠ name

def names (folder : Folder) : List String := folder.map Prod.fst

/-- What stands at a path below the folder. -/
def lookup (folder : Folder) : List String → Except SystemFault Node
  | [] => .ok (.folder folder)
  | name :: rest =>
      match folder.get? name with
      | none => .error .notFound
      | some (.folder entries) => lookup entries rest
      | some node => if rest.isEmpty then .ok node else .error .notFolder

/-- The folder at a path. -/
def enter (folder : Folder) (path : List String) : Except SystemFault Folder :=
  match folder.lookup path with
  | .error fault => .error fault
  | .ok (.folder entries) => .ok entries
  | .ok _ => .error .notFolder

/-- The folder at a path becomes another one. -/
def update (folder : Folder) : List String → (Folder → Folder) → Folder
  | [], change => change folder
  | name :: rest, change =>
      match folder.get? name with
      | some (.folder entries) => folder.put name (.folder (update entries rest change))
      | _ => folder

/-- The bytes of the file of a name. -/
def read (folder : Folder) (name : String) : Except SystemFault Bytes :=
  match folder.get? name with
  | none => .error .notFound
  | some (.folder _) => .error .isFolder
  | some (.file bytes) => .ok bytes
  | some .sink => .ok []

/-- The number of bytes in the file of a name. -/
def fileSize (folder : Folder) (name : String) : Nat :=
  match folder.read name with
  | .ok bytes => bytes.length
  | .error _ => 0

/-- A file is made or replaced. -/
def write (folder : Folder) (name : String) (bytes : Bytes) : Except SystemFault Folder :=
  match folder.get? name with
  | some (.folder _) => .error .isFolder
  | some .sink => .ok folder
  | _ => .ok (folder.put name (.file bytes))

/-- A file takes the name of another one. -/
def rename (folder : Folder) (source target : String) : Except SystemFault Folder :=
  match folder.get? source, folder.get? target with
  | none, _ => .error .notFound
  | some (.file _), some (.folder _) => .error .isFolder
  | some .sink, some (.folder _) => .error .isFolder
  | some node, _ => .ok ((folder.erase source).put target node)

def removeFile (folder : Folder) (name : String) : Except SystemFault Folder :=
  match folder.get? name with
  | none => .error .notFound
  | some (.folder _) => .error .isFolder
  | some _ => .ok (folder.erase name)

/-- An empty folder is made. -/
def addFolder (folder : Folder) (name : String) : Except SystemFault Folder :=
  match folder.get? name with
  | none => .ok (folder.put name (.folder []))
  | some _ => .error .alreadyExists

end Folder

end HingeLoss
