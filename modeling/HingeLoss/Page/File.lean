import HingeLoss.Decimal.Basic
import HingeLoss.Disk.System
import HingeLoss.Page.Image

/-! Page files: a page is written whole under a temporary name and then renamed. -/

namespace HingeLoss

/-- The steps in which a page is written. -/
inductive WriteStep where
  | create
  | write
  | flush
  | measure
  | rename
deriving DecidableEq

/-- A folder as the system finds it: its entries, or the reason for which it cannot be entered. The
system may refuse one of the steps of a write, and a file may end after a number of bytes. -/
structure FoundFolder where
  entries : Except SystemFault Folder
  refusal : Option (WriteStep × SystemFault)
  room : Option Nat

namespace FoundFolder

/-- A folder that takes all that is written. -/
@[match_pattern] def ok (entries : Folder) : FoundFolder := ⟨.ok entries, none, none⟩

@[match_pattern] def error (fault : SystemFault) : FoundFolder := ⟨.error fault, none, none⟩

instance : Coe (Except SystemFault Folder) FoundFolder := ⟨fun entries => ⟨entries, none, none⟩⟩

/-- The folder with other entries, under the same system. -/
def withEntries (folder : FoundFolder) (entries : Folder) : FoundFolder :=
  { folder with entries := .ok entries }

def attempt (folder : FoundFolder) (step : WriteStep) : Except SystemFault Unit :=
  match folder.refusal with
  | none => .ok ()
  | some (refused, fault) => if refused = step then .error fault else .ok ()

/-- What a file holds of the bytes that are written to it. -/
def kept (folder : FoundFolder) (bytes : Bytes) : Bytes :=
  match folder.room with
  | none => bytes
  | some count => bytes.take count

/-- A file is made or replaced, and what it has room for is written to it. -/
def create (folder : FoundFolder) (name : String) (bytes : Bytes) : Except SystemFault Folder := do
  folder.attempt .create
  (← folder.entries).write name (folder.kept bytes)

/-- The steps between making a file and renaming it. -/
def complete (folder : FoundFolder) : Except SystemFault Unit := do
  folder.attempt .write
  folder.attempt .flush
  folder.attempt .measure

end FoundFolder

namespace Page

def fileName (index : Nat) : String := "page-" ++ Decimal.padLeft 6 (toString index) ++ ".bin"

def temporaryName (index : Nat) : String := fileName index ++ ".tmp"

def path (directory : Path) (index : Nat) : String := (directory.child (fileName index)).shown

def temporaryPath (directory : Path) (index : Nat) : String :=
  (directory.child (temporaryName index)).shown

/-- The page is written and its size is the answer. What has been written before a fault stays behind
under the temporary name. -/
def save (directory : Path) (index : Nat) (terms : List (Term Single)) (folder : FoundFolder) :
    Except PageFault Nat × FoundFolder :=
  let image := encode terms
  if !fitsHeader (image.length - headerBytes) terms.length then
    (.error (.corrupt (path directory index) (.tooLong (image.length - headerBytes))), folder)
  else match folder.create (temporaryName index) image with
    | .error fault => (.error (.system (temporaryPath directory index) fault), folder)
    | .ok written =>
        let left := folder.withEntries written
        match folder.complete with
        | .error fault => (.error (.system (temporaryPath directory index) fault), left)
        | .ok _ =>
            let held := written.fileSize (temporaryName index)
            if held ≠ image.length then
              (.error (.shortWrite (temporaryPath directory index) image.length held), left)
            else match folder.attempt .rename with
              | .error fault => (.error (.system (path directory index) fault), left)
              | .ok _ =>
                  match written.rename (temporaryName index) (fileName index) with
                  | .error fault => (.error (.system (path directory index) fault), left)
                  | .ok renamed => (.ok image.length, folder.withEntries renamed)

/-- The bytes of a page file. A folder in its place can be opened but not mapped. -/
def fetch (directory : Path) (index : Nat) (folder : FoundFolder) : Except PageFault Bytes :=
  match folder.entries with
  | .error fault => .error (.system (path directory index) fault)
  | .ok entries =>
      match entries.read (fileName index) with
      | .ok bytes => .ok bytes
      | .error .isFolder => .error (.system (path directory index) .noDevice)
      | .error fault => .error (.system (path directory index) fault)

/-- The page files up to a number are removed, up to the first fault. A missing one is none. -/
def removeAll (directory : Path) : List Nat → FoundFolder → Except PageFault Unit × FoundFolder
  | [], folder => (.ok (), folder)
  | index :: rest, folder =>
      match folder.entries.bind fun entries => entries.removeFile (fileName index) with
      | .ok entries => removeAll directory rest (folder.withEntries entries)
      | .error .notFound => removeAll directory rest folder
      | .error fault => (.error (.system (path directory index) fault), folder)

end Page

end HingeLoss
