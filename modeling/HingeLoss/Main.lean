import HingeLoss.CommandLine.Run

/-! The program: a run over a disk that holds the files that the arguments name. -/

namespace HingeLoss.CommandLine

/-- A file of the system with its bytes, if the system has it. -/
def carryIn (name : String) : IO (Option (String × Bytes)) := do
  try
    let bytes ← IO.FS.readBinFile name
    pure (some (name, bytes.toList))
  catch _ => pure none

/-- The database file of a run goes to the system. -/
def carryOut (disk : Folder) (folder : String) : IO Unit := do
  let path := (home.join folder).child AtomDatabase.fileName
  match disk.readAt path with
  | .error _ => pure ()
  | .ok bytes =>
      IO.FS.createDirAll folder
      IO.FS.writeBinFile path.shown bytes.toByteArray

end HingeLoss.CommandLine

open HingeLoss CommandLine

def main (arguments : List String) : IO UInt32 := do
  let request := (Request.ofArguments arguments).toOption
  let database := request.bind Request.database
  let names := (request.map Request.files).getD []
  let held := database.toList.map fun folder =>
    ((home.join folder).child AtomDatabase.fileName).shown
  let files ← (names ++ held).filterMapM carryIn
  let outcome := execute (diskOf files) arguments
  IO.print outcome.printed
  match outcome.fault with
  | some fault => IO.eprintln ("error: " ++ fault.message)
  | none => if outcome.exit ≠ 0 then IO.eprint (Help.ofCommand none).text
  database.forM (carryOut outcome.disk)
  pure outcome.exit.toUInt32
