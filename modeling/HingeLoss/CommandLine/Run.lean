import HingeLoss.CommandLine.Arguments
import HingeLoss.CommandLine.Display
import HingeLoss.CommandLine.Problem
import HingeLoss.Consensus.Solver
import HingeLoss.Database.File
import HingeLoss.Descent.Solver
import HingeLoss.Json.Printer
import HingeLoss.Paged.Grounding
import HingeLoss.Settings.File
import HingeLoss.Store.Session

/-! A run of the command line over a disk: what it prints and leaves, and the fault that ends it. -/

namespace HingeLoss.CommandLine

/-- What ends a run early: a fault of the library, one without a code, or a store that no memory can
hold. -/
inductive RunFault where
  | library (fault : Fault)
  | plain (text : String)
  | exhausted

namespace RunFault

def code? : RunFault → Option String
  | library fault => some fault.code
  | plain _ => none
  | exhausted => none

def message : RunFault → String
  | library fault => fault.message
  | plain text => text
  | exhausted => "capacity overflow"

def exit : RunFault → Nat
  | exhausted => 101
  | _ => 1

end RunFault

/-- The disk and what has been printed. -/
structure Console where
  disk : Folder
  printed : String

abbrev Run := ExceptT RunFault (StateM Console)

namespace Run

def print (text : String) : Run Unit :=
  modify fun console => { console with printed := console.printed ++ text }

def printLines (lines : List String) : Run Unit := lines.forM fun line => print (line ++ "\n")

def putDisk (disk : Folder) : Run Unit := modify fun console => { console with disk }

def ofExcept {ε α : Type} [wrap : Coe ε Fault] : Except ε α → Run α
  | .ok value => pure value
  | .error fault => throw (.library (wrap.coe fault))

/-- The disk changes even when the answer is a fault. -/
def onDisk {ε α : Type} [Coe ε Fault] (act : Folder → Except ε α × Folder) : Run α := do
  let (answer, disk) := act (← get).disk
  putDisk disk
  ofExcept answer

def ofOption {α : Type} (text : String) : Option α → Run α
  | some value => pure value
  | none => throw (.plain text)

end Run

open Run

/-- Relative paths start at this folder, whose own name is not shown. -/
def home : Path := ⟨"", ["home"], false⟩

/-- The pages of a store that names no folder are kept here. No text is a path to a name with a
slash. -/
def scratch : Path := ⟨"scratch", ["/scratch"], false⟩

/-- The disk of a run that finds these files. One whose place is taken is left out. -/
def diskOf (files : List (String × Bytes)) : Folder :=
  files.foldl (fun disk (name, bytes) => (disk.place (home.join name) bytes).2) (.fresh "home")

def loadSettings : Option String → Run Settings
  | none => pure .standard
  | some path => do ofExcept (Settings.load (← get).disk (home.join path))

def loadProblem (path : String) : Run Grounded := do
  match (← get).disk.readAt (home.join path) with
  | .error fault => throw (.plain fault.text)
  | .ok bytes =>
      let text ← ofOption Settings.notText.text (String.fromUTF8? bytes.toByteArray)
      let problem ← ofOption (path ++ " is no problem file") (Problem.ofText? text)
      ofExcept problem.ground

def descentAnswer (answer : Except (DescentFault Single) (RunReport Double)) :
    Run (RunReport Double) :=
  match answer with
  | .ok report => pure report
  | .error (.solver fault) => throw (.library (.solver fault))
  | .error .unreadable => throw (.plain "a term names an atom that is not held")

/-- An inference over the paged store. Its pages are gone when it ends well. -/
def inferPaged (settings : Settings) (grounded : Grounded) :
    Run (RunReport Double × AtomStore Single) := do
  let store ← onDisk (PagedStore.create settings.paging home scratch)
  let disk := (← get).disk
  if !settings.paging.fitMemory then throw .exhausted
  let source := grounded.terms.map fun term => SourceItem.mk (.ok term) false
  let start := Grounding.start store grounded.atoms (store.folderOn disk) source false
  let (answer, pass) := Grounding.run start.stepBound start
  let store := pass.store
  let disk := store.putFolder disk pass.folder
  putDisk disk
  let discard : Run Unit := modify fun console =>
    { console with disk := store.discard console.disk }
  tryCatch (do let _ ← ofExcept answer) fun fault => do discard; throw fault
  printLines [s!"Grounded {store.termCount} terms into {store.pageSizes.size} pages " ++
    s!"({store.components.size} components)"]
  let stream : PagedStream := ⟨store, store.folderOn disk, false⟩
  let (answer, stream, atoms) :=
    Descent.optimize settings.descent (fun _ => false) stream pass.atoms
  let report ← tryCatch (descentAnswer answer) fun fault => do discard; throw fault
  let traffic := stream.store.traffic
  printLines [s!"Page I/O: {traffic.pagesWritten} written ({traffic.bytesWritten} bytes), " ++
    s!"{traffic.pagesRead} read ({traffic.bytesRead} bytes), {traffic.cacheHits} cache hits"]
  let (answer, _, disk) := stream.store.closeOn disk
  putDisk disk
  ofExcept answer
  pure (report, atoms)

def incompatibilityLine (rules : RuleSet Single)
    (entry : RuleId × RuleDissatisfaction Double) : Run String := do
  let rule ← ofExcept (rules.get entry.1)
  pure ("  " ++ entry.1.label ++ " " ++ padRight 24 rule.name ++ " primal " ++
    entry.2.primal.fixed 6 ++ "  dual " ++ entry.2.dual.fixed 6)

/-- An inference over the resident store. -/
def inferResident (settings : Settings) (inference : Inference) (grounded : Grounded) :
    Run (RunReport Double × AtomStore Single) := do
  let session ← ofExcept (GroundingSession.ofStore ResidentStore.empty grounded.atoms)
  let (answer, session) := session.addAll grounded.terms
  let _ ← ofExcept answer
  let (answer, session) := session.finish
  let count ← ofExcept answer
  let components := session.store.components
  printLines [s!"Grounded {count} terms ({components.size} components, " ++
    s!"largest {components.largest})"]
  match inference.method with
  | .descent =>
      let (answer, atoms) :=
        Descent.optimizeResident settings.descent false session.store session.atoms
      pure (← descentAnswer answer, atoms)
  | .consensus =>
      let solver := ConsensusSolver.ofSettings settings.consensus
      let (answer, solver, atoms) :=
        solver.optimize session.store session.atoms (fun _ => false)
      let report : RunReport Double ← ofExcept answer
      if inference.incompatibility then
        let sums : Std.TreeMap RuleId (RuleDissatisfaction Double) ← ofExcept solver.byRule
        printLines ["Incompatibility by rule:"]
        sums.toList.forM fun entry => do
          printLines [← incompatibilityLine grounded.rules entry]
      pure (report, atoms)

/-- The note of the database that holds the last report. -/
def lastRun : String := "last_run"

def persist (path : String) (report : RunReport Double) (atoms : AtomStore Single) :
    Run Unit := do
  let folder := home.join path
  let tables ← onDisk (AtomDatabase.openOn · folder)
  let (saved, file) := DatabaseFile.layer.saveAtoms .packed ⟨tables, folder, (← get).disk⟩ atoms
  putDisk file.disk
  let count ← ofExcept saved
  let note := (Json.render report.toData).toUTF8.toList
  let (noted, file) := DatabaseFile.layer.writeNote file lastRun note
  putDisk file.disk
  ofExcept noted
  printLines [s!"Saved {count} atoms to " ++ path]

def infer (settings : Settings) (inference : Inference) : Run Unit := do
  if inference.streaming && inference.method = .consensus then
    throw (.plain
      "ADMM needs the in-memory term store; use --reasoner sgd with --streaming")
  let grounded ← loadProblem inference.problem
  let (report, atoms) ←
    if inference.streaming then inferPaged settings grounded
    else inferResident settings inference grounded
  printLines (reportLines report)
  printLines ["Values:"]
  printLines (atomLines atoms)
  match inference.persist with
  | some path => persist path report atoms
  | none => pure ()

def components (problem : String) (count : Nat) : Run Unit := do
  let grounded ← loadProblem problem
  let session : GroundingSession Single := ⟨.empty, grounded.atoms⟩
  let (answer, session) := session.addAll grounded.terms
  let _ ← ofExcept answer
  let found := session.store.components
  printLines [s!"Components: {found.size} over {session.store.size} terms " ++
    s!"(largest {found.largest})"]
  printLines (((componentSizes found).take count).map componentLine)

def values (path : String) : Run Unit := do
  let folder := home.join path
  let tables ← onDisk (AtomDatabase.openOn · folder)
  let file : DatabaseFile := ⟨tables, folder, (← get).disk⟩
  let atoms ← ofExcept (DatabaseFile.layer.loadAtoms .packed file)
  if atoms.size = 0 then printLines ["No atoms saved in " ++ path ++ "."]
  else
    match ← ofExcept (DatabaseFile.layer.readNote file lastRun) with
    | some note => do
        let report ← ofOption "the last report cannot be read"
          ((String.fromUTF8? note.toByteArray).bind fun text =>
            (Json.parse? text).bind RunReport.ofData?)
        printLines (reportLines report)
    | none => pure ()
    printLines [s!"Values ({atoms.size}):"]
    printLines (atomLines atoms)

/-- The settings are read before the command is looked at. -/
def Request.run (request : Request) : Run Unit := do
  let settings ← loadSettings request.config
  match request.command with
  | .infer inference => infer settings inference
  | .components problem count => components problem count
  | .values path => values path
  | .settings => print (← ofExcept settings.toText)

/-- What a command line leaves: the exit code, the text it prints, the fault that ended it, and the
disk. -/
structure Outcome where
  exit : Nat
  printed : String
  fault : Option RunFault
  disk : Folder

def versionText : String := "hlmrf 0.3.1\n"

/-- A command line that cannot be understood leaves two, and a fault leaves its own exit code. -/
def execute (disk : Folder) (arguments : List String) : Outcome :=
  match Request.ofArguments arguments with
  | .error .version => ⟨0, versionText, none, disk⟩
  | .error (.help command) => ⟨0, (Help.ofCommand command).text, none, disk⟩
  | .error .misuse => ⟨2, "", none, disk⟩
  | .ok request =>
      match request.run.run.run ⟨disk, ""⟩ with
      | (.ok _, console) => ⟨0, console.printed, none, console.disk⟩
      | (.error fault, console) => ⟨fault.exit, console.printed, some fault, console.disk⟩

/-- Several command lines one after another, each on the disk that the one before it leaves. -/
def executeAll (disk : Folder) : List (List String) → List Outcome
  | [] => []
  | arguments :: rest =>
      let outcome := execute disk arguments
      outcome :: executeAll outcome.disk rest

end HingeLoss.CommandLine
