import HingeLoss.Atom.Store
import HingeLoss.CommandLine.Arguments
import HingeLoss.Decimal.Fixed
import HingeLoss.Solver.Report
import HingeLoss.Store.Components

/-! The help of the command line, and the lines that it prints for reports, atoms and components. -/

namespace HingeLoss.CommandLine

/-- Blanks fill the text up to a width. -/
def padRight (width : Nat) (text : String) : String :=
  text ++ String.ofList (List.replicate (width - text.length) ' ')

def reportLines (report : RunReport Double) : List String :=
  ["Status:               " ++ report.status.text,
    "Iterations:           " ++ toString report.iterations,
    "Objective:            " ++ report.objective.fixed 6,
    "Primal residual:      " ++ report.primalResidual.fixedScientific 3,
    "Dual residual:        " ++ report.dualResidual.fixedScientific 3,
    "Violated constraints: " ++ toString report.violatedConstraints]

def atomLine (entry : AtomRecord Single × Nat) : String :=
  "  atom:" ++ padRight 6 (toString entry.2) ++ " " ++ entry.1.value.fixed 4 ++
    if entry.1.fixed then " (observed)" else ""

def atomLines (atoms : AtomStore Single) : List String :=
  atoms.records.toList.zipIdx.map atomLine

/-- The components with their numbers of terms, the largest first, equal ones by atom. -/
def componentSizes (components : ComponentIndex) : List (AtomId × Nat) :=
  (components.toList.map fun (root, ids) => (root, ids.length)).mergeSort fun left right =>
    left.2 > right.2 || (left.2 = right.2 && left.1.index ≤ right.1.index)

def componentLine (entry : AtomId × Nat) : String :=
  "  " ++ padRight 12 entry.1.label ++ " " ++ toString entry.2 ++ " terms"

/-- A table of names and what they stand for, under a title. -/
structure HelpTable where
  title : String
  rows : List (String × String)

structure Help where
  about : String
  usage : String
  tables : List HelpTable

/-- The names stand in one column and what they stand for in another one. -/
def HelpTable.text (table : HelpTable) : String :=
  let width := (table.rows.map fun row => row.1.length).foldl max 0
  "\n" ++ table.title ++ ":\n" ++
    String.join (table.rows.map fun (name, about) =>
      "  " ++ padRight width name ++ "  " ++ about ++ "\n")

namespace Help

def text (help : Help) : String :=
  help.about ++ "\n\nUsage: " ++ help.usage ++ "\n" ++ String.join (help.tables.map HelpTable.text)

/-- The options of the program or of a command, between those that all of them have. -/
def options (rows : List (String × String)) : HelpTable :=
  ⟨"Options",
    ("    --config <CONFIG>", "TOML configuration file. Defaults apply when omitted") ::
      rows ++ [("-h, --help", "Print help")]⟩

def problem : String × String := ("    --problem <PROBLEM>", "Path to a JSON problem file")

def program : Help :=
  let shared := options []
  ⟨"Hinge-loss Markov random field inference", "hlmrf [OPTIONS] <COMMAND>",
    [⟨"Commands", commands⟩,
      { shared with rows := shared.rows ++ [("-V, --version", "Print version")] }]⟩

def infer : List (String × String) := [
  problem,
  ("    --reasoner <REASONER>",
    "Optimizer to run [default: admm] [possible values: admm, sgd]"),
  ("    --streaming", "Ground into the paged out-of-core store (SGD only)"),
  ("    --incompatibility", "Print per-rule incompatibilities after an ADMM run"),
  ("    --persist <PERSIST>", "Save final atom values and the run report to this directory")]

def components : List (String × String) := [
  problem,
  ("    --top-k <TOP_K>", "Number of components to list [default: 10]")]

def values : List (String × String) := [("    --persist <PERSIST>", "")]

/-- The usage and the tables of a command. -/
def ofName (name : String) : String × List HelpTable :=
  if name = "infer" then (" [OPTIONS] --problem <PROBLEM>", [options infer])
  else if name = "components" then (" [OPTIONS] --problem <PROBLEM>", [options components])
  else if name = "values" then (" [OPTIONS] --persist <PERSIST>", [options values])
  else if name = "config" then (" [OPTIONS]", [options []])
  else (" [COMMAND]...", [⟨"Arguments", [("[COMMAND]...", "Print help for the subcommand(s)")]⟩])

/-- The help of a command, or without one that of the program. -/
def ofCommand : Option String → Help
  | none => program
  | some name =>
      let (usage, tables) := ofName name
      ⟨(commands.lookup name).getD "", "hlmrf " ++ name ++ usage, tables⟩

end Help

end HingeLoss.CommandLine
