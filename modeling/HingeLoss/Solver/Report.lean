import HingeLoss.Atom.Store
import HingeLoss.Solver.Fault

/-! The report of a run, and the end that both solvers share. -/

namespace HingeLoss

inductive RunStatus where
  | converged
  | maxIterationsReached
  | cancelled
deriving DecidableEq

namespace RunStatus

def name : RunStatus → String
  | converged => "converged"
  | maxIterationsReached => "max-iterations-reached"
  | cancelled => "cancelled"

def text : RunStatus → String
  | converged => "converged"
  | maxIterationsReached => "max iterations reached"
  | cancelled => "cancelled"

end RunStatus

structure RunReport (β : Type) where
  status : RunStatus
  iterations : Nat
  primalResidual : β
  dualResidual : β
  objective : β
  violatedConstraints : Nat
deriving DecidableEq

def RunReport.converged {β : Type} (report : RunReport β) : Bool := report.status == .converged

/-- The slack under which a constraint counts as violated in a report. -/
def constraintTolerance {α : Type} [Scalar α] : α := Scalar.tenth 3

/-- The constraint fails by more than the slack. Potentials never do. -/
@[specialize] def Term.violated {α : Type} [Scalar α] (term : Term α) (valueOf : AtomId → α) :
    Bool :=
  term.isHard && !term.holdsWithin valueOf constraintTolerance

namespace AtomStore

variable {α : Type} [Scalar α]

/-- One free atom takes a value that differs from its own. -/
def writeBackAt (atoms : AtomStore α) (values : Array α) (index : Nat) :
    Except (AtomFault α) (AtomStore α) :=
  match atoms.records[index]?, values[index]? with
  | some record, some value =>
      if record.fixed || Scalar.same record.value value then .ok atoms
      else atoms.assign (AtomId.ofIndex index) value
  | _, _ => .ok atoms

/-- The free atoms take values in turn, up to the first fault. Atoms before the fault keep theirs.
-/
def writeBackFrom (values : Array α) : List Nat → AtomStore α →
    Except (AtomFault α) Unit × AtomStore α
  | [], atoms => (.ok (), atoms)
  | index :: rest, atoms =>
      match atoms.writeBackAt values index with
      | .error fault => (.error fault, atoms)
      | .ok atoms => writeBackFrom values rest atoms

def writeBack (atoms : AtomStore α) (values : Array α) : Except (AtomFault α) Unit × AtomStore α :=
  writeBackFrom values (List.range values.size) atoms

end AtomStore

end HingeLoss
