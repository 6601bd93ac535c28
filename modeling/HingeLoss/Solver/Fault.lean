import HingeLoss.Store.Fault

/-! What can go wrong with a run of a solver, or with a reading of its results. -/

namespace HingeLoss

inductive ParameterFault (α : Type) where
  | penalty (value : α)
  | learningRate (value : α)
  | other (text : String)
deriving DecidableEq

def ParameterFault.text : ParameterFault Single → String
  | .penalty value => s!"penalty must be positive, got {value.text}"
  | .learningRate value => s!"learning rate must be positive, got {value.text}"
  | .other text => text

/-- The reasons for which a result of the last run cannot be read. -/
inductive StaleFault where
  | noRun
  | noTerm (term count : Nat)
  | other (text : String)
deriving DecidableEq

def StaleFault.text : StaleFault → String
  | .noRun => "no completed run"
  | .noTerm term count => s!"term {term} is not part of the last run ({count} terms)"
  | .other text => text

inductive SolverFault (α : Type) where
  | hardConstraint (term : Nat)
  | parameter (fault : ParameterFault α)
  | stale (fault : StaleFault)
  | store (fault : StoreFault α)
  | atom (fault : AtomFault α)
deriving DecidableEq

namespace SolverFault

def code {α : Type} : SolverFault α → String
  | hardConstraint _ => "hlmrf::reasoner::hard_constraint"
  | parameter _ => "hlmrf::reasoner::invalid_parameter"
  | stale _ => "hlmrf::reasoner::stale_state"
  | store fault => fault.code
  | atom fault => fault.code

def message : SolverFault Single → String
  | hardConstraint term =>
      s!"term {term} is a hard constraint, which the stochastic reasoner cannot enforce"
  | parameter fault => "invalid reasoner parameter: " ++ fault.text
  | stale fault => "reasoner state does not match the term store: " ++ fault.text
  | store fault => fault.message
  | atom fault => fault.message

def help {α : Type} : SolverFault α → String
  | hardConstraint _ =>
      "Stochastic gradient steps only handle weighted potentials. " ++
        "Use the consensus (ADMM) reasoner for models with hard constraints."
  | parameter _ => "Validate the configuration with `HlmrfConfig::validate` before running."
  | stale _ => "Run `optimize` against the current term store before reading per-term outputs."
  | store fault => fault.help
  | atom fault => fault.help

def source {α : Type} : SolverFault α → Option String
  | store fault => fault.source
  | _ => none

end SolverFault

end HingeLoss
