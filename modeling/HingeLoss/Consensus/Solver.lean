import HingeLoss.Consensus.Iteration
import HingeLoss.Settings.Basic
import HingeLoss.Solver.Report
import HingeLoss.Store.Resident

/-! The consensus solver over a sealed resident store, and what can be read of its last state. -/

namespace HingeLoss

structure ConsensusSolver (α : Type) where
  settings : ConsensusSettings α
  solution : Option (ConsensusState α)
  /-- How sums over the terms of a state are taken. -/
  tree : List (LocalTerm α) → SumTree

/-- The dissatisfaction of all terms of a rule, at the atoms and at the copies. -/
structure RuleDissatisfaction (β : Type) where
  primal : β
  dual : β

namespace ConsensusSolver

variable {α β : Type} [Scalar α] [Scalar β] [Widening α β]

def ofSettings {α : Type} (settings : ConsensusSettings α) : ConsensusSolver α :=
  ⟨settings, none, SumTree.inHalves⟩

/-- How the iterations of a run have ended. -/
structure Ending (α β : Type) where
  status : RunStatus
  iterations : Nat
  residuals : Option (ConsensusState.Residuals β)
  state : ConsensusState α

/-- The iterations up to the cap. The token is asked before each of them. -/
@[specialize] def iterateUpTo (plan : ConsensusState.Plan α β) (cancelled : Nat → Bool) :
    Nat → Ending α β → Ending α β
  | 0, ending => ending
  | left + 1, ending =>
      if cancelled ending.iterations then { ending with status := .cancelled }
      else
        let (state, residuals) := ConsensusState.iterate plan ending.state
        let iterations := ending.iterations + 1
        if residuals.converged then ⟨.converged, iterations, some residuals, state⟩
        else iterateUpTo plan cancelled left
          ⟨.maxIterationsReached, iterations, some residuals, state⟩

def start (terms : List (Term α)) (atoms : AtomStore α) : ConsensusState α :=
  ⟨terms.map (LocalTerm.ofTerm atoms.records), atoms.values⟩

def plan (settings : ConsensusSettings α) (tree : List (LocalTerm α) → SumTree)
    (state : ConsensusState α) : ConsensusState.Plan α β :=
  let copies : Nat := state.copies.length
  { penalty := settings.penalty
    epsilonRel := widen settings.epsilonRel
    slack := Scalar.sqrt ((max copies 1 : Nat) : β) * widen settings.epsilonAbs
    counts := state.copyCounts
    tree }

def finiteOrZero (value : β) : β := if Scalar.isFinite value then value else 0

/-- The report of an ending, with the terms evaluated at its values. -/
def report (terms : List (Term α)) (ending : Ending α β) : RunReport β :=
  let valueOf := valueAt ending.state.values
  { status := ending.status
    iterations := ending.iterations
    primalResidual := ending.residuals.elim 0 fun residuals => finiteOrZero residuals.primal
    dualResidual := ending.residuals.elim 0 fun residuals => finiteOrZero residuals.dual
    objective := terms.foldl (fun sum term => sum + widen (term.objective valueOf)) 0
    violatedConstraints := terms.countP fun term => term.violated valueOf }

/-- A run from the current values of the atoms. A fault leaves no solution behind once the settings
have been accepted. -/
def optimize (solver : ConsensusSolver α) (store : ResidentStore α) (atoms : AtomStore α)
    (cancelled : Nat → Bool) :
    Except (SolverFault α) (RunReport β) × ConsensusSolver α × AtomStore α :=
  match store.ensureReady with
  | .error fault => (.error (.store fault), solver, atoms)
  | .ok _ =>
      if !Scalar.isPositive solver.settings.penalty then
        (.error (.parameter (.penalty solver.settings.penalty)), solver, atoms)
      else
        let terms := store.terms.toList
        let unsolved := { solver with solution := none }
        match terms.forM fun term => atoms.checkAll term.atoms with
        | .error fault => (.error (.atom fault), unsolved, atoms)
        | .ok _ =>
            let state := start terms atoms
            let ending : Ending α β :=
              iterateUpTo (plan solver.settings solver.tree state) cancelled
                solver.settings.maxIterations ⟨.maxIterationsReached, 0, none, state⟩
            match atoms.writeBack ending.state.values with
            | (.error fault, atoms) => (.error (.atom fault), unsolved, atoms)
            | (.ok _, atoms) =>
                (.ok (report terms ending), { solver with solution := some ending.state }, atoms)

def lastState (solver : ConsensusSolver α) : Except (SolverFault α) (ConsensusState α) :=
  match solver.solution with
  | some state => .ok state
  | none => .error (.stale .noRun)

def localTerm (solver : ConsensusSolver α) (term : TermId) :
    Except (SolverFault α) (ConsensusState α × LocalTerm α) :=
  match solver.lastState with
  | .error fault => .error fault
  | .ok state =>
      match state.terms[term]? with
      | some found => .ok (state, found)
      | none => .error (.stale (.noTerm term state.terms.length))

/-- The dissatisfaction of a term at its copies. -/
def dualDissatisfaction (solver : ConsensusSolver α) (term : TermId) :
    Except (SolverFault α) α :=
  (solver.localTerm term).map fun (_, found) => found.dualDissatisfaction

/-- The dissatisfaction of a term at the atoms. -/
def primalDissatisfaction (solver : ConsensusSolver α) (term : TermId) :
    Except (SolverFault α) α :=
  (solver.localTerm term).map fun (state, found) => found.primalDissatisfaction state.values

/-- The sum of price times distance over all copies. -/
def lagrangianPenalty (solver : ConsensusSolver α) : Except (SolverFault α) β :=
  solver.lastState.map fun state =>
    (solver.tree state.terms).total (· + ·) 0 (fun term : LocalTerm α =>
      term.copies.foldl (fun sum copy =>
        sum + widen (copy.price * (copy.value - valueAt state.values copy.atom))) (0 : β))
      state.terms

/-- Half the penalty times the sum of the squared distances over all copies. -/
def augmentedPenalty (solver : ConsensusSolver α) : Except (SolverFault α) β :=
  solver.lastState.map fun state =>
    let squares : β := (solver.tree state.terms).total (· + ·) 0 (fun term : LocalTerm α =>
      term.copies.foldl (fun sum copy =>
        sum + Scalar.square (widen (copy.value - valueAt state.values copy.atom))) (0 : β))
      state.terms
    1 / Scalar.two * widen solver.settings.penalty * squares

/-- The dissatisfaction of each rule, summed in the order of the terms. -/
def byRule (solver : ConsensusSolver α) :
    Except (SolverFault α) (Std.TreeMap RuleId (RuleDissatisfaction β)) :=
  solver.lastState.map fun state =>
    state.terms.foldl (fun sums term =>
      let known := sums.getD term.rule ⟨0, 0⟩
      sums.insert term.rule
        ⟨known.primal + widen (term.primalDissatisfaction state.values),
          known.dual + widen term.dualDissatisfaction⟩) ∅

/-- The consensus values of the last run, by atom. -/
def consensus (solver : ConsensusSolver α) : Except (SolverFault α) (Array α) :=
  solver.lastState.map ConsensusState.values

end ConsensusSolver

end HingeLoss
