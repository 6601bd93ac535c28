import HingeLoss.Descent.Step
import HingeLoss.Settings.Basic
import HingeLoss.Store.Resident

/-! The descent solver over any stream of terms. -/

namespace HingeLoss

/-- A run ends without a report at a fault, or where a term reads an atom that has no value. -/
inductive DescentFault (α : Type) where
  | solver (fault : SolverFault α)
  | unreadable
deriving DecidableEq

/-- The terms evaluated so far. -/
structure Evaluation (β : Type) where
  visited : Nat
  objective : β
  violated : Nat

namespace Descent

variable {σ α β : Type} [Scalar α] [Scalar β] [Widening α β] [TermStream σ α]

/-- How the token of a run is found before and after the epoch of a number. -/
structure Token (σ : Type) where
  before : Nat → σ → Bool
  after : Nat → σ → Bool

/-- A token that only the stream tells of. -/
def Token.ofStream {σ : Type} (cancelled : σ → Bool) : Token σ :=
  ⟨fun _ => cancelled, fun _ => cancelled⟩

/-- How the epochs of a run have ended. -/
structure Ending (α β : Type) where
  status : RunStatus
  epochs : Nat
  movement : β
  values : Array α
  accumulated : Array α

/-- One sweep that follows every term, and the length of the way that the atoms went. -/
@[specialize] def runEpoch (settings : DescentSettings α) (records : Array (AtomRecord α))
    (ending : Ending α β) (stream : σ) : Except (SolverFault α) (Ending α β) × σ :=
  let plan : EpochPlan α :=
    { records
      adagrad := settings.adagrad
      step := settings.schedule.step settings.learningRate ending.epochs }
  match TermStream.beginSweep stream with
  | (.error fault, stream) => (.error (.store fault), stream)
  | (.ok _, stream) =>
      let start : Epoch α β := ⟨ending.values, ending.accumulated, 0, 0⟩
      match TermStream.fold (Epoch.follow plan) SolverFault.store start stream with
      | (_, some fault, stream) => (.error fault, stream)
      | (epoch, none, stream) =>
          (.ok { ending with
            movement := Scalar.sqrt epoch.movedSquared
            values := epoch.values
            accumulated := epoch.accumulated }, stream)

/-- The epochs up to the cap. The token is asked before and after each of them. -/
@[specialize] def runEpochsUnder (settings : DescentSettings α) (records : Array (AtomRecord α))
    (token : Token σ) : Nat → Ending α β → σ → Except (SolverFault α) (Ending α β) × σ
  | 0, ending, stream => (.ok ending, stream)
  | left + 1, ending, stream =>
      if token.before ending.epochs stream then (.ok { ending with status := .cancelled }, stream)
      else match runEpoch settings records ending stream with
        | (.error fault, stream) => (.error fault, stream)
        | (.ok ending, stream) =>
            if token.after ending.epochs stream then
              (.ok { ending with status := .cancelled }, stream)
            else
              let ending := { ending with epochs := ending.epochs + 1 }
              if ending.movement < widen settings.tolerance then
                (.ok { ending with status := .converged }, stream)
              else runEpochsUnder settings records token left ending stream

/-- The objective and the violations of one more term. -/
@[specialize] def evaluateTerm (values : Array α) (evaluation : Evaluation β) (term : Term α) :
    Except (DescentFault α) (Evaluation β) :=
  if term.readsBelow values.size then
    .ok { visited := evaluation.visited + 1
          objective := evaluation.objective + widen (term.objective (valueAt values))
          violated := evaluation.violated + if term.violated (valueAt values) then 1 else 0 }
  else .error .unreadable

/-- The report of an ending. A run whose last sweep was cut off counts as cancelled. -/
@[specialize] def evaluate (ending : Ending α β) (stream : σ) :
    Except (DescentFault α) (RunReport β) × σ :=
  let report (status : RunStatus) (objective : β) (violated : Nat) : RunReport β :=
    ⟨status, ending.epochs, ending.movement, 0, objective, violated⟩
  if ending.status = .cancelled then (.ok (report .cancelled 0 0), stream)
  else match TermStream.beginSweep stream with
    | (.error fault, stream) => (.error (.solver (.store fault)), stream)
    | (.ok _, stream) =>
        let start : Evaluation β := ⟨0, 0, 0⟩
        match TermStream.fold (evaluateTerm ending.values)
            (fun fault => DescentFault.solver (.store fault)) start stream with
        | (_, some fault, stream) => (.error fault, stream)
        | (evaluation, none, stream) =>
            if evaluation.visited < TermStream.termCount stream then
              (.ok (report .cancelled 0 0), stream)
            else
              (.ok (report ending.status evaluation.objective evaluation.violated), stream)

/-- What a run starts from. -/
def startOf (settings : DescentSettings α) (atoms : AtomStore α) : Ending α β :=
  ⟨.maxIterationsReached, 0, 0, atoms.values,
    if settings.adagrad then Array.replicate atoms.size 0 else #[]⟩

/-- A run from the current values of the atoms. -/
@[specialize] def optimizeUnder (settings : DescentSettings α) (token : Token σ) (stream : σ)
    (atoms : AtomStore α) : Except (DescentFault α) (RunReport β) × σ × AtomStore α :=
  if !Scalar.isPositive settings.learningRate then
    (.error (.solver (.parameter (.learningRate settings.learningRate))), stream, atoms)
  else
    match runEpochsUnder settings atoms.records token settings.maxEpochs
        (startOf settings atoms) stream with
    | (.error fault, stream) => (.error (.solver fault), stream, atoms)
    | (.ok ending, stream) =>
        match atoms.writeBack ending.values with
        | (.error fault, atoms) => (.error (.solver (.atom fault)), stream, atoms)
        | (.ok _, atoms) =>
            let (answer, stream) := evaluate ending stream
            (answer, stream, atoms)

/-- A run whose token is found in the stream. -/
def optimize (settings : DescentSettings α) (cancelled : σ → Bool) (stream : σ)
    (atoms : AtomStore α) : Except (DescentFault α) (RunReport β) × σ × AtomStore α :=
  optimizeUnder settings (.ofStream cancelled) stream atoms

/-- The seed of the shuffles of a run. -/
def shuffleSeed (settings : DescentSettings α) : Option UInt64 :=
  if settings.shuffleTerms then some settings.seed else none

/-- A run over a resident store, in a new order in each epoch if the settings ask for it. -/
def optimizeResidentUnder (settings : DescentSettings α) (token : Token (ResidentSweep α))
    (store : ResidentStore α) (atoms : AtomStore α) :
    Except (DescentFault α) (RunReport β) × AtomStore α :=
  match ResidentSweep.ofStore store (shuffleSeed settings) with
  | .error fault => (.error (.solver (.store fault)), atoms)
  | .ok sweep =>
      let (answer, _, atoms) := optimizeUnder settings token sweep atoms
      (answer, atoms)

def optimizeResident (settings : DescentSettings α) (cancelled : Bool) (store : ResidentStore α)
    (atoms : AtomStore α) : Except (DescentFault α) (RunReport β) × AtomStore α :=
  optimizeResidentUnder settings (.ofStream fun _ => cancelled) store atoms

end Descent

end HingeLoss
