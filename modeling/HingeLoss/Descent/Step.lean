import HingeLoss.Solver.Report

/-! The step of one term: its free atoms move against the gradient and stay in the unit interval. -/

namespace HingeLoss

/-- The values that an epoch works on, what the adaptive step sizes have accumulated, the squared
moves so far and the number of terms so far. -/
structure Epoch (α β : Type) where
  values : Array α
  accumulated : Array α
  movedSquared : β
  visited : Nat

/-- What stays the same in one epoch. -/
structure EpochPlan (α : Type) where
  records : Array (AtomRecord α)
  adagrad : Bool
  step : α

namespace Epoch

variable {α β : Type} [Scalar α] [Scalar β] [Widening α β]

/-- This summand keeps the first adaptive steps finite. -/
def adagradEpsilon : α := Scalar.tenth 8

/-- One free atom moves by its coefficient times the scale of the term. -/
@[specialize] def moveAtom (plan : EpochPlan α) (scale : α) (epoch : Epoch α β)
    (entry : AtomId × α) : Epoch α β :=
  let index := entry.1.index
  match plan.records[index]? with
  | none => epoch
  | some record =>
      if record.fixed then epoch
      else
        let gradient := scale * entry.2
        let squares := valueAt epoch.accumulated entry.1 + gradient * gradient
        let rate :=
          if plan.adagrad then plan.step / (Scalar.sqrt squares + adagradEpsilon) else plan.step
        let value := valueAt epoch.values entry.1
        let moved := Scalar.clampUnit (value - rate * gradient)
        { epoch with
          values := epoch.values.setIfInBounds index moved
          accumulated :=
            if plan.adagrad then epoch.accumulated.setIfInBounds index squares
            else epoch.accumulated
          movedSquared := epoch.movedSquared + Scalar.square (widen (moved - value)) }

/-- The first atom that has no value is a fault. -/
def checkAtoms (size : Nat) (atoms : List AtomId) : Except (SolverFault α) Unit :=
  match atoms.find? fun atom => size ≤ atom.index with
  | some atom => .error (.atom (.outOfRange atom.index size))
  | none => .ok ()

/-- The step of a term. A constraint cannot be followed, and a term without slope moves nothing. -/
@[specialize] def follow (plan : EpochPlan α) (epoch : Epoch α β) (term : Term α) :
    Except (SolverFault α) (Epoch α β) :=
  if term.isHard then .error (.hardConstraint epoch.visited)
  else match checkAtoms epoch.values.size term.atoms with
    | .error fault => .error fault
    | .ok _ =>
        let scale := term.gradientScale (term.raw (valueAt epoch.values))
        let visited := { epoch with visited := epoch.visited + 1 }
        if Scalar.same scale 0 then .ok visited
        else .ok (term.entries.foldl (moveAtom plan scale) visited)

end Epoch

end HingeLoss
