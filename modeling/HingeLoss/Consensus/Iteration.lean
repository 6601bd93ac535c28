import HingeLoss.Consensus.Local

/-! One consensus iteration over the copies of the terms, and its residuals. -/

namespace HingeLoss

structure ConsensusState (α : Type) where
  terms : List (LocalTerm α)
  values : Array α

/-- Three sums that are taken in one pass. -/
structure Sums (β : Type) where
  first : β
  second : β
  third : β

namespace Sums

variable {β : Type} [Scalar β]

def zero : Sums β := ⟨0, 0, 0⟩

@[inline] def add (left right : Sums β) : Sums β :=
  ⟨left.first + right.first, left.second + right.second, left.third + right.third⟩

end Sums

/-- How a sum over a list is taken: from the left, or over two parts whose sums are added. -/
inductive SumTree where
  | leaf
  | node (firstLength : Nat) (first second : SumTree)

namespace SumTree

variable {γ δ : Type}

def inHalves (items : List γ) : SumTree :=
  if items.length < 2 then .leaf else .node (items.length / 2) .leaf .leaf

@[specialize] def total (add : δ → δ → δ) (zero : δ) (summand : γ → δ) : SumTree → List γ → δ
  | .leaf, items => items.foldl (fun sum item => add sum (summand item)) zero
  | .node firstLength first second, items =>
      add (first.total add zero summand (items.take firstLength))
        (second.total add zero summand (items.drop firstLength))

end SumTree

namespace ConsensusState

variable {α β : Type} [Scalar α] [Scalar β] [Widening α β]

/-- All copies in the order of the terms. -/
def copies (state : ConsensusState α) : List (Copy α) := state.terms.flatMap LocalTerm.copies

/-- The number of copies of each atom. -/
def copyCounts (state : ConsensusState α) : Array Nat :=
  state.terms.foldl (fun counts term =>
    term.copies.foldl (fun counts copy => counts.modify copy.atom.index (· + 1)) counts)
    (Array.replicate state.values.size 0)

/-- The sum of the copies of each atom, each with its price over the penalty. -/
@[specialize] def copySums (penalty : α) (size : Nat) (terms : List (LocalTerm α)) : Array α :=
  terms.foldl (fun sums term =>
    term.copies.foldl (fun sums copy =>
      sums.modify copy.atom.index (· + (copy.value + copy.price / penalty))) sums)
    (Array.replicate size 0)

/-- Every atom with copies takes the mean of them, clamped to the unit interval. -/
@[specialize] def average (penalty : α) (counts : Array Nat) (terms : List (LocalTerm α))
    (values : Array α) : Array α :=
  let sums := copySums penalty values.size terms
  values.mapIdx fun index value =>
    match counts.getD index 0 with
    | 0 => value
    | count => Scalar.clampUnit (sums.getD index 0 / (count : α))

/-- The squares of the distances, of the copies and of the prices of one term. -/
@[specialize] def copySquares (values : Array α) (term : LocalTerm α) : Sums β :=
  term.copies.foldl (fun sums copy =>
    let distance := copy.value - valueAt values copy.atom
    sums.add ⟨Scalar.square (widen distance), Scalar.square (widen copy.value),
      Scalar.square (widen copy.price)⟩) Sums.zero

/-- The squares of the moves and of the values of the atoms, once per copy. -/
@[specialize] def moveSquares (counts : Array Nat) (before after : Array α) : β × β :=
  (List.range after.size).foldl (fun sums index =>
    match counts.getD index 0 with
    | 0 => sums
    | count =>
        let weight : β := (count : β)
        let value := after.getD index 0
        let move : β := widen (value - before.getD index 0)
        (sums.1 + weight * move * move, sums.2 + weight * Scalar.square (widen value))) (0, 0)

/-- The residuals of an iteration and the bounds below which it counts as converged. -/
structure Residuals (β : Type) where
  primal : β
  dual : β
  primalBound : β
  dualBound : β

def Residuals.converged (residuals : Residuals β) : Bool :=
  residuals.primal < residuals.primalBound && residuals.dual < residuals.dualBound

/-- What stays the same in all iterations of a run. -/
structure Plan (α β : Type) where
  penalty : α
  epsilonRel : β
  /-- The absolute tolerance times the root of the number of copies. -/
  slack : β
  counts : Array Nat
  /-- How the residuals are summed over the terms. -/
  tree : List (LocalTerm α) → SumTree

@[specialize] def iterate (plan : Plan α β) (state : ConsensusState α) :
    ConsensusState α × Residuals β :=
  let penalty := plan.penalty
  let minimized := state.terms.map (LocalTerm.minimize state.values penalty)
  let values := average penalty plan.counts minimized state.values
  let terms := minimized.map (LocalTerm.raisePrices values penalty)
  let squares : Sums β := (plan.tree terms).total Sums.add Sums.zero (copySquares values) terms
  let moves : β × β := moveSquares plan.counts state.values values
  let largest := Scalar.larger (Scalar.sqrt squares.second) (Scalar.sqrt moves.2)
  (⟨terms, values⟩,
    { primal := Scalar.sqrt squares.first
      dual := widen penalty * Scalar.sqrt moves.1
      primalBound := plan.slack + plan.epsilonRel * largest
      dualBound := plan.slack + plan.epsilonRel * Scalar.sqrt squares.third })

end ConsensusState

end HingeLoss
