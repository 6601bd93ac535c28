import HingeLoss.Rule.Basic

/-! Ground clauses, each held by the literals of its negation, and ground comparisons of a sum. -/

namespace HingeLoss

structure Clause where
  rule : RuleId
  positive : List AtomId
  negative : List AtomId
deriving DecidableEq, Hashable

namespace Clause

def size (clause : Clause) : Nat := clause.positive.length + clause.negative.length

/-- The clause itself: the literals of the negation, negated back. -/
def text (clause : Clause) : String :=
  " | ".intercalate
    (clause.positive.map (fun atom => "!" ++ atom.label) ++ clause.negative.map AtomId.label)

variable {α : Type} [Scalar α]

/-- The potential of the clause: one per positive literal, minus one per negative literal, and the
constant that makes it one where every literal of the negation is true. A single literal needs no
hinge. -/
def term (clause : Clause) (rule : Rule α) : Except (StoreFault α) (Term α) :=
  if rule.id ≠ clause.rule then
    .error (.malformedTerm clause.rule (.foreignRule clause.rule rule.id))
  else
    Rule.term clause.rule (Shape.ofFlags (1 < clause.size) rule.squared) rule.weight
      (clause.positive ++ clause.negative)
      (clause.positive.map (fun _ => 1) ++ clause.negative.map (fun _ => -1))
      (1 - (clause.positive.length : α))

end Clause

inductive Comparator where
  | atMost
  | atLeast
  | equal
deriving DecidableEq, Inhabited

structure Comparison (α : Type) where
  rule : RuleId
  atoms : List AtomId
  coefficients : List α
  comparator : Comparator
  constant : α

namespace Comparison

variable {α : Type} [Scalar α]

/-- The potential of the amount by which the sum exceeds the constant. -/
def above (comparison : Comparison α) (shape : Shape) (weight : Weight α) :
    Except (StoreFault α) (Term α) :=
  Rule.term comparison.rule shape weight comparison.atoms comparison.coefficients
    (-comparison.constant)

/-- The potential of the amount by which the sum falls short of the constant. -/
def below (comparison : Comparison α) (shape : Shape) (weight : Weight α) :
    Except (StoreFault α) (Term α) :=
  Rule.term comparison.rule shape weight comparison.atoms
    (comparison.coefficients.map fun coefficient => -coefficient) comparison.constant

def terms (comparison : Comparison α) (rule : Rule α) : Except (StoreFault α) (List (Term α)) :=
  let hinged := Shape.ofFlags true rule.squared
  match rule.weight, comparison.comparator with
  | .hard, .atMost => (comparison.above .hinge rule.weight).map ([·])
  | .hard, .atLeast => (comparison.below .hinge rule.weight).map ([·])
  | .hard, .equal => (comparison.above .linear rule.weight).map ([·])
  | .soft _, .atMost => (comparison.above hinged rule.weight).map ([·])
  | .soft _, .atLeast => (comparison.below hinged rule.weight).map ([·])
  | .soft _, .equal => do
      let upper ← comparison.above hinged rule.weight
      let lower ← comparison.below hinged rule.weight
      pure [upper, lower]

end Comparison

end HingeLoss
