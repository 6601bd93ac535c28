import HingeLoss.Atom.Basic
import HingeLoss.Decimal.Shortest
import HingeLoss.Term.Shape

/-! Potential terms, each a weight times a shape of a linear form in atom values. -/

namespace HingeLoss

/-- A rule set numbers its rules densely from zero. -/
structure RuleId where
  number : UInt32
deriving DecidableEq, Hashable, Inhabited

namespace RuleId

def index (rule : RuleId) : Nat := rule.number.toNat

def ofIndex (index : Nat) : RuleId := ⟨index.toUInt32⟩

def label (rule : RuleId) : String := "rule:" ++ toString rule.index

instance : Ord RuleId := ⟨compareOn RuleId.number⟩

instance : Std.TransOrd RuleId := inferInstanceAs (Std.TransCmp (compareOn RuleId.number))

instance : Std.LawfulEqOrd RuleId where
  eq_of_compare := by
    intro left right same
    have equal : left.number = right.number := Std.LawfulEqOrd.eq_of_compare same
    cases left; cases right; simp_all

end RuleId

/-- A soft weight scales a potential; a hard one makes it a constraint. -/
inductive Weight (α : Type) where
  | soft (value : α)
  | hard
deriving DecidableEq, Inhabited

namespace Weight

def isHard {α : Type} : Weight α → Bool
  | soft _ => false
  | hard => true

/-- A hard weight, or a soft one that is finite and not negative. -/
def isValid {α : Type} [Scalar α] : Weight α → Bool
  | soft value => Scalar.isNonnegative value
  | hard => true

def text : Weight Single → String
  | soft value => value.text
  | hard => "hard"

end Weight

structure Term (α : Type) where
  rule : RuleId
  shape : Shape
  weight : Weight α
  constant : α
  atoms : List AtomId
  coefficients : List α
deriving DecidableEq

/-- The reasons for which a term is refused. -/
inductive TermFault (α : Type) where
  | noAtoms
  | ragged (atoms coefficients : Nat)
  | tooManyAtoms (arity : Nat)
  | notFinite
  | weight (value : α)
  | foreignRule (grounding given : RuleId)
  | other (text : String)
deriving DecidableEq

namespace TermFault

def text : TermFault Single → String
  | noAtoms => "term references no atoms"
  | ragged atoms coefficients => s!"{atoms} atoms but {coefficients} coefficients"
  | tooManyAtoms arity => s!"arity {arity} too large"
  | notFinite => "non-finite coefficient or constant"
  | weight value => s!"weight {value.text} must be finite and non-negative"
  | foreignRule grounding given => s!"grounding of {grounding.label} built with {given.label}"
  | other text => text

end TermFault

namespace Term

variable {α : Type}

/-- The slot of a pool before its first use. -/
def blank [Zero α] : Term α := ⟨⟨0⟩, .linear, .soft 0, 0, [], []⟩

def arity (term : Term α) : Nat := term.atoms.length

def isHard (term : Term α) : Bool := term.weight.isHard

/-- The atoms with their coefficients. -/
def entries (term : Term α) : List (AtomId × α) := term.atoms.zip term.coefficients

/-- The numbers of the atoms that the linear form reads all lie below a size. -/
def readsBelow (term : Term α) (size : Nat) : Bool :=
  term.entries.all fun entry => entry.1.index < size

/-- A rule gets a new weight: the term takes it if the rule is its own. -/
def reweigh (rule : RuleId) (weight : Weight α) (term : Term α) : Term α :=
  if term.rule = rule then { term with weight } else term

variable [Scalar α]

/-- The greatest number of atoms that a record can hold. -/
def maxArity : Nat := 65535

def build (rule : RuleId) (shape : Shape) (weight : Weight α) (atoms : List AtomId)
    (coefficients : List α) (constant : α) : Except (TermFault α) (Term α) :=
  if atoms.isEmpty then .error .noAtoms
  else if atoms.length ≠ coefficients.length then
    .error (.ragged atoms.length coefficients.length)
  else if maxArity < atoms.length then .error (.tooManyAtoms atoms.length)
  else if !Scalar.isFinite constant || coefficients.any (!Scalar.isFinite ·) then
    .error .notFinite
  else match weight with
    | .hard => .ok ⟨rule, shape, .hard, constant, atoms, coefficients⟩
    | .soft value =>
        if Scalar.isNonnegative value then
          .ok ⟨rule, shape, .soft value, constant, atoms, coefficients⟩
        else .error (.weight value)

/-- The linear form at given atom values, summed from the constant on. -/
@[specialize] def raw (term : Term α) (valueOf : AtomId → α) : α :=
  term.entries.foldl (fun sum entry => sum + entry.2 * valueOf entry.1) term.constant

/-- The shaped linear form. -/
@[inline] def dissatisfaction (term : Term α) (valueOf : AtomId → α) : α :=
  term.shape.apply (term.raw valueOf)

/-- The weighted dissatisfaction. A constraint contributes nothing. -/
@[inline] def objective (term : Term α) (valueOf : AtomId → α) : α :=
  match term.weight with
  | .soft weight => weight * term.dissatisfaction valueOf
  | .hard => 0

/-- A hinged constraint holds when its linear form is at most the tolerance, a linear one when the
distance to zero is. -/
@[inline] def holdsWithin (term : Term α) (valueOf : AtomId → α) (tolerance : α) : Bool :=
  let raw := term.raw valueOf
  if term.shape.isHinged then raw ≤ tolerance else Scalar.absolute raw ≤ tolerance

/-- This factor times a coefficient is the derivative of the objective by that atom. -/
@[inline] def gradientScale (term : Term α) (raw : α) : α :=
  match term.weight with
  | .soft weight => weight * term.shape.slope raw
  | .hard => 0

end Term

/-- The values of an array, by atom. Atoms outside it read as zero. -/
@[inline] def valueAt {α : Type} [Zero α] (values : Array α) (atom : AtomId) : α :=
  values.getD atom.index 0

namespace Term

def text (term : Term Single) : String :=
  let parts := term.entries.map fun entry => entry.2.text ++ "*" ++ entry.1.label
  term.weight.text ++ " * " ++ term.shape.name ++ "(" ++ " + ".intercalate parts ++ " + " ++
    term.constant.text ++ ")"

end Term

end HingeLoss
