import HingeLoss.Atom.Store
import HingeLoss.Term.Basic

/-! The local problem of one term over copies of its free atoms. -/

namespace HingeLoss

/-- The copy of an atom that belongs to one term. -/
structure Copy (α : Type) where
  atom : AtomId
  coefficient : α
  value : α
  price : α

structure LocalTerm (α : Type) where
  rule : RuleId
  shape : Shape
  weight : Weight α
  constant : α
  /-- The sum of the squared coefficients of the copies. -/
  normSquared : α
  copies : List (Copy α)

namespace LocalTerm

variable {α β : Type} [Scalar α]

/-- The constant with the observed atoms, summed in the order of the entries. -/
@[specialize] def foldedConstant (records : Array (AtomRecord α)) (constant : α)
    (entries : List (AtomId × α)) : α :=
  entries.foldl (fun sum (atom, coefficient) =>
    match records[atom.index]? with
    | some record => if record.fixed then sum + coefficient * record.value else sum
    | none => sum) constant

/-- The copies of the free atoms start at the values of the atoms, without a price. -/
@[specialize] def freeCopies (records : Array (AtomRecord α)) (entries : List (AtomId × α)) :
    List (Copy α) :=
  entries.filterMap fun (atom, coefficient) =>
    match records[atom.index]? with
    | some record => if record.fixed then none else some ⟨atom, coefficient, record.value, 0⟩
    | none => none

@[specialize] def ofTerm (records : Array (AtomRecord α)) (term : Term α) : LocalTerm α :=
  let copies := freeCopies records term.entries
  { rule := term.rule
    shape := term.shape
    weight := term.weight
    constant := foldedConstant records term.constant term.entries
    normSquared := copies.foldl (fun sum copy => sum + Scalar.square copy.coefficient) 0
    copies }

/-- The linear form when every copy takes a given value. -/
@[specialize] def rawAt (term : LocalTerm α) (valueOf : Copy α → α) : α :=
  term.copies.foldl (fun sum copy => sum + copy.coefficient * valueOf copy) term.constant

/-- The dissatisfaction at the values of the copies. -/
@[specialize] def dualDissatisfaction (term : LocalTerm α) : α :=
  term.shape.apply (term.rawAt Copy.value)

/-- The dissatisfaction at the values of the atoms. -/
@[specialize] def primalDissatisfaction (term : LocalTerm α) (values : Array α) : α :=
  term.shape.apply (term.rawAt fun copy => valueAt values copy.atom)

/-- The point from which a copy is pulled: the atom's value less its price over the penalty. -/
@[inline] def pull (values : Array α) (penalty : α) (copy : Copy α) : α :=
  valueAt values copy.atom - copy.price / penalty

/-- The multiple of the coefficients that leads from the pulling point to the minimum. -/
@[specialize] def stepLength (term : LocalTerm α) (penalty pulled : α) : α :=
  let project := if 0 < term.normSquared then pulled / term.normSquared else 0
  match term.weight with
  | .hard => if term.shape.isHinged && pulled ≤ 0 then 0 else project
  | .soft weight =>
      match term.shape with
      | .linear => weight / penalty
      | .hinge =>
          if pulled ≤ 0 then 0
          else if 0 ≤ pulled - weight / penalty * term.normSquared then weight / penalty
          else project
      | .squaredLinear => squaredStep term.normSquared weight penalty pulled
      | .squaredHinge =>
          if pulled ≤ 0 then 0 else squaredStep term.normSquared weight penalty pulled
where
  /-- The slope of a squared shape at its minimum, over the penalty. -/
  squaredStep (normSquared weight penalty pulled : α) : α :=
    Scalar.two * weight * (pulled / (1 + Scalar.two * weight * normSquared / penalty)) / penalty

/-- The copies move to the minimum of the weighted shape plus the penalty of their distance to the
pulling point. A hard term moves them to the nearest point that satisfies it. -/
@[specialize] def minimize (values : Array α) (penalty : α) (term : LocalTerm α) : LocalTerm α :=
  let pulled := term.rawAt (pull values penalty)
  let step := term.stepLength penalty pulled
  { term with
    copies := term.copies.map fun copy =>
      { copy with value := pull values penalty copy - step * copy.coefficient } }

/-- Every price rises by the penalty times the distance of its copy from the atom. -/
@[specialize] def raisePrices (values : Array α) (penalty : α) (term : LocalTerm α) : LocalTerm α :=
  { term with
    copies := term.copies.map fun copy =>
      { copy with price := copy.price + penalty * (copy.value - valueAt values copy.atom) } }

end LocalTerm

end HingeLoss
