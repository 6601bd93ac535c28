import HingeLoss.Store.Fault

/-! Rules with the weights that learning may change, and the set that numbers them. -/

namespace HingeLoss

structure Rule (α : Type) where
  id : RuleId
  name : String
  weight : Weight α
  squared : Bool

/-- The rules by number. -/
structure RuleSet (α : Type) where
  rules : Array (Rule α)

namespace RuleSet

variable {α : Type}

def empty : RuleSet α := ⟨#[]⟩

def size (set : RuleSet α) : Nat := set.rules.size

def get (set : RuleSet α) (rule : RuleId) : Except (StoreFault α) (Rule α) :=
  match set.rules[rule.index]? with
  | some found => .ok found
  | none => .error (.unknownRule rule)

variable [Scalar α]

/-- A new rule takes the next number. -/
def register (set : RuleSet α) (name : String) (weight : Weight α) (squared : Bool) :
    Except (StoreFault α) (RuleId × RuleSet α) :=
  let id := RuleId.ofIndex set.size
  (weight.validate id).map fun _ => (id, ⟨set.rules.push ⟨id, name, weight, squared⟩⟩)

/-- The rule takes a valid weight. Stores that hold its terms are told on their own. -/
def setWeight (set : RuleSet α) (rule : RuleId) (weight : Weight α) :
    Except (StoreFault α) (RuleSet α) :=
  match weight.validate rule with
  | .error fault => .error fault
  | .ok _ =>
      if rule.index < set.size then
        .ok ⟨set.rules.modify rule.index fun found => { found with weight }⟩
      else .error (.unknownRule rule)

end RuleSet

/-- The term of a rule, or the fault under the rule's number. -/
def Rule.term {α : Type} [Scalar α] (rule : RuleId) (shape : Shape) (weight : Weight α)
    (atoms : List AtomId) (coefficients : List α) (constant : α) :
    Except (StoreFault α) (Term α) :=
  (Term.build rule shape weight atoms coefficients constant).mapError (.malformedTerm rule)

end HingeLoss
