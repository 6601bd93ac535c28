import HingeLoss.Decimal.Shortest

/-! Ground atoms: dense numbers, and records of a truth value and whether it was observed. -/

namespace HingeLoss

structure AtomId where
  number : UInt32
deriving DecidableEq, Hashable, Inhabited

namespace AtomId

def index (atom : AtomId) : Nat := atom.number.toNat

def ofIndex (index : Nat) : AtomId := ⟨index.toUInt32⟩

def label (atom : AtomId) : String := "atom:" ++ toString atom.index

instance : Ord AtomId := ⟨compareOn AtomId.number⟩

instance : Std.TransOrd AtomId := inferInstanceAs (Std.TransCmp (compareOn AtomId.number))

instance : Std.LawfulEqOrd AtomId where
  eq_of_compare := by
    intro left right same
    have equal : left.number = right.number := Std.LawfulEqOrd.eq_of_compare same
    cases left; cases right; simp_all

end AtomId

structure AtomRecord (α : Type) where
  value : α
  fixed : Bool
deriving DecidableEq, Inhabited

/-- The reasons for which an atom operation is refused. -/
inductive AtomFault (α : Type) where
  | outOfRange (index count : Nat)
  | invalidValue (index : Nat) (value : α)
  | fixed (index : Nat)
deriving DecidableEq

namespace AtomFault

def code {α : Type} : AtomFault α → String
  | outOfRange _ _ => "hlmrf::atom::out_of_range"
  | invalidValue _ _ => "hlmrf::atom::invalid_value"
  | fixed _ => "hlmrf::atom::fixed"

def message : AtomFault Single → String
  | outOfRange index count =>
      s!"atom index {index} out of range (store holds {count} atoms)"
  | invalidValue index value =>
      s!"atom value {value.text} for atom {index} is outside [0, 1]"
  | fixed index => s!"atom {index} is fixed (observed) and cannot be assigned"

def help {α : Type} : AtomFault α → String
  | outOfRange _ _ =>
      "A term or rule referenced an atom the atom store does not hold. " ++
        "Ground rules only against atoms that were registered first."
  | invalidValue _ _ =>
      "Atom truth values must be finite and lie in the closed unit interval."
  | fixed _ => "Only random-variable atoms are updated by inference."

end AtomFault

end HingeLoss
