import HingeLoss.Term.Basic

/-! The pages kept in memory between sweeps, the one used last first. -/

namespace HingeLoss

structure RecentPages where
  capacity : Nat
  pages : List (Nat × Array (Term Single))

namespace RecentPages

def ofCapacity (capacity : Nat) : RecentPages := ⟨capacity, []⟩

def terms? (recent : RecentPages) (page : Nat) : Option (Array (Term Single)) :=
  List.lookup page recent.pages

/-- A page is used: it stands first with its terms, and of the others there is only room for the
ones used most recently. -/
def use (recent : RecentPages) (page : Nat) (terms : Array (Term Single)) : RecentPages :=
  let others := recent.pages.filter fun held => held.1 ≠ page
  { recent with pages := ((page, terms) :: others).take recent.capacity }

/-- The terms of the page used last. -/
def current (recent : RecentPages) : Array (Term Single) :=
  match recent.pages with
  | [] => #[]
  | (_, terms) :: _ => terms

def reweigh (recent : RecentPages) (rule : RuleId) (weight : Weight Single) : RecentPages :=
  { recent with
    pages := recent.pages.map fun (page, terms) => (page, terms.map (Term.reweigh rule weight)) }

def clear (recent : RecentPages) : RecentPages := ofCapacity recent.capacity

end RecentPages

end HingeLoss
