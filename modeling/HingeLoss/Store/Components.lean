import Std.Data.TreeMap
import HingeLoss.Atom.Store
import HingeLoss.Term.Basic

/-! Connected components of terms, as buckets of numbers under root atoms. -/

namespace HingeLoss

/-- Terms are numbered densely in the order of their arrival. -/
abbrev TermId := Nat

structure ComponentIndex where
  buckets : Std.TreeMap AtomId (Array TermId)

namespace ComponentIndex

variable {α : Type}

def empty : ComponentIndex := ⟨∅⟩

instance : Inhabited ComponentIndex := ⟨empty⟩

def size (index : ComponentIndex) : Nat := index.buckets.size

def isEmpty (index : ComponentIndex) : Bool := index.buckets.isEmpty

def get? (index : ComponentIndex) (root : AtomId) : Option (Array TermId) := index.buckets[root]?

/-- The buckets by root atom. -/
def toList (index : ComponentIndex) : List (AtomId × List TermId) :=
  index.buckets.toList.map fun (root, ids) => (root, ids.toList)

/-- The number of terms in the largest component. -/
def largest (index : ComponentIndex) : Nat :=
  index.toList.foldl (fun most bucket => max most bucket.2.length) 0

/-- The components without their roots: sorted term numbers, and the components sorted too. -/
def canonical (index : ComponentIndex) : List (List TermId) :=
  (index.toList.map fun bucket => bucket.2.mergeSort).mergeSort fun left right =>
    !right.lex left

/-- A term number goes to the end of a bucket. -/
def file (index : ComponentIndex) (root : AtomId) (id : TermId) : ComponentIndex :=
  ⟨index.buckets.alter root fun ids => some ((ids.getD #[]).push id)⟩

/-- Two buckets become one. The numbers of the smaller follow those of the larger. -/
def merge (index : ComponentIndex) (first second merged : AtomId) : ComponentIndex :=
  let left := index.buckets.getD first #[]
  let right := index.buckets.getD second #[]
  let joined := if right.size ≤ left.size then left ++ right else right ++ left
  let rest := (index.buckets.erase first).erase second
  ⟨if joined.isEmpty then rest else rest.insert merged joined⟩

/-- The first free atom of a list. -/
def anchor (atoms : AtomStore α) : List AtomId → Except (AtomFault α) (Option AtomId)
  | [] => .ok none
  | atom :: rest =>
      match atoms.isFixed atom with
      | .error fault => .error fault
      | .ok true => anchor atoms rest
      | .ok false => .ok (some atom)

/-- Every free atom of a list joins the set and the bucket of a root. The answer is the root of what
has been joined. -/
def link (index : ComponentIndex) (atoms : AtomStore α) (root : AtomId) :
    List AtomId → Except (AtomFault α) AtomId × ComponentIndex × AtomStore α
  | [] => (.ok root, index, atoms)
  | atom :: rest =>
      match atoms.isFixed atom with
      | .error fault => (.error fault, index, atoms)
      | .ok true => link index atoms root rest
      | .ok false =>
          match atoms.find atom with
          | .error fault => (.error fault, index, atoms)
          | .ok (other, atoms) =>
              if other = root then link index atoms root rest
              else match atoms.union root other with
                | .error fault => (.error fault, index, atoms)
                | .ok (merged, atoms) =>
                    link (index.merge root other merged) atoms merged rest

/-- A term is filed under the component that its free atoms form. A term of observed atoms is filed
under the root of its first atom. -/
def insert (index : ComponentIndex) (id : TermId) (term : Term α) (atoms : AtomStore α) :
    Except (AtomFault α) AtomId × ComponentIndex × AtomStore α :=
  match anchor atoms term.atoms with
  | .error fault => (.error fault, index, atoms)
  | .ok none =>
      match term.atoms with
      | [] => (.error (.outOfRange 0 atoms.size), index, atoms)
      | first :: _ =>
          match atoms.find first with
          | .error fault => (.error fault, index, atoms)
          | .ok (root, atoms) => (.ok root, index.file root id, atoms)
  | .ok (some free) =>
      match atoms.find free with
      | .error fault => (.error fault, index, atoms)
      | .ok (root, atoms) => link (index.file root id) atoms root term.atoms

end ComponentIndex

end HingeLoss
