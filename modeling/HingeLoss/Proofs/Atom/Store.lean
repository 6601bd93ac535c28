import HingeLoss.Atom.Store
import HingeLoss.Proofs.Atom.Forest

/-! The partition of an atom store, seen through the root of each atom. -/

namespace HingeLoss

theorem AtomId.index_ofIndex {index : Nat} (inRange : index < UInt32.size) :
    (AtomId.ofIndex index).index = index := ForestNode.toNat_toUInt32 inRange

theorem AtomId.index_ofIndex_le (index : Nat) : (AtomId.ofIndex index).index ≤ index :=
  ForestNode.toNat_toUInt32_le index

theorem AtomId.index_lt_word (atom : AtomId) : atom.index < UInt32.size :=
  atom.number.toNat_lt_size

theorem AtomId.index_injective {first second : AtomId} (same : first.index = second.index) :
    first = second := by
  obtain ⟨first⟩ := first
  obtain ⟨second⟩ := second
  exact congrArg AtomId.mk (UInt32.toNat_inj.mp same)

namespace AtomStore

variable {α : Type} {atoms after : AtomStore α}

/-- The atom at the root of the set of an atom. -/
def root (atoms : AtomStore α) (atom : AtomId) : AtomId :=
  .ofIndex (atoms.partition.root atom.index)

/-- Whether an atom is there and not observed. -/
def isFree (atoms : AtomStore α) (atom : AtomId) : Bool :=
  match atoms.records[atom.index]? with
  | some record => !record.fixed
  | none => false

/-- Every atom is in a set of its own. -/
def Apart (atoms : AtomStore α) : Prop :=
  ∀ atom : AtomId, atoms.partition.parent atom.index = atom.index

theorem apart_of_singletons {count : Nat} (singletons : atoms.partition = .singletons count) :
    atoms.Apart := fun atom => by
  rw [singletons, Forest.parent_singletons count atom.index_lt_word]

/-- The root of an atom is an atom. -/
theorem index_root (atoms : AtomStore α) (atom : AtomId) :
    (atoms.root atom).index = atoms.partition.root atom.index :=
  AtomId.index_ofIndex (atoms.partition.root_lt_word atom.index_lt_word)

theorem root_root (atoms : AtomStore α) (atom : AtomId) :
    atoms.root (atoms.root atom) = atoms.root atom := by
  apply AtomId.index_injective
  rw [index_root, index_root, Forest.root_root]

theorem root_eq_iff (atoms : AtomStore α) (first second : AtomId) :
    atoms.root first = atoms.root second ↔
      atoms.partition.root first.index = atoms.partition.root second.index := by
  constructor
  · intro same
    rw [← index_root, same, index_root]
  · intro same
    rw [root, same, root]

theorem root_lt_size (atoms : AtomStore α) {atom : AtomId} (inRange : atom.index < atoms.size) :
    (atoms.root atom).index < atoms.size := by
  rw [index_root, size, ← atoms.sizesAgree]
  apply Forest.root_lt_size
  rw [atoms.sizesAgree]
  exact inRange

theorem isFree_congr (same : after.records = atoms.records) (atom : AtomId) :
    after.isFree atom = atoms.isFree atom := by
  rw [isFree, same, isFree]

theorem size_congr (same : after.records = atoms.records) : after.size = atoms.size := by
  rw [size, same, size]

theorem isFixed_eq (atoms : AtomStore α) {atom : AtomId} (inRange : atom.index < atoms.size) :
    atoms.isFixed atom = .ok (!atoms.isFree atom) := by
  have inside : atom.index < atoms.records.size := inRange
  have found := Array.getElem?_eq_getElem inside
  simp only [isFixed, lookup, isFree, found, Except.map, Bool.not_not]

/-- Finding answers with the root and changes neither records nor roots. -/
theorem find_ok {atom : AtomId} (inRange : atom.index < atoms.size) :
    ∃ after, atoms.find atom = .ok (atoms.root atom, after) ∧ after.records = atoms.records ∧
      ∀ other, after.root other = atoms.root other := by
  refine ⟨_, if_pos inRange, rfl, fun other => ?_⟩
  change AtomId.ofIndex ((atoms.partition.find atom.index).2.root other.index) = _
  rw [Forest.root_find]
  rfl

theorem inRange_of_find {atom root : AtomId} (found : atoms.find atom = .ok (root, after)) :
    atom.index < atoms.size := by
  unfold find at found
  split at found
  · assumption
  · cases found

theorem records_of_find {atom root : AtomId}
    (found : atoms.find atom = .ok (root, after)) : after.records = atoms.records := by
  unfold find at found
  split at found
  · cases found
    rfl
  · cases found

theorem records_of_union {first second root : AtomId}
    (united : atoms.union first second = .ok (root, after)) : after.records = atoms.records := by
  unfold union at united
  split at united
  · split at united
    · cases united
      rfl
    · cases united
  · cases united

/-- The root of an atom that is there is an atom that is there. -/
theorem find_inRange {atom : AtomId} (inRange : atom.index < atoms.size) :
    ∃ root after, atoms.find atom = .ok (root, after) ∧ after.records = atoms.records ∧
      root.index < atoms.size := by
  refine ⟨_, _, if_pos inRange, rfl, Nat.lt_of_le_of_lt (AtomId.index_ofIndex_le _) ?_⟩
  change atoms.partition.root atom.index < atoms.records.size
  rw [← atoms.sizesAgree]
  apply Forest.root_lt_size
  rw [atoms.sizesAgree]
  exact inRange

/-- The sets of two atoms that are there can become one. -/
theorem union_inRange {first second : AtomId} (firstInRange : first.index < atoms.size)
    (secondInRange : second.index < atoms.size) :
    ∃ merged after, atoms.union first second = .ok (merged, after) ∧
      after.records = atoms.records ∧ merged.index < atoms.size := by
  have firstInside : first.index < atoms.partition.size := atoms.sizesAgree ▸ firstInRange
  have secondInside : second.index < atoms.partition.size := atoms.sizesAgree ▸ secondInRange
  refine ⟨_, _, (if_pos firstInRange).trans (if_pos secondInRange), rfl,
    Nat.lt_of_le_of_lt (AtomId.index_ofIndex_le _) ?_⟩
  change (atoms.partition.union first.index second.index).1 < atoms.records.size
  rw [← atoms.sizesAgree]
  rcases (atoms.partition.root_union _ _ firstInside secondInside).1 with same | same
  · exact same ▸ Forest.root_lt_size _ firstInside
  · exact same ▸ Forest.root_lt_size _ secondInside

/-- A union answers with one of the two roots and moves both sets under it. -/
theorem union_ok (first second : AtomId) (firstInRange : first.index < atoms.size)
    (secondInRange : second.index < atoms.size) :
    ∃ merged after, atoms.union first second = .ok (merged, after) ∧
      after.records = atoms.records ∧
      (merged = atoms.root first ∨ merged = atoms.root second) ∧
      ∀ atom, after.root atom =
        if atoms.root atom = atoms.root first ∨ atoms.root atom = atoms.root second then merged
        else atoms.root atom := by
  obtain ⟨answer, roots⟩ := atoms.partition.root_union first.index second.index
    (by rw [atoms.sizesAgree]; exact firstInRange)
    (by rw [atoms.sizesAgree]; exact secondInRange)
  refine ⟨_, _, (if_pos firstInRange).trans (if_pos secondInRange), rfl, ?_, ?_⟩
  · rcases answer with same | same
    · exact .inl (congrArg AtomId.ofIndex same)
    · exact .inr (congrArg AtomId.ofIndex same)
  · intro atom
    change AtomId.ofIndex ((atoms.partition.union first.index second.index).2.root atom.index) = _
    simp only [roots, atoms.root_eq_iff]
    split
    · rfl
    · rfl

section

variable [Scalar α]

/-- Registration leaves all older atoms as they were. -/
theorem register_ok {record : AtomRecord α} {added : AtomId}
    (registered : atoms.register record = .ok (added, after)) :
    after.size = atoms.size + 1 ∧ (∀ atom, after.root atom = atoms.root atom) ∧
      ∀ atom, atom.index < atoms.size → after.isFree atom = atoms.isFree atom := by
  unfold register at registered
  split at registered
  · cases registered
    refine ⟨Array.size_push .., ?_, ?_⟩
    · intro atom
      simp only [root, atoms.partition.root_push atom.index_lt_word]
    · intro atom inRange
      simp only [isFree, Array.getElem?_push]
      have older : atom.index ≠ atoms.records.size := Nat.ne_of_lt inRange
      rw [if_neg older]
  · cases registered

/-- An assignment changes values alone. -/
theorem assign_ok {atom : AtomId} {value : α} (assigned : atoms.assign atom value = .ok after) :
    after.size = atoms.size ∧ after.partition = atoms.partition ∧
      ∀ other, after.isFree other = atoms.isFree other := by
  unfold assign at assigned
  split at assigned
  · cases assigned
  · split at assigned
    · cases assigned
    · split at assigned
      · cases assigned
        refine ⟨Array.size_modify, rfl, ?_⟩
        intro other
        simp only [isFree, Array.getElem?_modify]
        by_cases same : atom.index = other.index
        · rw [if_pos same]
          cases atoms.records[other.index]? <;> rfl
        · rw [if_neg same]
      · cases assigned

end

end AtomStore

end HingeLoss
