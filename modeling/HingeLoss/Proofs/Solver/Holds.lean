import HingeLoss.Proofs.Descent.Evaluation
import HingeLoss.Proofs.Number.Same
import HingeLoss.Proofs.Solver.Failure

/-! After a write-back the atoms hold the values that were written, up to the sign of a zero. -/

namespace HingeLoss

open Scalar (SameNumber)

section Terms

variable {valueOf other : AtomId → Single}

theorem Term.sameNumber_raw (term : Term Single)
    (same : ∀ atom, SameNumber (valueOf atom) (other atom)) :
    SameNumber (term.raw valueOf) (term.raw other) :=
  List.foldl_rel (.refl term.constant) fun entry _ _ _ sums =>
    sums.add ((SameNumber.refl entry.2).mul (same entry.1))

theorem Term.sameNumber_objective (term : Term Single)
    (same : ∀ atom, SameNumber (valueOf atom) (other atom)) :
    SameNumber (term.objective valueOf) (term.objective other) := by
  unfold Term.objective
  split
  · exact (SameNumber.refl _).mul (Single.sameNumber_apply term.shape (term.sameNumber_raw same))
  · exact .refl 0

theorem Term.violated_congr (term : Term Single)
    (same : ∀ atom, SameNumber (valueOf atom) (other atom)) :
    term.violated valueOf = term.violated other := by
  have raw := term.sameNumber_raw same
  have absolute := Single.sameNumber_absolute raw
  simp only [Term.violated, Term.holdsWithin, Single.le_congr raw (.refl constraintTolerance),
    Single.le_congr absolute (.refl constraintTolerance)]

theorem sameNumber_totalObjective (terms : List (Term Single))
    (same : ∀ atom, SameNumber (valueOf atom) (other atom)) :
    SameNumber (totalObjective valueOf terms : Double) (totalObjective other terms) :=
  List.foldl_rel (.refl 0) fun term _ _ _ sums =>
    sums.add (Single.sameNumber_widen (term.sameNumber_objective same))

theorem violations_congr (terms : List (Term Single))
    (same : ∀ atom, SameNumber (valueOf atom) (other atom)) :
    violations valueOf terms = violations other terms :=
  List.countP_congr fun term _ => by rw [term.violated_congr same]

end Terms

/-- Clamping a value twice is clamping it once. -/
theorem clampUnit_clampUnit (value : Single) :
    Scalar.clampUnit (Scalar.clampUnit value) = Scalar.clampUnit value := by
  unfold Scalar.clampUnit
  split
  · decide
  · split
    · decide
    · rfl

theorem clampUnit_of_inUnit {value : Single} (unit : AtomStore.inUnit value = true) :
    Scalar.clampUnit value = value := by
  simp only [AtomStore.inUnit, Bool.and_eq_true, decide_eq_true_eq] at unit
  obtain ⟨⟨-, -, -, above⟩, -, -, below⟩ := unit
  rw [Scalar.clampUnit, if_neg fun negative => Int.not_lt.mpr above negative.2.2,
    if_neg fun large => Int.not_lt.mpr below large.2.2]

namespace AtomStore

variable {atoms between after : AtomStore Single} {values : Array Single}

/-- Values that a solver may have come to: one for each atom, all of them clamped, and those of
fixed atoms are the old ones. -/
structure Offers (atoms : AtomStore Single) (values : Array Single) : Prop where
  size : values.size = atoms.size
  evidence : ∀ (index : Nat) (record : AtomRecord Single), atoms.records[index]? = some record →
    record.fixed = true → values[index]? = some record.value
  clamped : ∀ value ∈ values, Scalar.clampUnit value = value

/-- The value of one atom is the same number as the value that stands at its place. -/
def HoldsAt (atoms : AtomStore Single) (values : Array Single) (index : Nat) : Prop :=
  ∀ record value, atoms.records[index]? = some record → values[index]? = some value →
    Scalar.same value record.value = true

/-- The values of all atoms are the same numbers as these. -/
structure Holds (atoms : AtomStore Single) (values : Array Single) : Prop where
  size : values.size = atoms.size
  same : ∀ index, atoms.HoldsAt values index

theorem Holds.valueAt (holds : atoms.Holds values) (atom : AtomId) :
    SameNumber (valueAt values atom) (valueAt atoms.values atom) := by
  have sizes : values.size = atoms.values.size := by
    rw [holds.size, AtomStore.values, Array.size_map, AtomStore.size]
  by_cases inside : atom.index < values.size
  · have registered : atom.index < atoms.records.size := Nat.lt_of_lt_of_eq inside holds.size
    have found : atoms.records[atom.index]? = some atoms.records[atom.index] :=
      Array.getElem?_eq_getElem registered
    have given : values[atom.index]? = some values[atom.index] := Array.getElem?_eq_getElem inside
    refine .inr ?_
    simpa [HingeLoss.valueAt, AtomStore.values, found, given] using holds.same _ _ _ found given
  · have outside : ¬ atom.index < atoms.values.size := sizes ▸ inside
    rw [HingeLoss.valueAt, HingeLoss.valueAt, Array.getD_eq_getD_getElem?,
      Array.getElem?_eq_none (Nat.le_of_not_lt inside), Array.getD_eq_getD_getElem?,
      Array.getElem?_eq_none (Nat.le_of_not_lt outside)]
    exact .refl 0

theorem same_comm {left right : Single} :
    Scalar.same left right = true → Scalar.same right left = true := by
  simp only [Scalar.same, Bool.and_eq_true, decide_eq_true_eq]
  exact And.symm

/-- A store holds its own values. -/
theorem Valid.holdsAt (valid : atoms.Valid) {index : Nat} {record : AtomRecord Single}
    (found : atoms.records[index]? = some record) (given : values[index]? = some record.value) :
    atoms.HoldsAt values index := by
  intro held value foundHeld givenValue
  rw [found, Option.some.injEq] at foundHeld
  rw [given, Option.some.injEq] at givenValue
  rw [← foundHeld, ← givenValue]
  exact same_self_of_inUnit (valid record (Array.mem_toList_iff.mpr (Array.mem_of_getElem? found)))

theorem isFinite_of_assign {atom : AtomId} {value : Single}
    (assigned : atoms.assign atom value = .ok after) : Scalar.isFinite value = true := by
  unfold assign at assigned
  split at assigned
  · cases assigned
  · split at assigned
    · cases assigned
    · split at assigned
      · assumption
      · cases assigned

/-- After the write-back of one value its atom holds it. -/
theorem writeBackAt_holdsAt (clamped : ∀ value ∈ values, Scalar.clampUnit value = value)
    {place : Nat} (addressed : place < UInt32.size)
    (evidence : ∀ record, atoms.records[place]? = some record → record.fixed = true →
      atoms.HoldsAt values place)
    (written : atoms.writeBackAt values place = .ok after) : after.HoldsAt values place := by
  unfold writeBackAt at written
  split at written
  · rename_i record value found given
    split at written
    · rename_i skipped
      cases written
      rw [Bool.or_eq_true] at skipped
      rcases skipped with fixed | same
      · exact evidence record found fixed
      · intro held other foundHeld givenOther
        rw [found, Option.some.injEq] at foundHeld
        rw [given, Option.some.injEq] at givenOther
        rw [← foundHeld, ← givenOther]
        exact same_comm same
    · intro held other foundHeld givenOther
      rw [(assign_cases written).2.2, AtomId.index_ofIndex addressed, Array.getElem?_modify,
        if_pos rfl, found, Option.map_some, Option.some.injEq] at foundHeld
      rw [given, Option.some.injEq] at givenOther
      have unchanged := clamped value (Array.mem_of_getElem? given)
      have unit := inUnit_clampUnit (isFinite_of_assign written)
      rw [unchanged] at unit
      rw [← foundHeld, ← givenOther, unchanged]
      exact same_self_of_inUnit unit
  · rename_i nothing
    cases written
    exact fun record value found given => absurd given (nothing _ _ found)

/-- What is held before a write-back of one value is held after it. -/
theorem writeBackAt_keeps_holdsAt (clamped : ∀ value ∈ values, Scalar.clampUnit value = value)
    {place : Nat} (addressed : place < UInt32.size)
    (written : atoms.writeBackAt values place = .ok after) {index : Nat}
    (here : atoms.HoldsAt values index) : after.HoldsAt values index := by
  by_cases same : place = index
  · exact same ▸ writeBackAt_holdsAt clamped addressed (fun _ _ _ => same ▸ here) written
  · have elsewhere : (AtomId.ofIndex place).index ≠ index := by
      rwa [AtomId.index_ofIndex addressed]
    intro record value found given
    rw [getElem?_writeBackAt_of_ne elsewhere written] at found
    exact here record value found given

/-- The atoms of a list of places hold the values after these have been written back there, and no
atom loses what it has held. -/
theorem writeBackFrom_holdsAt (clamped : ∀ value ∈ values, Scalar.clampUnit value = value)
    {indices : List Nat} (addressed : ∀ index ∈ indices, index < UInt32.size)
    (evidence : ∀ (index : Nat) (record : AtomRecord Single),
      atoms.records[index]? = some record → record.fixed = true → atoms.HoldsAt values index)
    (written : writeBackFrom values indices atoms = (.ok (), after)) {index : Nat}
    (here : index ∈ indices ∨ atoms.HoldsAt values index) : after.HoldsAt values index := by
  induction indices generalizing atoms with
  | nil =>
      cases written
      exact here.resolve_left List.not_mem_nil
  | cons place rest inductionHypothesis =>
      rw [List.forall_mem_cons] at addressed
      rw [writeBackFrom] at written
      split at written
      · cases written
      · rename_i between placeWritten
        have placed := writeBackAt_holdsAt clamped addressed.1 (evidence place) placeWritten
        have kept {other : Nat} : atoms.HoldsAt values other → between.HoldsAt values other :=
          writeBackAt_keeps_holdsAt clamped addressed.1 placeWritten
        refine inductionHypothesis addressed.2 (fun other record found fixed => ?_) written ?_
        · by_cases same : place = other
          · exact same ▸ placed
          · have elsewhere : (AtomId.ofIndex place).index ≠ other := by
              rwa [AtomId.index_ofIndex addressed.1]
            rw [getElem?_writeBackAt_of_ne elsewhere placeWritten] at found
            exact kept (evidence other record found fixed)
        · rcases here with member | held
          · rcases List.mem_cons.mp member with rfl | later
            · exact .inr placed
            · exact .inl later
          · exact .inr (kept held)

/-- After a write-back of values that a solver may have come to, the atoms hold these values. -/
theorem Offers.holds (offers : atoms.Offers values) (valid : atoms.Valid)
    (addressed : atoms.size ≤ UInt32.size)
    (written : atoms.writeBack values = (.ok (), after)) : after.Holds values where
  size := by
    have moved := writeBackFrom_movedBelow values values.size (List.range values.size)
      (fun _ member => List.mem_range.mp member) atoms
    rw [writeBack] at written
    rw [written] at moved
    rw [offers.size, moved.size]
  same index := by
    by_cases inside : index < values.size
    · refine writeBackFrom_holdsAt offers.clamped (fun place member => ?_)
        (fun place record found fixed => valid.holdsAt found (offers.evidence _ _ found fixed))
        written (.inl (List.mem_range.mpr inside))
      have small : values.size ≤ UInt32.size := offers.size ▸ addressed
      exact Nat.lt_of_lt_of_le (List.mem_range.mp member) small
    · intro record value found given
      rw [Array.getElem?_eq_none (Nat.le_of_not_lt inside)] at given
      cases given

end AtomStore

end HingeLoss
