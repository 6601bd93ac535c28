import HingeLoss.Proofs.Consensus.Optimality
import HingeLoss.Proofs.Consensus.Convergence
import HingeLoss.Proofs.Descent.Projection

/-! Writing values back in exact arithmetic, where the atoms take them over as they are. -/

namespace HingeLoss

namespace AtomStore

/-- Values that a store takes over as they are. -/
structure Takes (atoms : AtomStore ℝ) (values : Array ℝ) : Prop where
  size : values.size = atoms.records.size
  inUnit : ∀ index, 0 ≤ values.getD index 0 ∧ values.getD index 0 ≤ 1
  observed : ConsensusState.AgreesOn atoms (valueAt values)
  unnamed : atoms.KeepsUnnamed values

variable {atoms : AtomStore ℝ} {values : Array ℝ}

theorem Takes.getElem?_eq (takes : atoms.Takes values) {index : Nat}
    (inside : index < atoms.records.size) : values[index]? = some (values.getD index 0) := by
  rw [Array.getD_eq_getD_getElem?, Array.getElem?_eq_getElem (takes.size ▸ inside),
    Option.getD_some]

/-- One atom takes over its value. -/
theorem Takes.writeBackAt_eq (takes : atoms.Takes values) {index : Nat}
    (inside : index < atoms.records.size) :
    ∃ after, atoms.writeBackAt values index = .ok after ∧ after.records =
      atoms.records.modify index fun record => { record with value := values.getD index 0 } := by
  have given := takes.getElem?_eq inside
  have found := Array.getElem?_eq_getElem inside
  generalize atoms.records[index] = record at found
  by_cases settled : record.value = values.getD index 0
  · refine ⟨atoms, ?_, Array.ext_getElem? fun other => ?_⟩
    · have same : Scalar.same record.value (values.getD index 0) = true := by
        rw [settled]
        simp [Scalar.same]
      simp only [writeBackAt, found, given, same, Bool.or_true, if_true]
    · rw [Array.getElem?_modify]
      split
      · rename_i here
        rw [← here, found, Option.map_some, ← settled]
      · rfl
  · have named : index < UInt32.size := by
      by_contra unnamed
      exact settled (takes.unnamed index (not_lt.mp unnamed) record _ found given)
    have index_ofIndex := AtomId.index_ofIndex named
    have free : record.fixed = false := by
      by_contra fixed
      have agreed := takes.observed (.ofIndex index) record (by rwa [index_ofIndex])
        (Bool.eq_true_of_not_eq_false fixed)
      rw [valueAt, index_ofIndex] at agreed
      exact settled agreed.symm
    have differs : Scalar.same record.value (values.getD index 0) = false := by
      simpa [Scalar.same] using fun below => lt_of_le_of_ne below settled
    have looked : atoms.lookup (.ofIndex index) = .ok record := by
      rw [lookup, index_ofIndex, found]
    have finite : Scalar.isFinite (values.getD index 0) = true := rfl
    simp only [writeBackAt, found, given, free, differs, assign, looked, finite, Bool.or_self,
      Bool.false_eq_true, if_false, if_true]
    refine ⟨_, rfl, ?_⟩
    dsimp only
    rw [index_ofIndex,
      Scalar.clampUnit_of_mem (takes.inUnit index).1 (takes.inUnit index).2]

/-- A store that has taken over one of the values still takes the others. -/
theorem Takes.after (takes : atoms.Takes values) {index : Nat} {after : AtomStore ℝ}
    (records : after.records =
      atoms.records.modify index fun record => { record with value := values.getD index 0 }) :
    after.Takes values where
  size := by rw [takes.size, records, Array.size_modify]
  inUnit := takes.inUnit
  observed atom record found fixed := by
    rw [records, Array.getElem?_modify] at found
    split at found
    · rename_i here
      obtain ⟨_, _, rfl⟩ := Option.map_eq_some_iff.mp found
      rw [here, valueAt]
    · exact takes.observed atom record found fixed
  unnamed other unnamed record value found given := by
    rw [records, Array.getElem?_modify] at found
    split at found
    · rename_i here
      obtain ⟨_, _, rfl⟩ := Option.map_eq_some_iff.mp found
      rw [here, Array.getD_eq_getD_getElem?, given, Option.getD_some]
    · exact takes.unnamed other unnamed record value found given

theorem Takes.writeBackFrom_eq (takes : atoms.Takes values) {indices : List Nat}
    (inside : ∀ index ∈ indices, index < atoms.records.size) :
    ∃ after, writeBackFrom values indices atoms = (.ok (), after) ∧
      after.records.size = atoms.records.size ∧ ∀ index, after.values.getD index 0 =
        if index ∈ indices then values.getD index 0 else atoms.values.getD index 0 := by
  induction indices generalizing atoms with
  | nil => exact ⟨atoms, rfl, rfl, fun index => by simp⟩
  | cons first rest inductionHypothesis =>
      rw [List.forall_mem_cons] at inside
      obtain ⟨between, written, records⟩ := takes.writeBackAt_eq inside.1
      have size : between.records.size = atoms.records.size := by rw [records, Array.size_modify]
      obtain ⟨after, writtenRest, sizeRest, settled⟩ :=
        inductionHypothesis (takes.after records) fun index member => size ▸ inside.2 index member
      refine ⟨after, ?_, sizeRest.trans size, fun index => ?_⟩
      · rw [writeBackFrom, written]
        exact writtenRest
      · rw [settled, getD_values, getD_values, records, Array.getElem?_modify]
        by_cases here : first = index
        · subst here
          simp [Array.getElem?_eq_getElem inside.1]
        · simp [here, Ne.symm here]

/-- A store that takes values takes over all of them. -/
theorem Takes.writeBack_eq (takes : atoms.Takes values) :
    ∃ after, atoms.writeBack values = (.ok (), after) ∧ after.values = values := by
  have inside : ∀ index ∈ List.range values.size, index < atoms.records.size :=
    fun index member => takes.size ▸ List.mem_range.mp member
  obtain ⟨after, written, size, settled⟩ := takes.writeBackFrom_eq inside
  have sameSize : after.values.size = values.size := by
    rw [AtomStore.values, Array.size_map, size, takes.size]
  refine ⟨after, written, Array.ext sameSize fun index inRange valueInRange => ?_⟩
  have here := settled index
  rw [if_pos (List.mem_range.mpr valueInRange)] at here
  simpa [Array.getD_eq_getD_getElem?, inRange, valueInRange] using here

end AtomStore

end HingeLoss
