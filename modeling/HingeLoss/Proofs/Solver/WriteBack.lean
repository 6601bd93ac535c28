import HingeLoss.Proofs.Atom.Change
import HingeLoss.Solver.Report

/-! A write-back changes no atom that the values leave alone. -/

namespace HingeLoss

namespace AtomStore

section

variable {α : Type} [Scalar α] {atoms after : AtomStore α}

/-- An assignment goes to a free atom and changes its value alone. -/
theorem assign_cases {atom : AtomId} {value : α} (assigned : atoms.assign atom value = .ok after) :
    (∃ record, atoms.records[atom.index]? = some record ∧ record.fixed = false) ∧
      after.partition = atoms.partition ∧
      after.records = atoms.records.modify atom.index fun record =>
        { record with value := Scalar.clampUnit value } := by
  unfold assign lookup at assigned
  cases found : atoms.records[atom.index]? with
  | none =>
      rw [found] at assigned
      cases assigned
  | some record =>
      rw [found] at assigned
      dsimp only at assigned
      split at assigned
      · cases assigned
      · rename_i free
        split at assigned
        · cases assigned
          exact ⟨⟨record, rfl, Bool.not_eq_true _ ▸ free⟩, rfl, rfl⟩
        · cases assigned

/-- One write-back does nothing, or it assigns a value that differs from that of the atom. -/
theorem writeBackAt_cases {values : Array α} {index : Nat}
    (written : atoms.writeBackAt values index = .ok after) :
    after = atoms ∨ ∃ record value, atoms.records[index]? = some record ∧
      values[index]? = some value ∧ Scalar.same record.value value = false ∧
      atoms.assign (.ofIndex index) value = .ok after := by
  unfold writeBackAt at written
  split at written
  · rename_i record value found given
    split at written
    · cases written
      exact .inl rfl
    · rename_i changed
      rw [Bool.or_eq_true, not_or, Bool.not_eq_true, Bool.not_eq_true] at changed
      exact .inr ⟨record, value, found, given, changed.2, written⟩
  · cases written
    exact .inl rfl

/-- One write-back changes no record but that of its atom. -/
theorem getElem?_writeBackAt_of_ne {values : Array α} {place index : Nat}
    (elsewhere : (AtomId.ofIndex place).index ≠ index)
    (written : atoms.writeBackAt values place = .ok after) :
    after.records[index]? = atoms.records[index]? := by
  obtain rfl | ⟨-, value, -, -, -, assigned⟩ := writeBackAt_cases written
  · rfl
  · rw [(assign_cases assigned).2.2, Array.getElem?_modify, if_neg elsewhere]

/-- Where two stores have the same record and take the same value, they do the same. -/
theorem writeBackAt_alike {values others : Array α} {place : Nat} {rivals rivalsAfter : AtomStore α}
    (same : atoms.records[place]? = rivals.records[place]?)
    (sameValues : values[place]? = others[place]?)
    (written : atoms.writeBackAt values place = .ok after)
    (rivalsWritten : rivals.writeBackAt others place = .ok rivalsAfter) :
    (after = atoms ∧ rivalsAfter = rivals) ∨
      ∃ value, atoms.assign (.ofIndex place) value = .ok after ∧
        rivals.assign (.ofIndex place) value = .ok rivalsAfter := by
  unfold writeBackAt at written rivalsWritten
  rw [← same, ← sameValues] at rivalsWritten
  split at written
  · rename_i record value found given
    rw [found, given] at rivalsWritten
    dsimp only at rivalsWritten
    split at written
    · rename_i skipped
      rw [if_pos skipped] at rivalsWritten
      cases written
      cases rivalsWritten
      exact .inl ⟨rfl, rfl⟩
    · rename_i changed
      rw [if_neg changed] at rivalsWritten
      exact .inr ⟨value, written, rivalsWritten⟩
  · rename_i nothing
    split at rivalsWritten
    · rename_i found given
      exact absurd given (nothing _ _ found)
    · cases written
      cases rivalsWritten
      exact .inl ⟨rfl, rfl⟩

/-- Stores with the same records inside are written alike there, if the values agree. -/
theorem writeBackFrom_alike {inside : Nat → Prop}
    (named : ∀ index, inside (AtomId.ofIndex index).index → inside index) {values others : Array α}
    (sameValues : ∀ index, inside index → values[index]? = others[index]?) (indices : List Nat)
    {rivals rivalsAfter : AtomStore α}
    (same : ∀ index, inside index → atoms.records[index]? = rivals.records[index]?)
    (written : writeBackFrom values indices atoms = (.ok (), after))
    (rivalsWritten : writeBackFrom others indices rivals = (.ok (), rivalsAfter)) :
    ∀ index, inside index → after.records[index]? = rivalsAfter.records[index]? := by
  induction indices generalizing atoms rivals with
  | nil =>
      cases written
      cases rivalsWritten
      exact same
  | cons place rest inductionHypothesis =>
      rw [writeBackFrom] at written rivalsWritten
      split at written
      · cases written
      · rename_i between here
        split at rivalsWritten
        · cases rivalsWritten
        · rename_i rivalsBetween rivalsHere
          refine inductionHypothesis (fun index within => ?_) written rivalsWritten
          by_cases placed : inside place
          · rcases writeBackAt_alike (same place placed) (sameValues place placed) here rivalsHere
              with ⟨rfl, rfl⟩ | ⟨value, assigned, rivalsAssigned⟩
            · exact same index within
            · rw [(assign_cases assigned).2.2, (assign_cases rivalsAssigned).2.2,
                Array.getElem?_modify, Array.getElem?_modify, same index within]
          · -- What happens at this place stays outside.
            have elsewhere : (AtomId.ofIndex place).index ≠ index := by
              rintro rfl
              exact placed (named place within)
            rw [getElem?_writeBackAt_of_ne elsewhere here,
              getElem?_writeBackAt_of_ne elsewhere rivalsHere, same index within]

end

section

variable {α : Type} {touched : AtomId → Prop} {before between after : AtomStore α}

/-- Only values of free atoms that were touched have changed. -/
structure MovedOnly (touched : AtomId → Prop) (before after : AtomStore α) : Prop where
  partition : after.partition = before.partition
  flags : ∀ index : Nat, after.records[index]?.map AtomRecord.fixed =
    before.records[index]?.map AtomRecord.fixed
  kept : ∀ (index : Nat) (record : AtomRecord α), before.records[index]? = some record →
    (record.fixed = true ∨ ∀ atom, touched atom → atom.index ≠ index) →
    after.records[index]? = some record

theorem MovedOnly.refl (touched : AtomId → Prop) (atoms : AtomStore α) :
    MovedOnly touched atoms atoms :=
  ⟨rfl, fun _ => rfl, fun _ _ found _ => found⟩

theorem MovedOnly.trans (first : MovedOnly touched before between)
    (second : MovedOnly touched between after) : MovedOnly touched before after where
  partition := second.partition.trans first.partition
  flags index := (second.flags index).trans (first.flags index)
  kept index record found still :=
    second.kept index record (first.kept index record found still) still

theorem MovedOnly.mono {further : AtomId → Prop} (moved : MovedOnly touched before after)
    (more : ∀ atom, touched atom → further atom) : MovedOnly further before after where
  partition := moved.partition
  flags := moved.flags
  kept index record found still :=
    moved.kept index record found
      (still.imp_right fun apart atom touch => apart atom (more _ touch))

/-- An atom that is not touched has the record that it had. -/
theorem MovedOnly.found_before (moved : MovedOnly touched before after) {index : Nat}
    {record : AtomRecord α} (apart : ∀ atom, touched atom → atom.index ≠ index)
    (found : after.records[index]? = some record) : before.records[index]? = some record := by
  have flags := moved.flags index
  cases older : before.records[index]? with
  | none =>
      rw [older, found] at flags
      cases flags
  | some held => rw [← moved.kept index held older (.inr apart), found]

theorem movedOnly_of_assign [Scalar α] {atom : AtomId} {value : α} (touch : touched atom)
    (assigned : before.assign atom value = .ok after) : MovedOnly touched before after := by
  obtain ⟨⟨record, found, free⟩, partition, records⟩ := assign_cases assigned
  refine ⟨partition, fun index => ?_, fun index held foundHeld still => ?_⟩
  · rw [records, Array.getElem?_modify]
    split <;> simp [Option.map_map, Function.comp_def]
  · rw [records, Array.getElem?_modify, if_neg, foundHeld]
    rintro rfl
    rcases still with fixed | apart
    · rw [found, Option.some.injEq] at foundHeld
      rw [foundHeld, fixed] at free
      cases free
    · exact apart atom touch rfl

end

variable {touched : AtomId → Prop} {before atoms after : AtomStore Single} {values : Array Single}

/-- A number of the unit interval is the same as itself. -/
theorem same_self_of_inUnit {value : Single} (unit : inUnit value = true) :
    Scalar.same value value = true := by
  simp only [inUnit, Bool.and_eq_true, decide_eq_true_eq] at unit
  have number : value.isNaN = false := unit.1.2.2.1
  have reflexive : value ≤ value := ⟨number, number, Int.le_refl _⟩
  simp [Scalar.same, reflexive]

/-- What a write-back of one value keeps, in a store that a write-back of the values has led to. -/
theorem writeBackAt_keeps (valid : atoms.Valid) (moved : MovedOnly touched before atoms)
    (settled : ∀ index, (∀ atom, touched atom → atom.index ≠ index) →
      values[index]? = before.values[index]?)
    {index : Nat} (written : atoms.writeBackAt values index = .ok after) :
    after.Valid ∧ MovedOnly touched before after := by
  obtain rfl | ⟨record, value, found, given, differs, assigned⟩ := writeBackAt_cases written
  · exact ⟨valid, moved⟩
  · -- At an atom that is not touched the value would be the same as that of the record.
    have touch : ∃ atom, touched atom ∧ atom.index = index := by
      refine Classical.byContradiction fun none => ?_
      have apart (atom : AtomId) (touch : touched atom) : atom.index ≠ index :=
        fun here => none ⟨atom, touch, here⟩
      have same := settled index apart
      rw [given, AtomStore.values, Array.getElem?_map, moved.found_before apart found,
        Option.map_some, Option.some.injEq] at same
      rw [same, same_self_of_inUnit (valid record (Array.mem_toList_iff.mpr
        (Array.mem_of_getElem? found)))] at differs
      cases differs
    obtain ⟨atom, touch, rfl⟩ := touch
    rw [AtomId.ofIndex, AtomId.index, Nat.toUInt32_eq, UInt32.ofNat_toNat] at assigned
    refine ⟨?_, moved.trans (movedOnly_of_assign touch assigned)⟩
    have changed : atoms.change (.assign atom value) = after := by
      rw [change, assigned]
    exact changed ▸ valid.change _

/-- A write-back keeps a store valid and changes no atom that the values leave alone, also if it
stops at a fault. -/
theorem writeBackFrom_keeps (valid : atoms.Valid) (moved : MovedOnly touched before atoms)
    (settled : ∀ index, (∀ atom, touched atom → atom.index ≠ index) →
      values[index]? = before.values[index]?) (indices : List Nat) :
    (writeBackFrom values indices atoms).2.Valid ∧
      MovedOnly touched before (writeBackFrom values indices atoms).2 := by
  induction indices generalizing atoms with
  | nil => exact ⟨valid, moved⟩
  | cons index rest inductionHypothesis =>
      rw [writeBackFrom]
      split
      · exact ⟨valid, moved⟩
      · rename_i between written
        obtain ⟨stillValid, stillMoved⟩ := writeBackAt_keeps valid moved settled written
        exact inductionHypothesis stillValid stillMoved

theorem writeBack_keeps (valid : atoms.Valid)
    (settled : ∀ index, (∀ atom, touched atom → atom.index ≠ index) →
      values[index]? = atoms.values[index]?) :
    (atoms.writeBack values).2.Valid ∧ MovedOnly touched atoms (atoms.writeBack values).2 :=
  writeBackFrom_keeps valid (.refl touched atoms) settled _

end AtomStore

end HingeLoss
