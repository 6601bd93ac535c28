import HingeLoss.Proofs.Consensus.Iteration

/-! The beginning of a run: accepted terms become sound local terms over the free atoms. -/

namespace HingeLoss

namespace AtomStore

/-- The atom stores that their operations lead to. -/
inductive Built : AtomStore ℝ → Prop where
  | empty : Built empty
  | register {atoms after : AtomStore ℝ} {record : AtomRecord ℝ} {added : AtomId}
      (built : Built atoms) (registered : atoms.register record = .ok (added, after)) : Built after
  | assign {atoms after : AtomStore ℝ} {atom : AtomId} {value : ℝ} (built : Built atoms)
      (assigned : atoms.assign atom value = .ok after) : Built after
  | find {atoms after : AtomStore ℝ} {atom root : AtomId} (built : Built atoms)
      (found : atoms.find atom = .ok (root, after)) : Built after
  | union {atoms after : AtomStore ℝ} {first second root : AtomId} (built : Built atoms)
      (united : atoms.union first second = .ok (root, after)) : Built after
  | reset {atoms : AtomStore ℝ} (built : Built atoms) : Built atoms.resetPartition

/-- All values are in the unit interval. -/
def InUnit (atoms : AtomStore ℝ) : Prop :=
  ∀ record ∈ atoms.records, 0 ≤ record.value ∧ record.value ≤ 1

theorem register_inUnit {atoms after : AtomStore ℝ} {record : AtomRecord ℝ} {added : AtomId}
    (unit : atoms.InUnit) (registered : atoms.register record = .ok (added, after)) :
    after.InUnit := by
  unfold register at registered
  split at registered
  · rename_i accepted
    cases registered
    intro other member
    rcases Array.mem_push.mp member with old | rfl
    · exact unit other old
    · simpa [inUnit, Scalar.isFinite] using accepted
  · cases registered

theorem clampUnit_inUnit (value : ℝ) :
    0 ≤ Scalar.clampUnit value ∧ Scalar.clampUnit value ≤ 1 := by
  rw [Scalar.clampUnit_eq]
  exact ⟨le_max_left _ _, max_le zero_le_one (min_le_left _ _)⟩

theorem assign_inUnit {atoms after : AtomStore ℝ} {atom : AtomId} {value : ℝ}
    (unit : atoms.InUnit) (assigned : atoms.assign atom value = .ok after) : after.InUnit := by
  unfold assign at assigned
  split at assigned
  · cases assigned
  · split at assigned
    · cases assigned
    · split at assigned
      · cases assigned
        intro other member
        obtain ⟨index, inRange, rfl⟩ := Array.mem_iff_getElem.mp member
        rw [Array.getElem_modify]
        split
        · exact clampUnit_inUnit value
        · exact unit _ (Array.getElem_mem _)
      · cases assigned

/-- No operation brings a value from outside the unit interval into a store. -/
theorem Built.inUnit {atoms : AtomStore ℝ} (built : Built atoms) : atoms.InUnit := by
  induction built with
  | empty => exact fun _ member => absurd member (Array.not_mem_empty _)
  | register _ registered inductionHypothesis =>
      exact register_inUnit inductionHypothesis registered
  | assign _ assigned inductionHypothesis => exact assign_inUnit inductionHypothesis assigned
  | find _ found inductionHypothesis =>
      rw [InUnit, records_of_find found]
      exact inductionHypothesis
  | union _ united inductionHypothesis =>
      rw [InUnit, records_of_union united]
      exact inductionHypothesis
  | reset _ inductionHypothesis => exact inductionHypothesis

/-- A store takes every record of the unit interval. -/
theorem Built.push {atoms : AtomStore ℝ} (built : Built atoms) {record : AtomRecord ℝ}
    (inside : 0 ≤ record.value ∧ record.value ≤ 1) :
    Built ⟨atoms.records.push record, atoms.partition.push, by
      rw [Forest.size_push, atoms.sizesAgree, Array.size_push]⟩ := by
  have accepted : AtomStore.inUnit record.value = true := by
    simp [AtomStore.inUnit, Scalar.isFinite, inside]
  exact built.register (if_pos accepted)

theorem getD_values (atoms : AtomStore ℝ) (index : Nat) :
    atoms.values.getD index 0 = (atoms.records[index]?.map AtomRecord.value).getD 0 := by
  rw [values, Array.getD_eq_getD_getElem?, Array.getElem?_map]

theorem InUnit.values {atoms : AtomStore ℝ} (unit : atoms.InUnit) (index : Nat) :
    0 ≤ atoms.values.getD index 0 ∧ atoms.values.getD index 0 ≤ 1 := by
  rw [getD_values]
  cases found : atoms.records[index]? with
  | none => exact ⟨le_refl _, zero_le_one⟩
  | some record => exact unit record (Array.mem_of_getElem? found)

end AtomStore

/-- A term that was accepted when it was built. -/
def Term.Accepted (term : Term ℝ) : Prop :=
  Term.build term.rule term.shape term.weight term.atoms term.coefficients term.constant = .ok term

theorem Term.Accepted.nonnegative {term : Term ℝ} (accepted : term.Accepted) :
    term.weight.Nonnegative := by
  intro value soft
  unfold Accepted Term.build at accepted
  rw [soft] at accepted
  by_contra negative
  have refused : Scalar.isNonnegative value = false := by
    simpa [Scalar.isNonnegative, Scalar.isFinite] using negative
  repeat' split at accepted
  all_goals simp_all

namespace LocalTerm

theorem mem_freeCopies {records : Array (AtomRecord ℝ)} {entries : List (AtomId × ℝ)}
    {copy : Copy ℝ} (member : copy ∈ freeCopies records entries) :
    copy.price = 0 ∧ ∃ record, records[copy.atom.index]? = some record ∧ record.fixed = false := by
  obtain ⟨⟨atom, coefficient⟩, -, made⟩ := List.mem_filterMap.mp member
  dsimp only at made
  split at made
  · rename_i record found
    split at made
    · cases made
    · rename_i notFixed
      cases made
      exact ⟨rfl, record, found, by simpa using notFixed⟩
  · cases made

theorem sound_ofTerm (records : Array (AtomRecord ℝ)) {term : Term ℝ} (accepted : term.Accepted) :
    (ofTerm records term).Sound where
  nonnegative := accepted.nonnegative
  norm := by
    refine (foldl_add_eq (fun copy : Copy ℝ => Scalar.square copy.coefficient) _ 0).trans ?_
    simp only [zero_add, Scalar.square_eq]
    rfl

theorem foldedConstant_add (records : Array (AtomRecord ℝ)) (constant more : ℝ)
    (entries : List (AtomId × ℝ)) :
    foldedConstant records (constant + more) entries =
      foldedConstant records constant entries + more := by
  unfold foldedConstant
  induction entries generalizing constant with
  | nil => rfl
  | cons entry later inductionHypothesis =>
      obtain ⟨atom, coefficient⟩ := entry
      rw [List.foldl_cons, List.foldl_cons, ← inductionHypothesis]
      congr 1
      dsimp only
      cases records[atom.index]? with
      | none => rfl
      | some record =>
          by_cases fixed : record.fixed = true
          · simp only [if_pos fixed]
            exact add_right_comm constant more _
          · simp only [if_neg fixed]

/-- The local linear form is that of the term, for values that agree on the observed atoms. -/
theorem rawAt_ofTerm {records : Array (AtomRecord ℝ)} {term : Term ℝ} {valueOf : AtomId → ℝ}
    (inRange : ∀ atom ∈ term.atoms, atom.index < records.size)
    (agrees : ∀ (atom : AtomId) record, records[atom.index]? = some record → record.fixed = true →
      valueOf atom = record.value) :
    ((ofTerm records term).rawAt fun copy => valueOf copy.atom) = term.raw valueOf := by
  rw [rawAt_eq]
  change foldedConstant records term.constant term.entries +
    ((freeCopies records term.entries).map _).sum = _
  have entriesInRange : ∀ entry ∈ term.entries, entry.1.index < records.size :=
    fun entry member => inRange _ (List.of_mem_zip member).1
  unfold Term.raw
  generalize term.constant = constant
  generalize term.entries = entries at entriesInRange
  induction entries generalizing constant with
  | nil => simp [foldedConstant, freeCopies]
  | cons entry later inductionHypothesis =>
      obtain ⟨atom, coefficient⟩ := entry
      rw [List.forall_mem_cons] at entriesInRange
      obtain ⟨record, found⟩ : ∃ record, records[atom.index]? = some record :=
        ⟨_, Array.getElem?_eq_getElem entriesInRange.1⟩
      rw [List.foldl_cons, ← inductionHypothesis _ entriesInRange.2]
      by_cases fixed : record.fixed = true
      · have sameConstant : foldedConstant records constant ((atom, coefficient) :: later) =
            foldedConstant records (constant + coefficient * valueOf atom) later := by
          rw [agrees atom _ found fixed, foldedConstant, List.foldl_cons]
          simp only [found, fixed, if_true]
          rfl
        have sameCopies : freeCopies records ((atom, coefficient) :: later) =
            freeCopies records later := by
          simp [freeCopies, found, fixed]
        rw [sameConstant, sameCopies]
      · have sameConstant : foldedConstant records constant ((atom, coefficient) :: later) =
            foldedConstant records constant later := by
          rw [foldedConstant, List.foldl_cons]
          simp only [found, fixed, Bool.false_eq_true, if_false]
          rfl
        have moreCopies : freeCopies records ((atom, coefficient) :: later) =
            ⟨atom, coefficient, record.value, 0⟩ :: freeCopies records later := by
          simp [freeCopies, found, fixed]
        rw [sameConstant, moreCopies, List.map_cons, List.sum_cons, foldedConstant_add]
        ring

end LocalTerm

namespace ConsensusState

open ConsensusSolver (start)

theorem copiesOf_start (terms : List (Term ℝ)) (atoms : AtomStore ℝ) :
    copiesOf (start terms atoms).terms =
      terms.flatMap fun term => LocalTerm.freeCopies atoms.records term.entries := by
  simp only [copiesOf, start, List.flatMap_map]
  rfl

/-- Every copy of a beginning belongs to a free atom and has no price. -/
theorem mem_copiesOf_start {terms : List (Term ℝ)} {atoms : AtomStore ℝ} {copy : Copy ℝ}
    (member : copy ∈ copiesOf (start terms atoms).terms) :
    copy.price = 0 ∧ ∃ record, atoms.records[copy.atom.index]? = some record ∧
      record.fixed = false := by
  rw [copiesOf_start] at member
  obtain ⟨term, -, copyMember⟩ := List.mem_flatMap.mp member
  exact LocalTerm.mem_freeCopies copyMember

/-- Observed atoms have no copies. -/
theorem copiesAt_start_of_fixed (terms : List (Term ℝ)) {atoms : AtomStore ℝ} {index : Nat}
    {record : AtomRecord ℝ} (found : atoms.records[index]? = some record)
    (fixed : record.fixed = true) : copiesAt (start terms atoms).terms index = [] := by
  refine List.filter_eq_nil_iff.mpr fun copy member here => ?_
  obtain ⟨-, other, otherFound, free⟩ := mem_copiesOf_start member
  rw [of_decide_eq_true here, found, Option.some.injEq] at otherFound
  rw [← otherFound, fixed] at free
  cases free

/-- A run can begin with accepted terms over a store of the unit interval. -/
theorem initial_start {terms : List (Term ℝ)} {atoms : AtomStore ℝ} {plan : Plan ℝ ℝ}
    (accepted : ∀ term ∈ terms, term.Accepted) (unit : atoms.InUnit)
    (counts : plan.counts = (start terms atoms).copyCounts) :
    Initial plan (start terms atoms) where
  sound term member := by
    obtain ⟨origin, originMember, rfl⟩ := List.mem_map.mp member
    exact LocalTerm.sound_ofTerm atoms.records (accepted origin originMember)
  inRange atom member := by
    obtain ⟨copy, copyMember, rfl⟩ := List.mem_map.mp member
    obtain ⟨-, record, found, -⟩ := mem_copiesOf_start copyMember
    have inside := (Array.getElem?_eq_some_iff.mp found).1
    simpa [start, AtomStore.values] using inside
  counted index inRange := by
    rw [counts]
    exact getD_copyCounts _ inRange
  inUnit := unit.values
  free copy member := (mem_copiesOf_start member).1

/-- A free atom of the value zero and an observed atom of the value one. -/
noncomputable def sampleAtoms : AtomStore ℝ where
  records := #[⟨0, false⟩, ⟨1, true⟩]
  partition := Forest.empty.push.push
  sizesAgree := by rw [Forest.size_push, Forest.size_push]; rfl

theorem sampleAtoms_built : sampleAtoms.Built :=
  (AtomStore.Built.empty.push ⟨le_refl 0, zero_le_one⟩).push ⟨zero_le_one, le_refl 1⟩

/-- The free atom should not exceed the observed one. -/
noncomputable def sampleTerm : Term ℝ := ⟨⟨0⟩, .hinge, .soft 1, 0, [⟨0⟩, ⟨1⟩], [1, -1]⟩

theorem sampleTerm_accepted : ∀ term ∈ [sampleTerm], term.Accepted := by
  simp [Term.Accepted, Term.build, sampleTerm, Term.maxArity, Scalar.isFinite, Scalar.isNonnegative]

theorem sampleTerm_held :
    ∀ term ∈ [sampleTerm], ∀ atom ∈ term.atoms, atom.index < sampleAtoms.size := by
  simp [sampleTerm, sampleAtoms, AtomStore.size, AtomId.index]

/-- The free atom should be one. -/
noncomputable def unitTerm : Term ℝ := ⟨⟨0⟩, .squaredLinear, .soft 1, -1, [⟨0⟩], [1]⟩

theorem unitTerm_accepted : unitTerm.Accepted := by
  simp [Term.Accepted, Term.build, unitTerm, Term.maxArity, Scalar.isFinite, Scalar.isNonnegative]

theorem unitTerm_held : ∀ atom ∈ unitTerm.atoms, atom.index < sampleAtoms.size := by
  simp [unitTerm, sampleAtoms, AtomStore.size, AtomId.index]

theorem ofTerm_unitTerm : LocalTerm.ofTerm sampleAtoms.records unitTerm =
    ⟨⟨0⟩, .squaredLinear, .soft 1, -1, 1, [⟨⟨0⟩, 1, 0, 0⟩]⟩ := by
  simp [LocalTerm.ofTerm, unitTerm, sampleAtoms, Term.entries, LocalTerm.freeCopies,
    LocalTerm.foldedConstant, AtomId.index, Scalar.square]

/-- From zero and with a penalty of one, the free atom goes two thirds of the way to one. -/
theorem minimize_unitTerm :
    (LocalTerm.ofTerm sampleAtoms.records unitTerm).minimize #[0, 1] 1 =
      ⟨⟨0⟩, .squaredLinear, .soft 1, -1, 1, [⟨⟨0⟩, 1, 2 / 3, 0⟩]⟩ := by
  rw [ofTerm_unitTerm]
  norm_num [LocalTerm.minimize, LocalTerm.rawAt, LocalTerm.pull, LocalTerm.stepLength, valueAt,
    AtomId.index, LocalTerm.stepLength.squaredStep, Scalar.two_eq]

theorem start_unitTerm : start [unitTerm] sampleAtoms =
    ⟨[⟨⟨0⟩, .squaredLinear, .soft 1, -1, 1, [⟨⟨0⟩, 1, 0, 0⟩]⟩], #[0, 1]⟩ :=
  congrArg₂ ConsensusState.mk (congrArg (fun term => [term]) ofTerm_unitTerm) (by
    simp [sampleAtoms, AtomStore.values])

theorem minimized_unitTerm : (start [unitTerm] sampleAtoms).terms.map
    (LocalTerm.minimize (start [unitTerm] sampleAtoms).values 1) =
      [⟨⟨0⟩, .squaredLinear, .soft 1, -1, 1, [⟨⟨0⟩, 1, 2 / 3, 0⟩]⟩] := by
  rw [start_unitTerm, ← ofTerm_unitTerm, ← minimize_unitTerm]
  rfl

end ConsensusState

end HingeLoss
