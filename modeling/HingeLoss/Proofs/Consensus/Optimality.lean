import HingeLoss.Proofs.Consensus.Start

/-! An iteration that leaves no residual has found a global optimum. -/

namespace HingeLoss

theorem Term.objective_eq (term : Term ℝ) (valueOf : AtomId → ℝ) :
    term.objective valueOf = term.weight.cost term.shape (term.raw valueOf) := by
  unfold Term.objective Weight.cost
  cases term.weight <;> rfl

/-- Whether values of the atoms satisfy a term, if it is a constraint, without any slack. -/
def Term.Satisfied (term : Term ℝ) (valueOf : AtomId → ℝ) : Prop :=
  term.isHard = true → term.holdsWithin valueOf 0 = true

theorem Term.satisfied_iff (term : Term ℝ) (valueOf : AtomId → ℝ) :
    term.Satisfied valueOf ↔ term.weight.Admits term.shape (term.raw valueOf) := by
  have absolute : Scalar.absolute (term.raw valueOf) ≤ 0 ↔ term.raw valueOf = 0 := by
    rw [Scalar.absolute_eq]
    exact abs_nonpos_iff
  unfold Satisfied holdsWithin Weight.Admits Term.isHard
  cases term.weight with
  | soft value => exact iff_of_true nofun nofun
  | hard => cases term.shape <;> simp [Weight.isHard, Shape.isHinged, absolute]

/-- Copies that agree with their atoms give the linear form at the atoms. -/
theorem LocalTerm.rawAt_of_agreed {term : LocalTerm ℝ} {valueOf : AtomId → ℝ}
    (agreed : ∀ copy ∈ term.copies, copy.value = valueOf copy.atom) :
    term.rawAt Copy.value = term.rawAt fun copy => valueOf copy.atom := by
  rw [rawAt_eq, rawAt_eq]
  congr 2
  exact List.map_congr_left fun copy member => by rw [agreed copy member]

namespace ConsensusState

open ConsensusSolver (start)

variable {terms : List (Term ℝ)} {atoms : AtomStore ℝ} {valueOf : AtomId → ℝ}

/-- Whether values of the atoms are those of the store wherever it was observed. -/
def AgreesOn (atoms : AtomStore ℝ) (valueOf : AtomId → ℝ) : Prop :=
  ∀ (atom : AtomId) record, atoms.records[atom.index]? = some record → record.fixed = true →
    valueOf atom = record.value

/-- At values that agree on the observed atoms, local terms cost what their terms cost. -/
theorem sum_costAt_start (held : ∀ term ∈ terms, ∀ atom ∈ term.atoms, atom.index < atoms.size)
    (agrees : AgreesOn atoms valueOf) :
    ((start terms atoms).terms.map fun term => term.costAt valueOf).sum =
      (terms.map fun term => term.objective valueOf).sum := by
  simp only [start, List.map_map]
  congr 1
  refine List.map_congr_left fun term member => ?_
  rw [Function.comp_apply, LocalTerm.costAt, LocalTerm.rawAt_ofTerm (held term member) agrees,
    term.objective_eq]
  rfl

theorem admitsAt_start_iff (held : ∀ term ∈ terms, ∀ atom ∈ term.atoms, atom.index < atoms.size)
    (agrees : AgreesOn atoms valueOf) :
    (∀ term ∈ (start terms atoms).terms, term.AdmitsAt valueOf) ↔
      ∀ term ∈ terms, term.Satisfied valueOf := by
  simp only [start, List.forall_mem_map]
  refine forall₂_congr fun term member => ?_
  rw [term.satisfied_iff, LocalTerm.AdmitsAt, LocalTerm.rawAt_ofTerm (held term member) agrees]
  rfl

/-- Observed atoms keep their values through a run. -/
theorem Steady.agreesOn {plan : Plan ℝ ℝ} {state : ConsensusState ℝ}
    (steady : Steady plan (start terms atoms) state)
    (counts : plan.counts = (start terms atoms).copyCounts) :
    AgreesOn atoms (valueAt state.values) := by
  intro atom record found fixed
  have inside := (Array.getElem?_eq_some_iff.mp found).1
  have none : plan.counts.getD atom.index 0 = 0 := by
    rw [counts, getD_copyCounts _ (by simpa [start, AtomStore.values] using inside),
      copiesAt_start_of_fixed terms found fixed]
    rfl
  rw [valueAt, steady.kept atom.index none]
  change atoms.values.getD _ _ = _
  rw [AtomStore.getD_values, found]
  rfl

/-- The free atom should be low. -/
noncomputable def lowTerm : Term ℝ := ⟨⟨0⟩, .linear, .soft 1, 0, [⟨0⟩], [1]⟩

theorem start_lowTerm : start [lowTerm] sampleAtoms =
    ⟨[⟨⟨0⟩, .linear, .soft 1, 0, 1, [⟨⟨0⟩, 1, 0, 0⟩]⟩], #[0, 1]⟩ := by
  simp [start, LocalTerm.ofTerm, lowTerm, sampleAtoms, AtomStore.values, Term.entries,
    LocalTerm.freeCopies, LocalTerm.foldedConstant, AtomId.index, Scalar.square]

/-- The price of the only copy of the free atom falls to minus one. -/
theorem iterate_lowTerm {plan : Plan ℝ ℝ} (counted : plan.counts = #[1, 0])
    (penalty : plan.penalty = 1) (value price : ℝ) :
    (iterate plan ⟨[⟨⟨0⟩, .linear, .soft 1, 0, 1, [⟨⟨0⟩, 1, value, price⟩]⟩], #[0, 1]⟩).1 =
      ⟨[⟨⟨0⟩, .linear, .soft 1, 0, 1, [⟨⟨0⟩, 1, -price - 1, -1⟩]⟩], #[0, 1]⟩ := by
  have pulled : -price - 1 + price = -1 := by ring
  have sums : (Array.replicate 2 (0 : ℝ)).modify 0 (fun sum => sum + -1) = #[0 + -1, 0] := rfl
  simp [iterate, LocalTerm.minimize, LocalTerm.pull, LocalTerm.stepLength, LocalTerm.raisePrices,
    average, copySums, valueAt, AtomId.index, Scalar.clampUnit, counted, penalty, pulled, sums]
  rw [add_comm, pulled]

end ConsensusState

end HingeLoss
