import HingeLoss.Proofs.Consensus.Residual
import HingeLoss.Proofs.Consensus.Start
import HingeLoss.Proofs.Atom.Change

/-! With a saddle point, runs of the consensus solver end by convergence. -/

namespace HingeLoss

namespace AtomStore

variable {atoms : AtomStore ℝ}

/-- Whether values agree with the records whose places no atom can name. -/
def KeepsUnnamed (atoms : AtomStore ℝ) (values : Array ℝ) : Prop :=
  ∀ index, UInt32.size ≤ index → ∀ record value, atoms.records[index]? = some record →
    values[index]? = some value → record.value = value

/-- One atom takes its value, and the places that no atom can name are as before. -/
theorem writeBackAt_ok {values : Array ℝ} (kept : atoms.KeepsUnnamed values) (index : Nat) :
    ∃ after, atoms.writeBackAt values index = .ok after ∧ after.KeepsUnnamed values := by
  unfold writeBackAt
  split
  · rename_i record value found valueFound
    split
    · exact ⟨atoms, rfl, kept⟩
    · rename_i differs
      rw [Bool.or_eq_true, not_or, Bool.not_eq_true] at differs
      have named : index < UInt32.size := by
        by_contra unnamed
        have same := kept index (not_lt.mp unnamed) record value found valueFound
        exact differs.2 (by simp [Scalar.same, same])
      have looked : atoms.lookup (.ofIndex index) = .ok record := by
        rw [lookup, AtomId.index_ofIndex named, found]
      have finite : Scalar.isFinite value = true := rfl
      simp only [assign, looked, differs.1, finite, Bool.false_eq_true, if_false, if_true]
      refine ⟨_, rfl, fun other unnamed => ?_⟩
      have elsewhere : index ≠ other := (named.trans_le unnamed).ne
      simp only [AtomId.index_ofIndex named, Array.getElem?_modify, if_neg elsewhere]
      exact kept other unnamed
  · exact ⟨atoms, rfl, kept⟩

theorem writeBackFrom_ok {values : Array ℝ} (indices : List Nat)
    (kept : atoms.KeepsUnnamed values) : (writeBackFrom values indices atoms).1 = .ok () := by
  induction indices generalizing atoms with
  | nil => rfl
  | cons index rest inductionHypothesis =>
      obtain ⟨after, written, keptAfter⟩ := writeBackAt_ok kept index
      rw [writeBackFrom, written]
      exact inductionHypothesis keptAfter

end AtomStore

namespace ConsensusSolver

open ConsensusState

variable {plan : Plan ℝ ℝ} {begun : ConsensusState ℝ} {ending : Ending ℝ ℝ}

/-- The loop ends in the state after as many iterations as it has counted. -/
theorem state_iterateUpTo (cancelled : Nat → Bool) (left : Nat)
    (here : ending.state = run plan begun ending.iterations) :
    (iterateUpTo plan cancelled left ending).state =
      run plan begun (iterateUpTo plan cancelled left ending).iterations := by
  induction left generalizing ending with
  | zero => exact here
  | succ left inductionHypothesis =>
      have next : (iterate plan ending.state).1 = run plan begun (ending.iterations + 1) := by
        rw [run_succ, here]
      unfold iterateUpTo
      split
      · exact here
      · dsimp only
        split
        · exact next
        · exact inductionHypothesis next

/-- The loop does not go past an iteration that has converged. -/
theorem status_iterateUpTo {count : Nat} (left : Nat)
    (here : ending.state = run plan begun ending.iterations)
    (converged : (iterate plan (run plan begun count)).2.converged = true)
    (ahead : ending.iterations ≤ count) (enough : count < ending.iterations + left) :
    (iterateUpTo plan (fun _ => false) left ending).status = .converged := by
  induction left generalizing ending with
  | zero => omega
  | succ left inductionHypothesis =>
      rw [iterateUpTo, if_neg Bool.false_ne_true]
      dsimp only
      split
      · rfl
      · rename_i notYet
        have later : ending.iterations ≠ count := by
          rintro rfl
          rw [here, converged] at notYet
          exact notYet rfl
        refine inductionHypothesis ?_ ?_ ?_
        · rw [run_succ, here]
        · exact Nat.lt_of_le_of_ne ahead later
        · dsimp only
          omega

/-- A run leaves the places that no atom can name. -/
theorem keepsUnnamed_run {terms : List (Term ℝ)} {atoms : AtomStore ℝ} {state : ConsensusState ℝ}
    (steady : Steady plan (start terms atoms) state)
    (counts : plan.counts = (start terms atoms).copyCounts) : atoms.KeepsUnnamed state.values := by
  intro index unnamed record value found valueFound
  have inside : index < (start terms atoms).values.size := by
    rw [← steady.size]
    exact (Array.getElem?_eq_some_iff.mp valueFound).1
  have noCopies : copiesAt (start terms atoms).terms index = [] := by
    refine List.filter_eq_nil_iff.mpr fun copy _ here => ?_
    have named : copy.atom.index < UInt32.size := copy.atom.number.toNat_lt_size
    rw [of_decide_eq_true here] at named
    omega
  have none : plan.counts.getD index 0 = 0 := by
    rw [counts, getD_copyCounts _ inside, noCopies]
    rfl
  have same := steady.kept index none
  rw [Array.getD_eq_getD_getElem?, valueFound] at same
  rw [show value = _ from same]
  exact ((atoms.getD_values index).trans (by rw [found]; rfl)).symm

/-- A run whose values can be written back reports its ending and keeps the last state. -/
theorem optimize_eq (solver : ConsensusSolver ℝ) {store : ResidentStore ℝ} {atoms : AtomStore ℝ}
    {cancelled : Nat → Bool} (ready : store.phase = .ready)
    (positive : 0 < solver.settings.penalty)
    (held : ∀ term ∈ store.terms.toList, ∀ atom ∈ term.atoms, atom.index < atoms.size)
    (ends : iterateUpTo
      (ConsensusSolver.plan solver.settings solver.tree (start store.terms.toList atoms))
      cancelled solver.settings.maxIterations
      ⟨.maxIterationsReached, 0, none, start store.terms.toList atoms⟩ = ending)
    (written : (atoms.writeBack ending.state.values).1 = .ok ()) :
    solver.optimize store atoms cancelled =
      (.ok (report store.terms.toList ending), { solver with solution := some ending.state },
        (atoms.writeBack ending.state.values).2) := by
  have sealed : store.ensureReady = .ok () := by rw [ResidentStore.ensureReady, ready]
  have accepted : Scalar.isPositive solver.settings.penalty = true := decide_eq_true positive
  have checked : (store.terms.toList.forM fun term => atoms.checkAll term.atoms) = .ok () :=
    AtomStore.forM_ok fun term member => AtomStore.checkAll_ok (held term member)
  simp only [optimize, sealed, accepted, checked, ends, Bool.not_true, Bool.false_eq_true, if_false]
  revert written
  generalize atoms.writeBack ending.state.values = outcome
  rintro written
  obtain ⟨answer, atoms⟩ := outcome
  cases written
  rfl

/-- Without prices, one is a saddle point of the square that is zero there. -/
theorem saddlePoint_unitTerm :
    SaddlePoint (start [unitTerm] sampleAtoms).terms (fun _ => 1) fun _ => 0 where
  inUnit _ := ⟨zero_le_one, le_refl 1⟩
  admitted term member := by
    rw [start_unitTerm, List.mem_singleton] at member
    rw [member]
    exact Weight.admits_soft 1 _ _
  minimal point sameFrames _ _ := by
    rw [lagrangian_settledAt, lagrangian, start_unitTerm]
    rw [start_unitTerm] at sameFrames
    obtain ⟨term, terms, framed⟩ := List.map_eq_singleton_iff.mp sameFrames
    have weight : term.weight = .soft 1 := congrArg LocalTerm.weight framed
    have shape : term.shape = .squaredLinear := congrArg LocalTerm.shape framed
    simp [terms, LocalTerm.costAt, LocalTerm.ownCost, LocalTerm.rawAt_eq, Weight.cost, weight,
      shape, Shape.apply_squaredLinear, sq_nonneg]

theorem iterate_unitTerm (tree : List (LocalTerm ℝ) → SumTree) :
    (iterate (ConsensusSolver.plan .standard tree (start [unitTerm] sampleAtoms) : Plan ℝ ℝ)
      (start [unitTerm] sampleAtoms)).1 =
        ⟨[⟨⟨0⟩, .squaredLinear, .soft 1, -1, 1, [⟨⟨0⟩, 1, 2 / 3, 0⟩]⟩], #[2 / 3, 1]⟩ := by
  have counted : (ConsensusSolver.plan .standard tree (start [unitTerm] sampleAtoms) :
      Plan ℝ ℝ).counts = #[1, 0] := by
    rw [start_unitTerm]
    rfl
  have penalty : (ConsensusSolver.plan .standard tree (start [unitTerm] sampleAtoms) :
      Plan ℝ ℝ).penalty = 1 := rfl
  generalize ConsensusSolver.plan .standard tree (start [unitTerm] sampleAtoms) = plan
    at counted penalty ⊢
  have sums : (Array.replicate 2 (0 : ℝ)).modify 0 (fun sum => sum + 2 / 3) = #[0 + 2 / 3, 0] := rfl
  rw [iterate, penalty, minimized_unitTerm, start_unitTerm, counted]
  norm_num [LocalTerm.raisePrices, average, copySums, valueAt, AtomId.index, Scalar.clampUnit, sums]

end ConsensusSolver

end HingeLoss
