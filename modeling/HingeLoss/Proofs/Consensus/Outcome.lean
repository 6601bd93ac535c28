import HingeLoss.Proofs.Solver.Exact
import HingeLoss.Proofs.Consensus.Ending
import HingeLoss.Proofs.Consensus.Incompatibility

/-! Every run over accepted terms succeeds in exact arithmetic. -/

namespace HingeLoss

open ConsensusState

/-- The atoms take over the values of every state of a run. -/
theorem ConsensusState.Steady.takes {plan : Plan ℝ ℝ} {terms : List (Term ℝ)}
    {atoms : AtomStore ℝ} {state : ConsensusState ℝ}
    (steady : Steady plan (ConsensusSolver.start terms atoms) state)
    (counts : plan.counts = (ConsensusSolver.start terms atoms).copyCounts) :
    atoms.Takes state.values where
  size := steady.size.trans Array.size_map
  inUnit := steady.inUnit
  observed := steady.agreesOn counts
  unnamed := ConsensusSolver.keepsUnnamed_run steady counts

namespace ConsensusSolver

/-- Every run over accepted terms succeeds. -/
theorem exists_optimize (solver : ConsensusSolver ℝ) {store : ResidentStore ℝ}
    {atoms : AtomStore ℝ} (ready : store.phase = .ready) (positive : 0 < solver.settings.penalty)
    (accepted : ∀ term ∈ store.terms.toList, term.Accepted) (built : atoms.Built)
    (held : ∀ term ∈ store.terms.toList, ∀ atom ∈ term.atoms, atom.index < atoms.size)
    (cancelled : Nat → Bool) :
    let begun := start store.terms.toList atoms
    let plan : Plan ℝ ℝ := ConsensusSolver.plan solver.settings solver.tree begun
    let ending := iterateUpTo plan cancelled solver.settings.maxIterations
      ⟨.maxIterationsReached, 0, none, begun⟩
    ∃ after, solver.optimize store atoms cancelled =
        (.ok (report store.terms.toList ending), { solver with solution := some ending.state },
          after) ∧
      after.values = ending.state.values ∧ ending.state = run plan begun ending.iterations ∧
      ending.iterations ≤ solver.settings.maxIterations := by
  intro begun plan ending
  have regular : Regular plan begun ending.state :=
    regular_iterateUpTo accepted built positive solver.tree cancelled solver.settings.maxIterations
  obtain ⟨after, written, values⟩ := (regular.takes rfl).writeBack_eq
  have answered := optimize_eq solver ready positive held (rfl : _ = ending)
    (congrArg Prod.fst written)
  rw [written] at answered
  refine ⟨after, answered, values, state_iterateUpTo cancelled _ (run_zero plan begun).symm, ?_⟩
  exact (iterations_iterateUpTo_le plan cancelled _ _).trans_eq (Nat.zero_add _)

end ConsensusSolver

end HingeLoss
