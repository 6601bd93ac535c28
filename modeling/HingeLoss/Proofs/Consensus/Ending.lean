import HingeLoss.Consensus.Solver

/-! A run of the consensus solver ends at the first iteration that has converged. -/

namespace HingeLoss

namespace ConsensusState

variable {α β : Type} [Scalar α] [Scalar β] [Widening α β]

/-- The state after some iterations. -/
def iterated (plan : Plan α β) (begun : ConsensusState α) : Nat → ConsensusState α
  | 0 => begun
  | count + 1 => (iterate plan (iterated plan begun count)).1

/-- The residuals of the iteration that follows some others. -/
def residualsAfter (plan : Plan α β) (begun : ConsensusState α) (count : Nat) : Residuals β :=
  (iterate plan (iterated plan begun count)).2

/-- The last of some iterations is the first one whose residuals are below their bounds. -/
def ConvergesAt (plan : Plan α β) (begun : ConsensusState α) (iterations : Nat) : Prop :=
  ∃ last, iterations = last + 1 ∧ (residualsAfter plan begun last).converged = true ∧
    ∀ earlier < last, (residualsAfter plan begun earlier).converged = false

variable {plan : Plan α β} {begun : ConsensusState α}

theorem not_convergesAt {iterations : Nat}
    (none : ∀ count < iterations, (residualsAfter plan begun count).converged = false) :
    ¬ ConvergesAt plan begun iterations := by
  rintro ⟨last, rfl, converged, -⟩
  rw [none last (Nat.lt_succ_self last)] at converged
  cases converged

end ConsensusState

namespace ConsensusSolver

open ConsensusState

variable {α β : Type} [Scalar α] [Scalar β] [Widening α β] {plan : Plan α β}
  {begun : ConsensusState α} {ending : Ending α β}

theorem iterations_iterateUpTo_le (plan : Plan α β) (cancelled : Nat → Bool) (left : Nat)
    (ending : Ending α β) :
    (iterateUpTo plan cancelled left ending).iterations ≤ ending.iterations + left := by
  induction left generalizing ending with
  | zero => exact Nat.le_refl _
  | succ left inductionHypothesis =>
      unfold iterateUpTo
      split
      · exact Nat.le_add_right _ _
      · dsimp only
        split
        · dsimp only
          omega
        · refine Nat.le_trans (inductionHypothesis _) ?_
          dsimp only
          omega

/-- A loop that has not converged so far says at its end that it has, if and only if its last
iteration is the first one to converge. -/
theorem status_iterateUpTo_iff (cancelled : Nat → Bool) (left : Nat)
    (here : ending.state = iterated plan begun ending.iterations)
    (none : ∀ count < ending.iterations, (residualsAfter plan begun count).converged = false)
    (going : ending.status ≠ .converged) :
    (iterateUpTo plan cancelled left ending).status = .converged ↔
      ConvergesAt plan begun (iterateUpTo plan cancelled left ending).iterations := by
  induction left generalizing ending with
  | zero => exact iff_of_false going (not_convergesAt none)
  | succ left inductionHypothesis =>
      unfold iterateUpTo
      split
      · exact iff_of_false (fun same => by cases same) (not_convergesAt none)
      · -- the loop looks at the residuals of one more iteration than it has counted
        have residuals : (iterate plan ending.state).2 =
            residualsAfter plan begun ending.iterations := by rw [residualsAfter, here]
        dsimp only
        split
        · rename_i converged
          rw [residuals] at converged
          exact iff_of_true rfl ⟨ending.iterations, rfl, converged, none⟩
        · rename_i notYet
          rw [residuals, Bool.not_eq_true] at notYet
          refine inductionHypothesis ?_ ?_ (fun same => by cases same)
          · dsimp only
            rw [here, iterated]
          · intro count below
            rcases Nat.lt_succ_iff_lt_or_eq.mp below with earlier | rfl
            · exact none count earlier
            · exact notYet

/-- A run that gives a report has written the values of its last iteration back, and nothing but the
state of that iteration is new in the solver. -/
theorem solver_of_optimize {solver left : ConsensusSolver α} {store : ResidentStore α}
    {atoms after : AtomStore α} {cancelled : Nat → Bool} {answer : RunReport β}
    (ran : solver.optimize store atoms cancelled = (.ok answer, left, after)) :
    let begun := start store.terms.toList atoms
    let ending : Ending α β :=
      iterateUpTo (ConsensusSolver.plan solver.settings solver.tree begun) cancelled
        solver.settings.maxIterations ⟨.maxIterationsReached, 0, none, begun⟩
    atoms.writeBack ending.state.values = (.ok (), after) ∧
      left = { solver with solution := some ending.state } ∧
      report store.terms.toList ending = answer := by
  unfold optimize at ran
  split at ran
  · cases ran
  · split at ran
    · cases ran
    · dsimp only at ran
      split at ran
      · cases ran
      · split at ran
        · cases ran
        · rename_i written
          cases ran
          exact ⟨written, rfl, rfl⟩

/-- A run that gives a report has written the values of its last iteration back, reports on them and
keeps their state. -/
theorem optimize_ok {solver left : ConsensusSolver α} {store : ResidentStore α}
    {atoms after : AtomStore α} {cancelled : Nat → Bool} {answer : RunReport β}
    (ran : solver.optimize store atoms cancelled = (.ok answer, left, after)) :
    let begun := start store.terms.toList atoms
    let ending : Ending α β :=
      iterateUpTo (ConsensusSolver.plan solver.settings solver.tree begun) cancelled
        solver.settings.maxIterations ⟨.maxIterationsReached, 0, none, begun⟩
    atoms.writeBack ending.state.values = (.ok (), after) ∧
      left.consensus = .ok ending.state.values ∧ report store.terms.toList ending = answer := by
  obtain ⟨written, rfl, reported⟩ := solver_of_optimize ran
  exact ⟨written, rfl, reported⟩

end ConsensusSolver

end HingeLoss
