import HingeLoss.Descent.Solver
import HingeLoss.Proofs.Store.Stream

/-! The evaluation at the end of a descent goes through one whole sweep or counts as cancelled. -/

namespace HingeLoss

/-- The sum of the objectives of terms, taken in their order from zero on. -/
def totalObjective {α β : Type} [Scalar α] [Scalar β] [Widening α β] (valueOf : AtomId → α)
    (terms : List (Term α)) : β :=
  terms.foldl (fun sum term => sum + widen (term.objective valueOf)) 0

/-- The number of constraints that are violated. -/
def violations {α : Type} [Scalar α] (valueOf : AtomId → α) (terms : List (Term α)) : Nat :=
  terms.countP fun term => term.violated valueOf

namespace Descent

variable {σ α β : Type} [Scalar α] [Scalar β] [Widening α β] [TermStream σ α]

/-- The evaluation of terms one after another. -/
def evaluationOf (values : Array α) (terms : List (Term α)) (start : Evaluation β) :
    Evaluation β where
  visited := start.visited + terms.length
  objective := terms.foldl (fun sum term => sum + widen (term.objective (valueAt values)))
    start.objective
  violated := start.violated + violations (valueAt values) terms

/-- Terms can be evaluated if all of their atoms have values. -/
theorem evaluation_ok_iff (values : Array α) {terms : List (Term α)}
    {start after : Evaluation β} :
    terms.foldlM (evaluateTerm values) start = .ok after ↔
      (∀ term ∈ terms, term.readsBelow values.size = true) ∧
        evaluationOf values terms start = after := by
  induction terms generalizing start with
  | nil => simp [evaluationOf, violations, pure, Except.pure]
  | cons term later inductionHypothesis =>
      rw [List.foldlM_cons, evaluateTerm, List.forall_mem_cons]
      by_cases reads : term.readsBelow values.size = true
      · have first : evaluationOf values later
            { visited := start.visited + 1
              objective := start.objective + widen (term.objective (valueAt values))
              violated := start.violated + if term.violated (valueAt values) then 1 else 0 } =
            evaluationOf values (term :: later) start := by
          simp only [evaluationOf, violations, List.length_cons, List.foldl_cons,
            List.countP_cons, Nat.add_assoc, Nat.add_comm, Nat.add_left_comm]
        rw [if_pos reads, ← first]
        exact inductionHypothesis.trans (by simp [reads])
      · rw [if_neg reads]
        simp [reads, bind, Except.bind]

/-- What a report says of a run. The status of the ending stands, and the numbers belong to a whole
sweep, unless the run is cancelled or its last sweep has been cut off. -/
theorem evaluate_ok {ending : Ending α β} {stream last : σ} {report : RunReport β}
    (evaluated : evaluate ending stream = (.ok report, last)) :
    report.iterations = ending.epochs ∧
      ((report.status = .cancelled ∧ report.objective = 0 ∧ report.violatedConstraints = 0) ∨
        ending.status ≠ .cancelled ∧ report.status = ending.status ∧
          ∃ begun terms, TermStream.beginSweep stream = (.ok (), begun) ∧
            TermStream.Drains begun terms last ∧ TermStream.termCount last ≤ terms.length ∧
            report.objective = totalObjective (valueAt ending.values) terms ∧
            report.violatedConstraints = violations (valueAt ending.values) terms) := by
  unfold evaluate at evaluated
  dsimp only at evaluated
  split at evaluated
  · cases evaluated
    exact ⟨rfl, .inl ⟨rfl, rfl, rfl⟩⟩
  · rename_i notCancelled
    split at evaluated
    · cases evaluated
    · rename_i begun began
      split at evaluated
      · cases evaluated
      · rename_i evaluation rest folded
        obtain ⟨terms, drains, made⟩ := TermStream.drains_of_fold folded
        obtain ⟨-, rfl⟩ := (evaluation_ok_iff ending.values).mp made
        split at evaluated
        · cases evaluated
          exact ⟨rfl, .inl ⟨rfl, rfl, rfl⟩⟩
        · rename_i whole
          cases evaluated
          refine ⟨rfl, .inr ⟨notCancelled, rfl, begun, terms, began, drains, ?_, rfl, ?_⟩⟩
          · simpa [evaluationOf] using whole
          · exact Nat.zero_add _

/-- The evaluation of an ending that is not cancelled goes through the sweep that it begins. -/
theorem evaluate_of_drains {ending : Ending α β} {stream begun last : σ} {terms : List (Term α)}
    (going : ending.status ≠ .cancelled) (began : TermStream.beginSweep stream = (.ok (), begun))
    (drains : TermStream.Drains begun terms last)
    (reads : ∀ term ∈ terms, term.readsBelow ending.values.size = true) :
    evaluate ending stream =
      (.ok (if terms.length < TermStream.termCount last then
          ⟨.cancelled, ending.epochs, ending.movement, 0, 0, 0⟩
        else
          ⟨ending.status, ending.epochs, ending.movement, 0,
            totalObjective (valueAt ending.values) terms,
            violations (valueAt ending.values) terms⟩), last) := by
  have made : terms.foldlM (evaluateTerm ending.values) (⟨0, 0, 0⟩ : Evaluation β) =
      .ok (evaluationOf ending.values terms ⟨0, 0, 0⟩) :=
    (evaluation_ok_iff ending.values).mpr ⟨reads, rfl⟩
  simp only [evaluate, going, if_false, began, drains.fold made, evaluationOf, Nat.zero_add]
  split <;> rfl

end Descent

end HingeLoss
