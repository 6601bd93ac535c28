import HingeLoss.Descent.Solver
import HingeLoss.Proofs.Store.Stream

/-! A descent sees nothing of a stream but the terms that it lends. -/

namespace HingeLoss

namespace Descent

variable {σ τ α β : Type} [Scalar α] [Scalar β] [Widening α β] [TermStream σ α] [TermStream τ α]
  {idle alike : σ → τ → Prop} (bisimulation : TermStream.Bisimulation idle alike)

/-- Tokens that are found alike in streams that are alike. -/
structure Token.Alike (idle : σ → τ → Prop) (token : Token σ) (other : Token τ) : Prop where
  before : ∀ number first second, idle first second →
    token.before number first = other.before number second
  after : ∀ number first second, idle first second →
    token.after number first = other.after number second

include bisimulation

theorem runEpoch_alike (settings : DescentSettings α) (records : Array (AtomRecord α))
    (ending : Ending α β) {first : σ} {second : τ} (same : idle first second) :
    ∃ answer end₁ end₂, runEpoch settings records ending first = (answer, end₁) ∧
      runEpoch settings records ending second = (answer, end₂) ∧ idle end₁ end₂ := by
  unfold runEpoch
  rcases begun : TermStream.beginSweep first with ⟨fault | _, after⟩
  · obtain ⟨other, otherBegun, left⟩ := bisimulation.beginSweep_eq same begun
    rw [otherBegun]
    exact ⟨_, _, _, rfl, rfl, bisimulation.leave _ _ left⟩
  · obtain ⟨other, otherBegun, left⟩ := bisimulation.beginSweep_eq same begun
    rw [otherBegun]
    dsimp only
    obtain ⟨end₁, end₂, epoch, fault, folded, otherFolded, left⟩ :=
      bisimulation.fold (Epoch.follow ⟨records, settings.adagrad,
        settings.schedule.step settings.learningRate ending.epochs⟩) SolverFault.store
        (⟨ending.values, ending.accumulated, 0, 0⟩ : Epoch α β) left
    rw [folded, otherFolded]
    cases fault <;> exact ⟨_, _, _, rfl, rfl, bisimulation.leave _ _ left⟩

theorem runEpochsUnder_alike (settings : DescentSettings α) (records : Array (AtomRecord α))
    {token : Token σ} {other : Token τ} (sameToken : token.Alike idle other)
    (count : Nat) (ending : Ending α β) {first : σ} {second : τ} (same : idle first second) :
    ∃ answer end₁ end₂,
      runEpochsUnder settings records token count ending first = (answer, end₁) ∧
        runEpochsUnder settings records other count ending second = (answer, end₂) ∧
        idle end₁ end₂ := by
  induction count generalizing ending first second with
  | zero => exact ⟨_, _, _, rfl, rfl, same⟩
  | succ count inductionHypothesis =>
      unfold runEpochsUnder
      rw [sameToken.before ending.epochs first second same]
      split
      · exact ⟨_, _, _, rfl, rfl, same⟩
      · obtain ⟨answer, end₁, end₂, ran, otherRan, left⟩ :=
          runEpoch_alike bisimulation settings records ending same
        rw [ran, otherRan]
        cases answer with
        | error fault => exact ⟨_, _, _, rfl, rfl, left⟩
        | ok ending =>
            dsimp only
            rw [sameToken.after ending.epochs end₁ end₂ left]
            split
            · exact ⟨_, _, _, rfl, rfl, left⟩
            · split
              · exact ⟨_, _, _, rfl, rfl, left⟩
              · exact inductionHypothesis _ left

theorem evaluate_alike (ending : Ending α β) {first : σ} {second : τ} (same : idle first second) :
    ∃ answer end₁ end₂, evaluate ending first = (answer, end₁) ∧
      evaluate ending second = (answer, end₂) ∧ idle end₁ end₂ := by
  unfold evaluate
  dsimp only
  split
  · exact ⟨_, _, _, rfl, rfl, same⟩
  · rcases begun : TermStream.beginSweep first with ⟨fault | _, after⟩
    · obtain ⟨other, otherBegun, left⟩ := bisimulation.beginSweep_eq same begun
      rw [otherBegun]
      exact ⟨_, _, _, rfl, rfl, bisimulation.leave _ _ left⟩
    · obtain ⟨other, otherBegun, left⟩ := bisimulation.beginSweep_eq same begun
      rw [otherBegun]
      dsimp only
      obtain ⟨end₁, end₂, evaluation, fault, folded, otherFolded, left⟩ :=
        bisimulation.fold (evaluateTerm ending.values)
          (fun fault => DescentFault.solver (.store fault)) (⟨0, 0, 0⟩ : Evaluation β) left
      rw [folded, otherFolded]
      cases fault with
      | some fault => exact ⟨_, _, _, rfl, rfl, bisimulation.leave _ _ left⟩
      | none =>
          dsimp only
          rw [bisimulation.termCount end₁ end₂ left]
          split <;> exact ⟨_, _, _, rfl, rfl, bisimulation.leave _ _ left⟩

/-- Over streams that lend the same terms, runs from the same atoms end alike. -/
theorem optimizeUnder_alike (settings : DescentSettings α) {token : Token σ} {other : Token τ}
    (sameToken : token.Alike idle other) (atoms : AtomStore α) {first : σ} {second : τ}
    (same : idle first second) :
    ∃ (answer : Except (DescentFault α) (RunReport β)) (end₁ : σ) (end₂ : τ) (left : AtomStore α),
      optimizeUnder settings token first atoms = (answer, end₁, left) ∧
        optimizeUnder settings other second atoms = (answer, end₂, left) ∧ idle end₁ end₂ := by
  unfold optimizeUnder
  split
  · exact ⟨_, _, _, _, rfl, rfl, same⟩
  · dsimp only
    obtain ⟨answer, end₁, end₂, ran, otherRan, left⟩ :=
      runEpochsUnder_alike bisimulation settings atoms.records sameToken settings.maxEpochs
        (startOf settings atoms : Ending α β) same
    rw [ran, otherRan]
    cases answer with
    | error fault => exact ⟨_, _, _, _, rfl, rfl, left⟩
    | ok ending =>
        dsimp only
        rcases atoms.writeBack ending.values with ⟨fault | _, written⟩
        · exact ⟨_, _, _, _, rfl, rfl, left⟩
        · obtain ⟨answer, end₁, end₂, evaluated, otherEvaluated, left⟩ :=
            evaluate_alike bisimulation ending left
          rw [evaluated, otherEvaluated]
          exact ⟨_, _, _, _, rfl, rfl, left⟩

theorem optimize_alike (settings : DescentSettings α)
    {cancelled₁ : σ → Bool} {cancelled₂ : τ → Bool}
    (sameToken : ∀ first second, idle first second → cancelled₁ first = cancelled₂ second)
    (atoms : AtomStore α) {first : σ} {second : τ} (same : idle first second) :
    ∃ (answer : Except (DescentFault α) (RunReport β)) (end₁ : σ) (end₂ : τ) (left : AtomStore α),
      optimize settings cancelled₁ first atoms = (answer, end₁, left) ∧
        optimize settings cancelled₂ second atoms = (answer, end₂, left) ∧ idle end₁ end₂ :=
  optimizeUnder_alike bisimulation settings ⟨fun _ => sameToken, fun _ => sameToken⟩ atoms same

end Descent

end HingeLoss
