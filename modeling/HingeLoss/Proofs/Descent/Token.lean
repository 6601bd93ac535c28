import HingeLoss.Proofs.Descent.Evaluation

/-! Descents under a token that may fire at any time, also between two epochs. -/

namespace HingeLoss

namespace Descent

variable {σ α β : Type} [Scalar α] [Scalar β] [Widening α β] [TermStream σ α]
  {settings : DescentSettings α} {records : Array (AtomRecord α)} {token : Token σ}

/-- What an epoch does to the ending before it. -/
theorem runEpoch_ok {ending after : Ending α β} {stream last : σ}
    (ran : runEpoch settings records ending stream = (.ok after, last)) :
    after.status = ending.status ∧ after.epochs = ending.epochs := by
  unfold runEpoch at ran
  dsimp only at ran
  split at ran
  · cases ran
  · split at ran
    · cases ran
    · cases ran
      exact ⟨rfl, rfl⟩

/-- An epoch follows the terms of the sweep that it begins. -/
theorem runEpoch_of_drains {ending : Ending α β} {stream begun last : σ} {terms : List (Term α)}
    {epoch : Epoch α β} (began : TermStream.beginSweep stream = (.ok (), begun))
    (drains : TermStream.Drains begun terms last)
    (followed : terms.foldlM
      (Epoch.follow ⟨records, settings.adagrad,
        settings.schedule.step settings.learningRate ending.epochs⟩)
      ⟨ending.values, ending.accumulated, 0, 0⟩ = .ok epoch) :
    runEpoch settings records ending stream =
      (.ok { ending with
        movement := Scalar.sqrt epoch.movedSquared
        values := epoch.values
        accumulated := epoch.accumulated }, last) := by
  simp only [runEpoch, began, drains.fold followed]

theorem runEpoch_keeps {keeps : σ → Prop} (kept : TermStream.Keeps keeps) {ending : Ending α β}
    {stream last : σ} {answer : Except (SolverFault α) (Ending α β)} (here : keeps stream)
    (ran : runEpoch settings records ending stream = (answer, last)) : keeps last := by
  unfold runEpoch at ran
  rcases began : TermStream.beginSweep stream with ⟨_ | _, begun⟩
  · rw [began] at ran
    cases ran
    exact kept.begins_eq here began
  · have swept := kept.fold (Epoch.follow ⟨records, settings.adagrad,
      settings.schedule.step settings.learningRate ending.epochs⟩) SolverFault.store
      (⟨ending.values, ending.accumulated, 0, 0⟩ : Epoch α β) (kept.begins_eq here began)
    rw [began] at ran
    dsimp only at ran
    split at ran <;> rename_i folded <;> rw [folded] at swept <;> cases ran <;> exact swept

/-- All outcomes of a run that has an epoch left, with what the first one has come to. -/
inductive EpochSteps (settings : DescentSettings α) (records : Array (AtomRecord α))
    (token : Token σ) (left : Nat) (ending : Ending α β) (stream : σ) :
    Except (SolverFault α) (Ending α β) × σ → Prop
  | stops (fired : token.before ending.epochs stream = true) :
      EpochSteps settings records token left ending stream
        (.ok { ending with status := .cancelled }, stream)
  | fails {fault : SolverFault α} {rest : σ}
      (epochRan : runEpoch settings records ending stream = (.error fault, rest)) :
      EpochSteps settings records token left ending stream (.error fault, rest)
  | stopsAfter {between : Ending α β} {rest : σ}
      (epochRan : runEpoch settings records ending stream = (.ok between, rest))
      (fired : token.after between.epochs rest = true) :
      EpochSteps settings records token left ending stream
        (.ok { between with status := .cancelled }, rest)
  | converges {between : Ending α β} {rest : σ}
      (epochRan : runEpoch settings records ending stream = (.ok between, rest))
      (small : between.movement < widen settings.tolerance) :
      EpochSteps settings records token left ending stream
        (.ok { between with epochs := between.epochs + 1, status := .converged }, rest)
  | goesOn {between : Ending α β} {rest : σ}
      {outcome : Except (SolverFault α) (Ending α β) × σ}
      (epochRan : runEpoch settings records ending stream = (.ok between, rest))
      (later : runEpochsUnder settings records token left
        { between with epochs := between.epochs + 1 } rest = outcome) :
      EpochSteps settings records token left ending stream outcome

theorem epochSteps {left : Nat} {ending : Ending α β} {stream : σ}
    {outcome : Except (SolverFault α) (Ending α β) × σ}
    (ran : runEpochsUnder settings records token (left + 1) ending stream = outcome) :
    EpochSteps settings records token left ending stream outcome := by
  unfold runEpochsUnder at ran
  split at ran
  · rename_i fired
    exact ran ▸ .stops fired
  · split at ran
    · rename_i epochRan
      exact ran ▸ .fails epochRan
    · rename_i epochRan
      split at ran
      · rename_i fired
        exact ran ▸ .stopsAfter epochRan fired
      · dsimp only at ran
        split at ran
        · rename_i small
          exact ran ▸ .converges epochRan small
        · exact .goesOn epochRan ran

/-- What sweeps keep, all epochs keep. -/
theorem runEpochsUnder_keeps {keeps : σ → Prop} (kept : TermStream.Keeps keeps) {count : Nat}
    {ending : Ending α β} {stream last : σ} {answer : Except (SolverFault α) (Ending α β)}
    (here : keeps stream)
    (ran : runEpochsUnder settings records token count ending stream = (answer, last)) :
    keeps last := by
  induction count generalizing ending stream with
  | zero =>
      cases ran
      exact here
  | succ count inductionHypothesis =>
      cases epochSteps ran with
      | stops _ => exact here
      | fails epochRan => exact runEpoch_keeps kept here epochRan
      | stopsAfter epochRan _ => exact runEpoch_keeps kept here epochRan
      | converges epochRan _ => exact runEpoch_keeps kept here epochRan
      | goesOn epochRan later => exact inductionHypothesis (runEpoch_keeps kept here epochRan) later

/-- What every epoch keeps of the values and the stream, all epochs keep. -/
theorem runEpochsUnder_invariant (holds : Array α → σ → Prop)
    (epochs : ∀ (ending after : Ending α β) (stream last : σ), holds ending.values stream →
      runEpoch settings records ending stream = (.ok after, last) → holds after.values last)
    {count : Nat} {ending after : Ending α β} {stream last : σ} (here : holds ending.values stream)
    (ran : runEpochsUnder settings records token count ending stream = (.ok after, last)) :
    holds after.values last := by
  induction count generalizing ending stream with
  | zero =>
      cases ran
      exact here
  | succ count inductionHypothesis =>
      cases epochSteps ran with
      | stops _ => exact here
      | @stopsAfter between _ epochRan _ => exact epochs ending between _ _ here epochRan
      | @converges between _ epochRan _ => exact epochs ending between _ _ here epochRan
      | @goesOn between _ _ epochRan later =>
          refine inductionHypothesis ?_ later
          exact epochs ending between _ _ here epochRan

/-- No more epochs are made than the cap allows. -/
theorem epochs_le_of_runEpochsUnder (count : Nat) {ending after : Ending α β} {stream last : σ}
    (ran : runEpochsUnder settings records token count ending stream = (.ok after, last)) :
    after.epochs ≤ ending.epochs + count := by
  induction count generalizing ending stream with
  | zero =>
      cases ran
      exact Nat.le_refl _
  | succ count inductionHypothesis =>
      cases epochSteps ran with
      | stops _ => exact Nat.le_add_right _ _
      | stopsAfter epochRan _ => exact (runEpoch_ok epochRan).2 ▸ Nat.le_add_right _ _
      | converges epochRan _ =>
          have epochs := (runEpoch_ok epochRan).2
          dsimp only
          omega
      | goesOn epochRan later =>
          have epochs := (runEpoch_ok epochRan).2
          have bounded := inductionHypothesis later
          dsimp only at bounded
          omega

/-- A run with a report has written the values of its last epoch back and evaluated the terms at
them. -/
theorem optimizeUnder_ok {stream last : σ} {atoms after : AtomStore α} {report : RunReport β}
    (ran : optimizeUnder settings token stream atoms = (.ok report, last, after)) :
    ∃ (ending : Ending α β) (passed : σ),
      runEpochsUnder settings atoms.records token settings.maxEpochs (startOf settings atoms)
          stream = (.ok ending, passed) ∧
        atoms.writeBack ending.values = (.ok (), after) ∧
        evaluate ending passed = (.ok report, last) := by
  unfold optimizeUnder at ran
  split at ran
  · cases ran
  · split at ran
    · cases ran
    · rename_i ending passed epochsRan
      split at ran
      · cases ran
      · rename_i written
        obtain ⟨evaluated, same⟩ := Prod.mk.inj ran
        obtain ⟨rfl, rfl⟩ := Prod.mk.inj same
        exact ⟨ending, passed, epochsRan, written, Prod.ext evaluated rfl⟩

/-- A run whose epochs and write-back succeed answers with its evaluation. -/
theorem optimizeUnder_of_evaluate {stream passed last : σ} {atoms after : AtomStore α}
    {ending : Ending α β} {answer : Except (DescentFault α) (RunReport β)}
    (positive : Scalar.isPositive settings.learningRate = true)
    (epochsRan : runEpochsUnder settings atoms.records token settings.maxEpochs
      (startOf settings atoms) stream = (.ok ending, passed))
    (written : atoms.writeBack ending.values = (.ok (), after))
    (evaluated : evaluate ending passed = (answer, last)) :
    optimizeUnder settings token stream atoms = (answer, last, after) := by
  simp only [optimizeUnder, positive, Bool.not_true, Bool.false_eq_true, if_false, epochsRan,
    written, evaluated]

end Descent

end HingeLoss
