import HingeLoss.Store.Stream

/-! Streams that stay alike cannot be told apart by folding over a sweep. -/

namespace HingeLoss

namespace TermStream

variable {σ τ α γ ε : Type} [TermStream σ α] [TermStream τ α]

theorem fold_eq (step : γ → Term α → Except ε γ) (wrap : StoreFault α → ε) (state : γ)
    (stream : σ) :
    fold step wrap state stream =
      match nextTerm stream with
      | (.error fault, rest) => (state, some (wrap fault), rest)
      | (.ok none, rest) => (state, none, rest)
      | (.ok (some term), rest) =>
          match step state term with
          | .error fault => (state, some fault, rest)
          | .ok state => fold step wrap state rest := by
  rw [fold]
  split
  all_goals
    rename_i lent
    generalize nextTerm stream = outcome at lent
    subst lent
    rfl

/-- What a stream lends up to the end of its sweep, and the stream that is left. -/
inductive Drains : σ → List (Term α) → σ → Prop
  | ended {stream last : σ} (none : nextTerm stream = (.ok none, last)) : Drains stream [] last
  | lends {stream next last : σ} {term : Term α} {terms : List (Term α)}
      (lent : nextTerm stream = (.ok (some term), next)) (later : Drains next terms last) :
      Drains stream (term :: terms) last

/-- A fold makes its steps with what its stream lends. -/
theorem Drains.fold {step : γ → Term α → Except ε γ} {state after : γ} {stream last : σ}
    {terms : List (Term α)} (drains : Drains stream terms last)
    (made : terms.foldlM step state = .ok after) (wrap : StoreFault α → ε) :
    TermStream.fold step wrap state stream = (after, none, last) := by
  induction drains generalizing state with
  | ended none =>
      cases made
      rw [fold_eq, none]
  | @lends stream next last term terms lent later inductionHypothesis =>
      rw [List.foldlM_cons] at made
      rw [fold_eq, lent]
      dsimp only
      cases stepped : step state term with
      | error fault =>
          rw [stepped] at made
          cases made
      | ok state =>
          rw [stepped] at made
          exact inductionHypothesis made

/-- A fold stops at the first step that fails. -/
theorem Drains.fold_error {step : γ → Term α → Except ε γ} {state : γ} {stream last : σ}
    {terms : List (Term α)} {fault : ε} (drains : Drains stream terms last)
    (failed : terms.foldlM step state = .error fault) (wrap : StoreFault α → ε) :
    ∃ reached rest, TermStream.fold step wrap state stream = (reached, some fault, rest) := by
  induction drains generalizing state with
  | ended none => cases failed
  | @lends stream next last term terms lent later inductionHypothesis =>
      rw [List.foldlM_cons] at failed
      rw [fold_eq, lent]
      dsimp only
      cases stepped : step state term with
      | error cause =>
          rw [stepped] at failed
          cases failed
          exact ⟨_, _, rfl⟩
      | ok state =>
          rw [stepped] at failed
          exact inductionHypothesis failed

theorem foldlM_cons_ok (terms seen : List (Term α)) :
    terms.foldlM (fun terms term => (.ok (term :: terms) : Except ε (List (Term α)))) seen =
      .ok (terms.reverse ++ seen) := by
  induction terms generalizing seen with
  | nil => rfl
  | cons term later inductionHypothesis =>
      rw [List.reverse_cons, List.append_assoc, List.singleton_append]
      exact inductionHypothesis (term :: seen)

theorem Drains.drain {stream last : σ} {terms : List (Term α)}
    (drains : Drains stream terms last) : drain stream = (terms, .finished, last) := by
  rw [TermStream.drain, drains.fold (foldlM_cons_ok terms []), List.append_nil]
  dsimp only
  rw [List.reverse_reverse]
  rfl

/-- A fold that finds no fault has gone through all that its stream lends. -/
theorem drains_of_fold {step : γ → Term α → Except ε γ} {wrap : StoreFault α → ε} {state after : γ}
    {stream last : σ} (folded : fold step wrap state stream = (after, none, last)) :
    ∃ terms, Drains stream terms last ∧ terms.foldlM step state = .ok after := by
  fun_induction fold step wrap state stream with
  | case1 state stream fault rest lent => cases folded
  | case2 state stream rest lent =>
      cases folded
      exact ⟨[], .ended lent, rfl⟩
  | case3 state stream term rest lent fault refused => cases folded
  | case4 state stream term rest lent next stepped inductionHypothesis =>
      obtain ⟨terms, drains, made⟩ := inductionHypothesis folded
      refine ⟨term :: terms, .lends lent drains, ?_⟩
      rw [List.foldlM_cons, stepped]
      exact made

/-- What every request and every step keeps holds at the end of a fold. -/
theorem fold_invariant (holds : γ → σ → Prop)
    {step : γ → Term α → Except ε γ} {wrap : StoreFault α → ε}
    (asks : ∀ state stream, holds state stream → holds state (nextTerm stream).2)
    (steps : ∀ state stream term rest after, holds state stream →
      nextTerm stream = (.ok (some term), rest) → step state term = .ok after → holds after rest)
    {state : γ} {stream : σ} (here : holds state stream) :
    holds (fold step wrap state stream).1 (fold step wrap state stream).2.2 := by
  fun_induction fold step wrap state stream with
  | case1 state stream fault rest lent =>
      have asked := asks state stream here
      rwa [lent] at asked
  | case2 state stream rest lent =>
      have asked := asks state stream here
      rwa [lent] at asked
  | case3 state stream term rest lent fault refused =>
      have asked := asks state stream here
      rwa [lent] at asked
  | case4 state stream term rest lent after stepped inductionHypothesis =>
      exact inductionHypothesis (steps state stream term rest after here lent stepped)

/-- What every beginning of a sweep and every request keeps. -/
structure Keeps (keeps : σ → Prop) : Prop where
  begins : ∀ stream, keeps stream → keeps (beginSweep stream).2
  asks : ∀ stream, keeps stream → keeps (nextTerm stream).2

theorem Keeps.begins_eq {keeps : σ → Prop} (kept : Keeps keeps) {stream begun : σ}
    {answer : Except (StoreFault α) Unit} (here : keeps stream)
    (began : beginSweep stream = (answer, begun)) : keeps begun := by
  have after := kept.begins stream here
  rwa [began] at after

theorem Keeps.asks_eq {keeps : σ → Prop} (kept : Keeps keeps) {stream rest : σ}
    {answer : Except (StoreFault α) (Option (Term α))} (here : keeps stream)
    (lent : nextTerm stream = (answer, rest)) : keeps rest := by
  have after := kept.asks stream here
  rwa [lent] at after

theorem Keeps.drains {keeps : σ → Prop} (kept : Keeps keeps) {stream last : σ}
    {terms : List (Term α)} (here : keeps stream) (drains : Drains stream terms last) :
    keeps last := by
  induction drains with
  | ended none => exact kept.asks_eq here none
  | lends lent _ inductionHypothesis => exact inductionHypothesis (kept.asks_eq here lent)

theorem Keeps.fold {keeps : σ → Prop} (kept : Keeps keeps) (step : γ → Term α → Except ε γ)
    (wrap : StoreFault α → ε) (state : γ) {stream : σ} (here : keeps stream) :
    keeps (TermStream.fold step wrap state stream).2.2 := by
  refine fold_invariant (fun _ => keeps) (fun _ => kept.asks) ?_ here
  exact fun state stream term rest after here lent _ => kept.asks_eq here lent

/-- A sweep that begins while two streams are idle leaves them alike, and so does every request.
Streams that are alike count the same terms, and can be left idle at any time. -/
structure Bisimulation (idle alike : σ → τ → Prop) : Prop where
  beginSweep : ∀ first second, idle first second →
    (TermStream.beginSweep first).1 = (TermStream.beginSweep second).1 ∧
      alike (TermStream.beginSweep first).2 (TermStream.beginSweep second).2
  nextTerm : ∀ first second, alike first second →
    (TermStream.nextTerm first).1 = (TermStream.nextTerm second).1 ∧
      alike (TermStream.nextTerm first).2 (TermStream.nextTerm second).2
  termCount : ∀ first second, alike first second → termCount first = termCount second
  leave : ∀ first second, alike first second → idle first second

namespace Bisimulation

variable {idle alike : σ → τ → Prop}

theorem beginSweep_eq (bisimulation : Bisimulation idle alike) {first after : σ} {second : τ}
    (same : idle first second) {answer : Except (StoreFault α) Unit}
    (begun : TermStream.beginSweep first = (answer, after)) :
    ∃ other, TermStream.beginSweep second = (answer, other) ∧ alike after other := by
  obtain ⟨answers, left⟩ := bisimulation.beginSweep first second same
  rw [begun] at answers left
  exact ⟨_, Prod.ext answers.symm rfl, left⟩

theorem nextTerm_eq (bisimulation : Bisimulation idle alike) {first after : σ} {second : τ}
    (same : alike first second) {answer : Except (StoreFault α) (Option (Term α))}
    (lent : TermStream.nextTerm first = (answer, after)) :
    ∃ other, TermStream.nextTerm second = (answer, other) ∧ alike after other := by
  obtain ⟨answers, left⟩ := bisimulation.nextTerm first second same
  rw [lent] at answers left
  exact ⟨_, Prod.ext answers.symm rfl, left⟩

/-- A fold finds the same terms and the same fault in both streams. -/
theorem fold (bisimulation : Bisimulation idle alike) (step : γ → Term α → Except ε γ)
    (wrap : StoreFault α → ε) (state : γ) {first : σ} {second : τ} (same : alike first second) :
    ∃ end₁ end₂ state' fault, TermStream.fold step wrap state first = (state', fault, end₁) ∧
      TermStream.fold step wrap state second = (state', fault, end₂) ∧ alike end₁ end₂ := by
  -- The recursion is that of the first stream; the second one only has to stay alike.
  fun_induction TermStream.fold step wrap state first generalizing second with
  | case1 state first fault rest lent =>
      obtain ⟨other, otherLent, left⟩ := bisimulation.nextTerm_eq same lent
      exact ⟨rest, other, _, _, rfl, by rw [fold_eq, otherLent], left⟩
  | case2 state first rest lent =>
      obtain ⟨other, otherLent, left⟩ := bisimulation.nextTerm_eq same lent
      exact ⟨rest, other, _, _, rfl, by rw [fold_eq, otherLent], left⟩
  | case3 state first term rest lent fault refused =>
      obtain ⟨other, otherLent, left⟩ := bisimulation.nextTerm_eq same lent
      exact ⟨rest, other, _, _, rfl, by simp only [fold_eq, otherLent, refused], left⟩
  | case4 state first term rest lent after stepped inductionHypothesis =>
      obtain ⟨other, otherLent, left⟩ := bisimulation.nextTerm_eq same lent
      rw [fold_eq step wrap state second, otherLent]
      simp only [stepped]
      exact inductionHypothesis left

end Bisimulation

end TermStream

end HingeLoss
