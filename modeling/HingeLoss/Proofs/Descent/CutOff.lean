import HingeLoss.Number.Double
import HingeLoss.Proofs.Descent.Token
import HingeLoss.Proofs.Paged.Timed

/-! Descents that are cut off are reported as cancelled, although they look like convergence. -/

namespace HingeLoss

/-- A descent over a sealed paged store never reports a cut-off run as finished. A moment is a look
at a token: the solver looks before and after each epoch, the store once in each request. -/
theorem cut_off_run_cancelled {β : Type} [Scalar β] [Widening Single β]
    (settings : DescentSettings Single) (token : Descent.Token TimedStream)
    (stream last : TimedStream) (reached : stream.store.Reached)
    (ready : stream.store.phase = .ready)
    (someTerms : 0 < stream.store.termCount) (atoms after : AtomStore Single)
    (report : RunReport β)
    (ran : Descent.optimizeUnder settings token stream atoms = (.ok report, last, after)) :
    (report.status ≠ .cancelled → last.lent.length = stream.store.termCount ∧
        ∃ values, atoms.writeBack values = (.ok (), after) ∧
          report.objective = totalObjective (valueAt values) last.lent ∧
          report.violatedConstraints = violations (valueAt values) last.lent) ∧
      (report.status = .cancelled → report.objective = 0 ∧ report.violatedConstraints = 0) ∧
      ∀ moment, (∀ request, moment ≤ request → stream.token request = true) →
        (∀ request, last.lastPage = some request → moment ≤ request) →
        report.status = .cancelled ∧ report.objective = 0 ∧ report.violatedConstraints = 0 := by
  obtain ⟨ending, passed, epochsRan, written, evaluated⟩ := Descent.optimizeUnder_ok ran
  have stands : stream.Sealed stream.token stream.store.termCount := ⟨reached, ready, rfl, rfl⟩
  have kept := TimedStream.keeps_sealed stream.token stream.store.termCount
  have still := Descent.runEpochsUnder_keeps kept stands epochsRan
  obtain ⟨-, ⟨status, objective, violated⟩ | ⟨going, status, begun, terms, began, drains, whole,
    objective, violated⟩⟩ := Descent.evaluate_ok evaluated
  · exact ⟨fun finished => absurd status finished, fun _ => ⟨objective, violated⟩,
      fun _ _ _ => ⟨status, objective, violated⟩⟩
  · obtain ⟨progress, noneYet⟩ := still.progress someTerms began
    obtain ⟨ended, noted⟩ := progress.drains drains
    have stillSealed := kept.drains (kept.begins_eq still began) drains
    rw [noneYet, List.nil_append] at noted
    have counted := ended.counted
    have enough : stream.store.termCount ≤ last.lent.length := by
      rw [noted, ← stillSealed.counted]
      exact whole
    have noneLeft : last.store.termsLeft = 0 := by omega
    rw [← noted] at objective violated
    refine ⟨fun _ => ⟨by omega, ending.values, written, objective, violated⟩,
      fun cancelled => absurd (status.symm.trans cancelled) going, fun moment fires late => ?_⟩
    -- the last page was entered before the token fired
    obtain ⟨request, entered, resting⟩ :=
      ended.inTime (ended.sweeping.pages_of_termsLeft noneLeft)
    have fired := fires request (late request entered)
    rw [stillSealed.token, fired] at resting
    cases resting

section Sample

/-- A linear term of the first atom. -/
def linearTerm (rule : UInt32) : Term Single := ⟨⟨rule⟩, .linear, .soft 1, 0, [⟨0⟩], [1]⟩

/-- One atom with the value one. -/
def oneAtom : AtomStore Single := ⟨#[⟨1, false⟩], .singletons 1, rfl⟩

/-- A paged store of two terms, one to a page, with its folder. -/
def twoPages : PagedStore × FoundFolder :=
  let fresh := PagedStore.fresh (.sequential 1) (Path.ofText "pages") true
  let one := fresh.add (linearTerm 0) oneAtom (.ok [])
  let two := one.2.1.add (linearTerm 1) one.2.2.1 one.2.2.2
  match two.2.1.finish two.2.2.2 with
  | (.ok store, folder) => (store, folder)
  | (.error _, folder) => (two.2.1, folder)

theorem reached_twoPages : twoPages.1.Reached := by
  have grounded := ((PagedStore.Reached.fresh (.sequential 1) (Path.ofText "pages") true).add
    (linearTerm 0) oneAtom (.ok [])).add (linearTerm 1)
  unfold twoPages
  dsimp only
  split
  · rename_i finished
    exact (grounded _ _).finish finished
  · exact grounded _ _

/-- The two pages under a token that fires at a request. -/
def twoPagesUntil (moment : Nat) : TimedStream :=
  .ofStore twoPages.1 (fun request => decide (moment ≤ request)) fun _ => twoPages.2

/-- One epoch with steps of one. -/
def oneEpoch : DescentSettings Single :=
  { DescentSettings.standard with maxEpochs := 1, schedule := .constant }

/-- The stream after the beginning of a sweep and so many requests. -/
def TimedStream.afterRequests (stream : TimedStream) : Nat → TimedStream
  | 0 => (TermStream.beginSweep stream).2
  | requests + 1 => (TermStream.nextTerm (stream.afterRequests requests)).2

/-- What one epoch over some terms makes of the atom. -/
def followed (terms : List (Term Single)) : Except (SolverFault Single) (Epoch Single Double) :=
  terms.foldlM (Epoch.follow ⟨oneAtom.records, oneEpoch.adagrad,
    oneEpoch.schedule.step oneEpoch.learningRate 0⟩) ⟨oneAtom.values, #[], 0, 0⟩

/-- A run of one epoch that brings the atom from one to zero. -/
theorem run_oneEpoch {stream swept last : TimedStream} {terms lent : List (Term Single)}
    (began : (TermStream.beginSweep stream).1 = .ok ())
    (drains : TermStream.Drains (stream.afterRequests 0) terms swept)
    (moves : (followed terms).toOption.map (fun epoch => (epoch.values, epoch.movedSquared)) =
      some (#[0], 1))
    (beganAgain : (TermStream.beginSweep swept).1 = .ok ())
    (drainsAgain : TermStream.Drains (swept.afterRequests 0) lent last)
    (reads : ∀ term ∈ lent, term.readsBelow 1 = true) :
    Descent.optimizeUnder oneEpoch (.ofStream fun _ => false) stream oneAtom =
      (.ok (if lent.length < TermStream.termCount last then
        (⟨.cancelled, 1, Scalar.sqrt 1, 0, 0, 0⟩ : RunReport Double) else
        ⟨.maxIterationsReached, 1, Scalar.sqrt 1, 0, totalObjective (valueAt #[0]) lent,
          violations (valueAt #[0]) lent⟩), last, (oneAtom.writeBack #[0]).2) := by
  cases done : followed terms with
  | error fault =>
      rw [done] at moves
      cases moves
  | ok epoch =>
      rw [done] at moves
      obtain ⟨values, movedSquared⟩ := Prod.mk.inj (Option.some.inj moves)
      have positive : Scalar.isPositive oneEpoch.learningRate = true := by decide +kernel
      have far : ¬ Scalar.sqrt (1 : Double) < widen oneEpoch.tolerance := by decide +kernel
      have epochRan : Descent.runEpoch oneEpoch oneAtom.records
          (Descent.startOf oneEpoch oneAtom : Descent.Ending Single Double) stream =
          (.ok ⟨.maxIterationsReached, 0, Scalar.sqrt 1, #[0], epoch.accumulated⟩, swept) := by
        rw [← values, ← movedSquared]
        exact Descent.runEpoch_of_drains (Prod.ext began rfl) drains done
      have epochsRan : Descent.runEpochsUnder oneEpoch oneAtom.records (.ofStream fun _ => false)
          oneEpoch.maxEpochs (Descent.startOf oneEpoch oneAtom : Descent.Ending Single Double)
          stream = (.ok ⟨.maxIterationsReached, 1, Scalar.sqrt 1, #[0], epoch.accumulated⟩,
            swept) := by
        rw [show oneEpoch.maxEpochs = 1 from rfl]
        simp only [Descent.runEpochsUnder, Descent.Token.ofStream, epochRan, far,
          Bool.false_eq_true, if_false]
      have written : oneAtom.writeBack #[0] = (.ok (), (oneAtom.writeBack #[0]).2) :=
        Prod.ext (by decide +kernel) rfl
      exact Descent.optimizeUnder_of_evaluate positive epochsRan written
        (Descent.evaluate_of_drains nofun (Prod.ext beganAgain rfl) drainsAgain reads)

/-- One epoch over the two pages and the last sweep. The token fires where the epoch or the last
sweep would enter the second page, or at the request that finds that the last sweep is over. -/
theorem cut_off_run_cancelled_sample :
    let run (moment : Nat) :
        Except (DescentFault Single) (RunReport Double) × TimedStream × AtomStore Single :=
      Descent.optimizeUnder oneEpoch (.ofStream fun _ => false) (twoPagesUntil moment) oneAtom
    (∀ moment ∈ [1, 4], ∃ report last after, run moment = (.ok report, last, after) ∧
        report.iterations = 1 ∧ report.status = .cancelled ∧ report.objective = 0 ∧
        report.violatedConstraints = 0) ∧
      ∃ report last after, run 5 = (.ok report, last, after) ∧ report.iterations = 1 ∧
        report.status = .maxIterationsReached ∧ last.lent.length = twoPages.1.termCount := by
  intro run
  let epochFrom (moment requests : Nat) : TimedStream :=
    (twoPagesUntil moment).afterRequests requests
  let lastFrom (moment requests more : Nat) : TimedStream :=
    (epochFrom moment requests).afterRequests more
  have ready : twoPages.1.phase = .ready := by decide +kernel
  have someTerms : 0 < twoPages.1.termCount := by decide +kernel
  have earlyEpoch : TermStream.Drains (epochFrom 1 0) [linearTerm 0] (epochFrom 1 2) :=
    .lends (Prod.ext (by decide +kernel) rfl) (.ended (Prod.ext (by decide +kernel) rfl))
  have wholeEpoch (moment : Nat) (late : moment = 4 ∨ moment = 5) :
      TermStream.Drains (epochFrom moment 0) [linearTerm 0, linearTerm 1] (epochFrom moment 3) := by
    rcases late with rfl | rfl <;>
      exact .lends (Prod.ext (by decide +kernel) rfl) (.lends (Prod.ext (by decide +kernel) rfl)
        (.ended (Prod.ext (by decide +kernel) rfl)))
  have nothing : TermStream.Drains (lastFrom 1 2 0) [] (lastFrom 1 2 1) :=
    .ended (Prod.ext (by decide +kernel) rfl)
  have cutOff : TermStream.Drains (lastFrom 4 3 0) [linearTerm 0] (lastFrom 4 3 2) :=
    .lends (Prod.ext (by decide +kernel) rfl) (.ended (Prod.ext (by decide +kernel) rfl))
  have whole : TermStream.Drains (lastFrom 5 3 0) [linearTerm 0, linearTerm 1]
      (lastFrom 5 3 3) :=
    .lends (Prod.ext (by decide +kernel) rfl) (.lends (Prod.ext (by decide +kernel) rfl)
      (.ended (Prod.ext (by decide +kernel) rfl)))
  have noneLate : (lastFrom 1 2 1).lastPage = none ∧ (lastFrom 4 3 2).lastPage = none := by
    decide +kernel
  have counted : TermStream.termCount (lastFrom 5 3 3) = 2 := by decide +kernel
  constructor
  · intro moment member
    simp only [List.mem_cons, List.not_mem_nil, or_false] at member
    rcases member with rfl | rfl
    · have ran : run 1 = _ := run_oneEpoch (by decide +kernel) earlyEpoch (by decide +kernel)
        (by decide +kernel) nothing (by decide +kernel)
      obtain ⟨-, -, late⟩ :=
        cut_off_run_cancelled _ _ _ _ reached_twoPages ready someTerms _ _ _ ran
      refine ⟨_, _, _, ran, by split <;> rfl, late 1 (fun _ => decide_eq_true) ?_⟩
      rw [noneLate.1]
      exact nofun
    · have ran : run 4 = _ := run_oneEpoch (by decide +kernel) (wholeEpoch 4 (.inl rfl))
        (by decide +kernel) (by decide +kernel) cutOff (by decide +kernel)
      obtain ⟨-, -, late⟩ :=
        cut_off_run_cancelled _ _ _ _ reached_twoPages ready someTerms _ _ _ ran
      refine ⟨_, _, _, ran, by split <;> rfl, late 4 (fun _ => decide_eq_true) ?_⟩
      rw [noneLate.2]
      exact nofun
  · have ran : run 5 = _ := run_oneEpoch (by decide +kernel) (wholeEpoch 5 (.inr rfl))
      (by decide +kernel) (by decide +kernel) whole (by decide +kernel)
    rw [counted] at ran
    obtain ⟨finished, -⟩ :=
      cut_off_run_cancelled _ _ _ _ reached_twoPages ready someTerms _ _ _ ran
    exact ⟨_, _, _, ran, rfl, rfl, (finished nofun).1⟩

end Sample

end HingeLoss
