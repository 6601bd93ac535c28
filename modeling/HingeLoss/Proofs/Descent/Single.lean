import HingeLoss.Proofs.Descent.Decrease
import HingeLoss.Proofs.Descent.Epochs
import HingeLoss.Proofs.Solver.Exact
import HingeLoss.Proofs.Term.Record

/-! Descents over one potential never make it worse. -/

namespace HingeLoss

namespace Descent

open TermStream (LendsAlways)

/-- A potential over distinct atoms that a descent follows with plain steps. -/
structure Plain (settings : DescentSettings ℝ) (atoms : AtomStore ℝ) (term : Term ℝ) (weight : ℝ) :
    Prop where
  soft : term.weight = .soft weight
  nonnegative : 0 ≤ weight
  distinct : (term.entries.map Prod.fst).Nodup
  held : ∀ atom ∈ term.atoms, atom.index < atoms.records.size
  steady : settings.adagrad = false
  positive : 0 < settings.learningRate

/-- The step of an epoch over an unhinged square leads no further than to the point opposite. -/
def ShortStep (settings : DescentSettings ℝ) (atoms : AtomStore ℝ) (term : Term ℝ) (weight : ℝ)
    (epoch : Nat) : Prop :=
  term.shape = .squaredLinear →
    settings.schedule.step settings.learningRate epoch * weight *
      ((term.freeCoefficients atoms.records).map fun coefficient => coefficient ^ 2).sum ≤ 1

/-- What a descent over one term keeps: the values stay in the unit interval, and only the free
atoms of the term move. -/
structure Kept (term : Term ℝ) (atoms : AtomStore ℝ) (values : Array ℝ) : Prop where
  ranged : Epoch.Ranged atoms.records values
  still : ∀ index record, atoms.records[index]? = some record →
    (record.fixed = true ∨ ∀ atom ∈ term.atoms, atom.index ≠ index) →
    values.getD index 0 = record.value

variable {settings : DescentSettings ℝ} {atoms : AtomStore ℝ} {term : Term ℝ} {weight : ℝ}
  {values : Array ℝ}

theorem kept_values (unit : atoms.InUnit) : Kept term atoms atoms.values where
  ranged := ⟨Array.size_map, unit.values⟩
  still index record found _ := by rw [AtomStore.getD_values, found]; rfl

/-- Values that a descent has led to can be written back as they are. -/
theorem Kept.takes (kept : Kept term atoms values) : atoms.Takes values where
  size := kept.ranged.size
  inUnit := kept.ranged.inUnit
  observed atom record found fixed := kept.still atom.index record found (.inl fixed)
  unnamed index unnamed record value found given := by
    have apart : ∀ atom ∈ term.atoms, atom.index ≠ index := fun atom _ =>
      (atom.number.toNat_lt_size.trans_le unnamed).ne
    rw [← kept.still index record found (.inr apart), Array.getD_eq_getD_getElem?, given,
      Option.getD_some]

variable {σ : Type} [TermStream σ ℝ] {keeps : σ → Prop} {stream : σ}

/-- An epoch succeeds, and if its step is short, it does not make the term worse. -/
theorem Plain.exists_runEpoch (plain : Plain settings atoms term weight)
    (lends : LendsAlways keeps [term]) (here : keeps stream) {ending : Ending ℝ ℝ}
    (kept : Kept term atoms ending.values) :
    ∃ after last, runEpoch settings atoms.records ending stream = (.ok after, last) ∧ keeps last ∧
      Kept term atoms after.values ∧ after.epochs = ending.epochs ∧
      (ShortStep settings atoms term weight ending.epochs →
        term.dissatisfaction (valueAt after.values) ≤
          term.dissatisfaction (valueAt ending.values)) := by
  obtain ⟨begun, last, began, drains, keepsLast, -⟩ := lends.sweeps stream here
  let plan : EpochPlan ℝ := ⟨atoms.records, settings.adagrad,
    settings.schedule.step settings.learningRate ending.epochs⟩
  let start : Epoch ℝ ℝ := ⟨ending.values, ending.accumulated, 0, 0⟩
  have stepNonnegative : 0 ≤ plan.step :=
    settings.schedule.step_nonneg plain.positive ending.epochs
  have steady : plan.adagrad = false := plain.steady
  have rangedBefore : Epoch.Ranged plan.records start.values := kept.ranged
  obtain ⟨after, followed, ranged, still, -⟩ :=
    Epoch.follow_lowers plain.soft steady rangedBefore plain.held plain.distinct
  have made : [term].foldlM (Epoch.follow plan) start = .ok after := by
    rw [List.foldlM_cons, followed]
    rfl
  refine ⟨_, last, runEpoch_of_drains began drains made, keepsLast, ⟨ranged, ?_⟩, rfl, ?_⟩
  · intro index record found resting
    exact (still index record found resting).trans (kept.still index record found resting)
  · intro short
    exact Epoch.follow_never_worse plain.soft plain.nonnegative steady stepNonnegative
      rangedBefore plain.held plain.distinct short followed

/-- The evaluation after a descent succeeds, and a cancelled run is reported as such. -/
theorem Plain.exists_evaluate (plain : Plain settings atoms term weight)
    (lends : LendsAlways keeps [term]) (here : keeps stream) {ending : Ending ℝ ℝ}
    (kept : Kept term atoms ending.values) :
    ∃ (report : RunReport ℝ) (last : σ), evaluate ending stream = (.ok report, last) ∧
      report.iterations = ending.epochs ∧
      (ending.status = .cancelled → report.status = .cancelled) := by
  by_cases cancelled : ending.status = .cancelled
  · exact ⟨_, stream, by rw [evaluate, if_pos cancelled], rfl, fun _ => rfl⟩
  · obtain ⟨begun, last, began, drains, -, counted⟩ := lends.sweeps stream here
    have reads : ∀ other ∈ [term], other.readsBelow ending.values.size = true := by
      intro other member
      rw [List.mem_singleton.mp member, kept.ranged.size]
      exact List.all_eq_true.mpr fun entry entryMember =>
        decide_eq_true (plain.held entry.1 (List.of_mem_zip entryMember).1)
    have evaluated := evaluate_of_drains cancelled began drains reads
    rw [if_neg counted.not_gt] at evaluated
    exact ⟨_, last, evaluated, rfl, fun stopped => absurd stopped cancelled⟩

/-- How a run over one term ends: with the values after some of its epochs, as many as it reports if
it was not cancelled, and no worse than it began if the steps were short. -/
def EndsAfter (settings : DescentSettings ℝ) (atoms : AtomStore ℝ) (term : Term ℝ) (weight : ℝ)
    (stream : σ) (report : RunReport ℝ) (left : AtomStore ℝ) : Prop :=
  ∃ (count : Nat) (reached : Ending ℝ ℝ) (passed : σ), count ≤ settings.maxEpochs ∧
    epochsAfter settings atoms.records (startOf settings atoms) stream count =
      (.ok reached, passed) ∧
    left.values = reached.values ∧ (report.status = .cancelled ∨ report.iterations = count) ∧
    ((∀ epoch < count, ShortStep settings atoms term weight epoch) →
      term.dissatisfaction (valueAt left.values) ≤ term.dissatisfaction (valueAt atoms.values))

/-- A descent over a stream of one term. All epochs succeed, and none whose step is short makes the
term worse. Under any token, a run succeeds and ends after some of the epochs. -/
structure NeverWorse (settings : DescentSettings ℝ) (atoms : AtomStore ℝ) (term : Term ℝ)
    (weight : ℝ) (stream : σ) : Prop where
  epochs : ∀ count, ∃ (before after : Ending ℝ ℝ) (passed last : σ),
    epochsAfter settings atoms.records (startOf settings atoms) stream count =
        (.ok before, passed) ∧
      epochsAfter settings atoms.records (startOf settings atoms) stream (count + 1) =
        (.ok after, last) ∧
      (ShortStep settings atoms term weight count →
        term.dissatisfaction (valueAt after.values) ≤
          term.dissatisfaction (valueAt before.values))
  run : ∀ token : Token σ, ∃ (report : RunReport ℝ) (last : σ) (left : AtomStore ℝ),
    optimizeUnder settings token stream atoms = (.ok report, last, left) ∧
      EndsAfter settings atoms term weight stream report left

/-- What holds after a number of epochs. -/
structure Followed (settings : DescentSettings ℝ) (atoms : AtomStore ℝ) (term : Term ℝ)
    (weight : ℝ) (keeps : σ → Prop) (count : Nat) (ending : Ending ℝ ℝ) (stream : σ) : Prop where
  keeps : keeps stream
  kept : Kept term atoms ending.values
  epochs : ending.epochs = count
  better : (∀ epoch < count, ShortStep settings atoms term weight epoch) →
    term.dissatisfaction (valueAt ending.values) ≤ term.dissatisfaction (valueAt atoms.values)

theorem Plain.exists_followed (plain : Plain settings atoms term weight)
    (lends : LendsAlways keeps [term]) (here : keeps stream) (unit : atoms.InUnit) (count : Nat) :
    ∃ (ending : Ending ℝ ℝ) (passed : σ),
      epochsAfter settings atoms.records (startOf settings atoms) stream count =
        (.ok ending, passed) ∧
      Followed settings atoms term weight keeps count ending passed := by
  refine exists_epochsAfter _ ?_ ⟨here, kept_values unit, rfl, fun _ => le_refl _⟩ count
  intro count ending stream followed
  obtain ⟨after, last, ran, keepsLast, kept, epochs, never⟩ :=
    plain.exists_runEpoch lends followed.keeps followed.kept
  rw [followed.epochs] at epochs never
  refine ⟨after, last, ran, keepsLast, kept, congrArg (· + 1) epochs, fun short => ?_⟩
  exact (never (short count (Nat.lt_succ_self count))).trans
    (followed.better fun epoch earlier => short epoch (earlier.trans (Nat.lt_succ_self count)))

theorem Plain.neverWorse (plain : Plain settings atoms term weight)
    (lends : LendsAlways keeps [term]) (here : keeps stream) (unit : atoms.InUnit) :
    NeverWorse settings atoms term weight stream where
  epochs count := by
    obtain ⟨before, passed, reached, followed⟩ := plain.exists_followed lends here unit count
    obtain ⟨after, last, ran, -, -, -, never⟩ :=
      plain.exists_runEpoch lends followed.keeps followed.kept
    refine ⟨before, { after with epochs := after.epochs + 1 }, passed, last, reached, ?_, ?_⟩
    · rw [epochsAfter, reached]
      dsimp only
      rw [ran]
    · rw [← followed.epochs]
      exact never
  run token := by
    have succeeds := plain.exists_followed lends here unit
    obtain ⟨ending, passed, count, reached, epochsRan, bounded, found, values, epochs⟩ :=
      exists_runEpochsUnder token
        (fun count => (succeeds count).imp fun _ => .imp fun _ => And.left)
        (rfl : epochsAfter settings atoms.records (startOf settings atoms) stream 0 = _)
        settings.maxEpochs
    obtain ⟨other, otherPassed, otherFound, followed⟩ := succeeds count
    obtain ⟨rfl, rfl⟩ : reached = other ∧ passed = otherPassed := by
      rw [found] at otherFound
      cases otherFound
      exact ⟨rfl, rfl⟩
    obtain ⟨left, written, leftValues⟩ := (values ▸ followed.kept.takes).writeBack_eq
    obtain ⟨report, last, evaluated, iterations, stopped⟩ :=
      plain.exists_evaluate lends followed.keeps (values ▸ followed.kept)
    have positive : Scalar.isPositive settings.learningRate = true := decide_eq_true plain.positive
    refine ⟨report, last, left, optimizeUnder_of_evaluate positive epochsRan written evaluated,
      count, reached, passed, bounded.trans_eq (Nat.zero_add _), found, leftValues.trans values,
      epochs.imp stopped fun same => iterations.trans (same.trans followed.epochs), ?_⟩
    rw [leftValues, values]
    exact followed.better

end Descent

open Descent (NeverWorse EndsAfter optimizeResident)

/-- A descent over one potential with distinct atoms never makes it worse, but for a square without
a hinge and a step that leads past the point opposite. -/
theorem single_term_never_worse {settings : DescentSettings ℝ} {atoms : AtomStore ℝ}
    {term : Term ℝ} {weight : ℝ} (soft : term.weight = .soft weight) (accepted : term.Accepted)
    (distinct : term.atoms.Nodup) (built : atoms.Built)
    (held : ∀ atom ∈ term.atoms, atom.index < atoms.size) (steady : settings.adagrad = false)
    (positive : 0 < settings.learningRate) :
    (∀ (σ : Type) [TermStream σ ℝ] (keeps : σ → Prop) (stream : σ),
        TermStream.LendsAlways keeps [term] → keeps stream →
        NeverWorse settings atoms term weight stream) ∧
      ∀ store : ResidentStore ℝ, store.phase = .ready → store.terms = #[term] →
        ∃ sweep, ResidentSweep.ofStore store
            (if settings.shuffleTerms then some settings.seed else none) = .ok sweep ∧
          NeverWorse settings atoms term weight sweep ∧
          ∀ cancelled, ∃ (report : RunReport ℝ) (left : AtomStore ℝ),
            optimizeResident settings cancelled store atoms = (.ok report, left) ∧
              EndsAfter settings atoms term weight sweep report left := by
  have wellFormed : term.WellFormed := Term.build_wellFormed accepted
  have plain : Descent.Plain settings atoms term weight :=
    { soft, held, steady, positive
      nonnegative := accepted.nonnegative weight soft
      distinct := by rwa [wellFormed.map_fst_entries] }
  refine ⟨fun σ _ keeps stream lends here => plain.neverWorse lends here built.inUnit, ?_⟩
  intro store ready single
  let seed := Descent.shuffleSeed settings
  obtain ⟨sweep, taken⟩ : ∃ sweep, ResidentSweep.ofStore store seed = .ok sweep := by
    rw [ResidentSweep.ofStore, ResidentStore.ensureReady, ready]
    exact ⟨_, rfl⟩
  have whole : sweep.Whole #[term] seed := single ▸ ResidentSweep.whole_ofStore taken
  have neverWorse : NeverWorse settings atoms term weight sweep :=
    plain.neverWorse (ResidentSweep.lendsAlways_singleton term seed) whole built.inUnit
  refine ⟨sweep, taken, neverWorse, fun cancelled => ?_⟩
  obtain ⟨report, last, left, ran, ends⟩ := neverWorse.run (.ofStream fun _ => cancelled)
  refine ⟨report, left, ?_, ends⟩
  rw [optimizeResident, Descent.optimizeResidentUnder, taken]
  dsimp only
  rw [ran]

/-- A square without a hinge, and steps to the point opposite. -/
theorem single_term_never_worse_sample :
    let settings : DescentSettings ℝ := { DescentSettings.standard with schedule := .constant }
    let store : ResidentStore ℝ := ⟨#[ConsensusState.unitTerm], .empty, ∅, .ready⟩
    ∃ (report : RunReport ℝ) (left : AtomStore ℝ),
      optimizeResident settings false store ConsensusState.sampleAtoms = (.ok report, left) ∧
        ConsensusState.unitTerm.dissatisfaction (valueAt left.values) ≤ 1 := by
  intro settings store
  have distinct : ConsensusState.unitTerm.atoms.Nodup := List.nodup_singleton _
  have positive : 0 < settings.learningRate := zero_lt_one
  obtain ⟨-, resident⟩ := single_term_never_worse rfl ConsensusState.unitTerm_accepted distinct
    ConsensusState.sampleAtoms_built ConsensusState.unitTerm_held
    (rfl : settings.adagrad = false) positive
  obtain ⟨sweep, -, -, runs⟩ := resident store rfl rfl
  obtain ⟨report, left, ran, count, reached, passed, -, -, -, -, better⟩ := runs false
  refine ⟨report, left, ran, (better fun epoch _ _ => ?_).trans ?_⟩
  · rw [ConsensusState.freeCoefficients_unitTerm]
    simp [settings, DescentSettings.standard, StepSchedule.step]
  · simp [ConsensusState.unitTerm, ConsensusState.sampleAtoms, Term.dissatisfaction,
      Shape.apply_squaredLinear, Term.raw, Term.entries, valueAt, AtomStore.values, AtomId.index]

end HingeLoss
