import HingeLoss.Proofs.Consensus.Copies
import HingeLoss.Proofs.Consensus.Ending
import HingeLoss.Proofs.Descent.Token
import HingeLoss.Proofs.Solver.Holds

/-! A report describes the atoms that a run leaves behind. -/

namespace HingeLoss

open Scalar (SameNumber)

variable {atoms after : AtomStore Single}

/-- A report gives the objective and the violations of terms at the values of the atoms. -/
structure RunReport.Describes (report : RunReport Double) (atoms : AtomStore Single)
    (terms : List (Term Single)) : Prop where
  objective : SameNumber report.objective (totalObjective (valueAt atoms.values) terms)
  violated : report.violatedConstraints = violations (valueAt atoms.values) terms

theorem AtomStore.Holds.describes {values : Array Single} (holds : atoms.Holds values)
    {report : RunReport Double} {terms : List (Term Single)}
    (objective : report.objective = totalObjective (HingeLoss.valueAt values) terms)
    (violated : report.violatedConstraints = violations (HingeLoss.valueAt values) terms) :
    report.Describes atoms terms :=
  ⟨objective ▸ sameNumber_totalObjective terms holds.valueAt,
    violated.trans (violations_congr terms holds.valueAt)⟩

/-- A run can begin with the values that the atoms have. -/
theorem AtomStore.Valid.offers (valid : atoms.Valid) : atoms.Offers atoms.values where
  size := Array.size_map
  evidence index record found _ := by
    rw [AtomStore.values, Array.getElem?_map, found, Option.map_some]
  clamped value member := by
    obtain ⟨record, held, rfl⟩ := Array.mem_map.mp member
    exact clampUnit_of_inUnit (valid record (Array.mem_toList_iff.mpr held))

namespace ConsensusSolver

open ConsensusState

/-- A fixed atom has no copies. -/
theorem getD_copyCounts_of_fixed (terms : List (Term Single)) {index : Nat}
    {record : AtomRecord Single} (found : atoms.records[index]? = some record)
    (fixed : record.fixed = true) : (start terms atoms).copyCounts.getD index 0 = 0 := by
  refine getD_copyCounts_of_no_copies (List.filter_eq_nil_iff.mpr fun copy member here => ?_)
  obtain ⟨localTerm, localMember, copyMember⟩ := List.mem_flatMap.mp member
  obtain ⟨term, -, rfl⟩ := List.mem_map.mp localMember
  obtain ⟨-, other, otherFound, free⟩ := LocalTerm.mem_copies_ofTerm copyMember
  rw [of_decide_eq_true here, found, Option.some.injEq] at otherFound
  rw [← otherFound, fixed] at free
  cases free

/-- One iteration clamps what it changes, and it changes no atom without copies. -/
theorem offers_iterate {plan : Plan Single Double} {state : ConsensusState Single}
    (fixedApart : ∀ (index : Nat) (record : AtomRecord Single),
      atoms.records[index]? = some record → record.fixed = true → plan.counts.getD index 0 = 0)
    (offers : atoms.Offers state.values) : atoms.Offers (iterate plan state).1.values where
  size := by
    change (average _ _ _ _).size = _
    rw [average, Array.size_mapIdx, offers.size]
  evidence index record found fixed :=
    (getElem?_iterate_of_no_copies plan state (fixedApart index record found fixed)).trans
      (offers.evidence index record found fixed)
  clamped value member := by
    obtain ⟨index, inside, rfl⟩ := Array.getElem_of_mem member
    have found := Array.getElem?_eq_getElem inside
    change (average _ _ _ _)[index]? = _ at found
    rw [getElem?_average, Option.map_eq_some_iff] at found
    obtain ⟨before, foundBefore, same⟩ := found
    rw [← same]
    split
    · exact offers.clamped before (Array.mem_of_getElem? foundBefore)
    · exact clampUnit_clampUnit _

/-- The values that a run of the consensus solver ends with. -/
theorem offers_iterateUpTo (valid : atoms.Valid) (settings : ConsensusSettings Single)
    (tree : List (LocalTerm Single) → SumTree) (terms : List (Term Single))
    (cancelled : Nat → Bool) (left : Nat) :
    let begun := start terms atoms
    let ending : Ending Single Double :=
      iterateUpTo (plan settings tree begun) cancelled left ⟨.maxIterationsReached, 0, none, begun⟩
    atoms.Offers ending.state.values :=
  iterateUpTo_invariant (fun state => atoms.Offers state.values)
    (fun _ => offers_iterate fun _ _ => getD_copyCounts_of_fixed terms) cancelled left valid.offers

end ConsensusSolver

namespace Epoch

variable {plan : EpochPlan Single} {epoch next : Epoch Single Double}

/-- A move clamps the value of a free atom. -/
theorem offers_moveAtom (records : plan.records = atoms.records) (scale : Single)
    (entry : AtomId × Single) (offers : atoms.Offers epoch.values) :
    atoms.Offers (moveAtom plan scale epoch entry).values := by
  unfold moveAtom
  dsimp only
  split
  · exact offers
  · rename_i record found
    split
    · exact offers
    · rename_i free
      refine ⟨?_, fun index held foundHeld fixed => ?_, fun value member => ?_⟩
      · rw [Array.size_setIfInBounds, offers.size]
      · -- the atom that moves is free
        have apart : entry.1.index ≠ index := by
          rintro rfl
          rw [records, foundHeld, Option.some.injEq] at found
          exact free (found ▸ fixed)
        rw [Array.getElem?_setIfInBounds_ne apart]
        exact offers.evidence index held foundHeld fixed
      · rcases Array.mem_or_eq_of_mem_setIfInBounds member with old | rfl
        · exact offers.clamped value old
        · exact clampUnit_clampUnit _

theorem offers_foldl_moveAtom (records : plan.records = atoms.records) (scale : Single)
    (entries : List (AtomId × Single)) (offers : atoms.Offers epoch.values) :
    atoms.Offers (entries.foldl (moveAtom plan scale) epoch).values := by
  induction entries generalizing epoch with
  | nil => exact offers
  | cons entry later inductionHypothesis =>
      exact inductionHypothesis (offers_moveAtom records scale entry offers)

theorem offers_follow (records : plan.records = atoms.records) {term : Term Single}
    (offers : atoms.Offers epoch.values) (followed : follow plan epoch term = .ok next) :
    atoms.Offers next.values := by
  unfold follow at followed
  split at followed
  · cases followed
  · split at followed
    · cases followed
    · dsimp only at followed
      split at followed
      · cases followed
        exact offers
      · cases followed
        refine offers_foldl_moveAtom records _ term.entries ?_
        exact offers

end Epoch

namespace Descent

variable {σ : Type} [TermStream σ Single] {settings : DescentSettings Single}

theorem offers_fold (plan : EpochPlan Single) (records : plan.records = atoms.records)
    (epoch : Epoch Single Double) (stream : σ) (offers : atoms.Offers epoch.values) :
    atoms.Offers (TermStream.fold (Epoch.follow plan) SolverFault.store epoch stream).1.values :=
  TermStream.fold_invariant
    (fun (epoch : Epoch Single Double) (_ : σ) => atoms.Offers epoch.values)
    (fun _ _ here => here)
    (fun _ _ _ _ _ here _ followed => Epoch.offers_follow records here followed) offers

theorem offers_runEpoch {ending next : Ending Single Double} {stream last : σ}
    (offers : atoms.Offers ending.values)
    (ran : runEpoch settings atoms.records ending stream = (.ok next, last)) :
    atoms.Offers next.values := by
  unfold runEpoch at ran
  dsimp only at ran
  split at ran
  · cases ran
  · rename_i begun _
    have offered := offers_fold
      ⟨atoms.records, settings.adagrad, settings.schedule.step settings.learningRate ending.epochs⟩
      rfl ⟨ending.values, ending.accumulated, 0, 0⟩ begun offers
    split at ran
    · cases ran
    · rename_i folded
      rw [folded] at offered
      cases ran
      exact offered

end Descent

/-- A report describes what the run leaves behind: the values, the objective and violations at them,
and the first iteration below the bounds if it says that it converged. -/
theorem report_describes (atoms after : AtomStore Single) (valid : atoms.Valid)
    (addressed : atoms.size ≤ UInt32.size) :
    (∀ (solver left : ConsensusSolver Single) (store : ResidentStore Single)
        (cancelled : Nat → Bool) (report : RunReport Double),
      solver.optimize store atoms cancelled = (.ok report, left, after) →
        let begun := ConsensusSolver.start store.terms.toList atoms
        let plan : ConsensusState.Plan Single Double :=
          ConsensusSolver.plan solver.settings solver.tree begun
        report.iterations ≤ solver.settings.maxIterations ∧
          (∃ values, left.consensus = .ok values ∧ after.Holds values) ∧
          report.Describes after store.terms.toList ∧
          (report.status = .converged ↔
            ConsensusState.ConvergesAt plan begun report.iterations)) ∧
    ∀ (σ : Type) [TermStream σ Single] (settings : DescentSettings Single)
        (token : Descent.Token σ) (stream last : σ) (report : RunReport Double),
      Descent.optimizeUnder settings token stream atoms = (.ok report, last, after) →
        report.iterations ≤ settings.maxEpochs ∧
          (report.status = .cancelled → report.objective = 0 ∧ report.violatedConstraints = 0) ∧
          (report.status ≠ .cancelled →
            ∃ (ending : Descent.Ending Single Double) (passed begun : σ)
                (terms : List (Term Single)),
              Descent.runEpochsUnder settings atoms.records token settings.maxEpochs
                  (Descent.startOf settings atoms) stream = (.ok ending, passed) ∧
                TermStream.beginSweep passed = (.ok (), begun) ∧
                TermStream.Drains begun terms last ∧ TermStream.termCount last ≤ terms.length ∧
                report.Describes after terms) := by
  constructor
  · intro solver left store cancelled report ran
    obtain ⟨written, kept, rfl⟩ := ConsensusSolver.optimize_ok ran
    have holds := (ConsensusSolver.offers_iterateUpTo valid solver.settings solver.tree
      store.terms.toList cancelled solver.settings.maxIterations).holds valid addressed written
    refine ⟨?_, ⟨_, kept, holds⟩, holds.describes rfl rfl, ?_⟩
    · exact Nat.le_trans (ConsensusSolver.iterations_iterateUpTo_le _ _ _ _)
        (Nat.le_of_eq (Nat.zero_add _))
    · exact ConsensusSolver.status_iterateUpTo_iff cancelled _ rfl (fun _ => nofun) nofun
  · intro σ _ settings token stream last report ran
    obtain ⟨ending, passed, epochsRan, written, evaluated⟩ := Descent.optimizeUnder_ok ran
    have offers : atoms.Offers ending.values :=
      Descent.runEpochsUnder_invariant (fun values _ => atoms.Offers values)
        (fun _ _ _ _ offered epochRan => Descent.offers_runEpoch offered epochRan) valid.offers
        epochsRan
    have holds := offers.holds valid addressed written
    obtain ⟨epochs, answer⟩ := Descent.evaluate_ok evaluated
    have bounded : report.iterations ≤ settings.maxEpochs := by
      rw [epochs]
      exact Nat.le_trans (Descent.epochs_le_of_runEpochsUnder _ epochsRan)
        (Nat.le_of_eq (Nat.zero_add _))
    refine ⟨bounded, ?_⟩
    rcases answer with ⟨cancelled, zeros⟩ |
      ⟨going, status, begun, terms, began, drains, enough, objective, violated⟩
    · exact ⟨fun _ => zeros, fun notCancelled => absurd cancelled notCancelled⟩
    · refine ⟨fun cancelled => absurd (status.symm.trans cancelled) going, fun _ => ?_⟩
      exact ⟨ending, passed, begun, terms, epochsRan, began, drains, enough,
        holds.describes objective violated⟩

section Sample

/-- A free atom with the value zero, next to an observed one with the value one. -/
def pulledAtoms : AtomStore Single :=
  (AtomStore.ofRecords [⟨1, true⟩, ⟨0, false⟩]).toOption.getD .empty

/-- This term pulls the free atom up to the observed one. -/
def pullingTerm : Term Single := ⟨⟨0⟩, .hinge, .soft 1, 0, [⟨0⟩, ⟨1⟩], [1, -1]⟩

def pullingSolver : ConsensusSolver Single := .ofSettings .standard

def pullingStore : ResidentStore Single := ⟨#[pullingTerm], .empty, ∅, .ready⟩

/-- One epoch with steps of the length one. -/
def pullingDescent : DescentSettings Single :=
  { DescentSettings.standard with maxEpochs := 1, schedule := .constant }

def pullingSweep : ResidentSweep Single := ⟨#[pullingTerm], #[0], 0, .chaCha, none⟩

theorem exists_pullingSolver_run :
    ∃ (report : RunReport Double) (left : ConsensusSolver Single) (after : AtomStore Single),
      pullingSolver.optimize pullingStore pulledAtoms (fun _ => false) =
          (.ok report, left, after) ∧
        report.status = .converged ∧ report.iterations = 2 ∧ after.values = #[1, 1] := by
  let run : Except _ (RunReport Double) × ConsensusSolver Single × AtomStore Single :=
    pullingSolver.optimize pullingStore pulledAtoms fun _ => false
  have answered : run.1.toOption.map (fun report => (report.status, report.iterations)) =
      some (.converged, 2) := by decide +kernel
  have values : run.2.2.values = #[1, 1] := by decide +kernel
  cases found : run.1 with
  | error fault =>
      rw [found] at answered
      cases answered
  | ok report =>
      rw [found] at answered
      obtain ⟨status, iterations⟩ := Prod.mk.inj (Option.some.inj answered)
      have ran : run = (.ok report, run.2.1, run.2.2) := by rw [← found]
      exact ⟨report, _, _, ran, status, iterations, values⟩

theorem exists_pullingDescent_run :
    ∃ (report : RunReport Double) (last : ResidentSweep Single) (after : AtomStore Single),
      Descent.optimizeUnder pullingDescent (.ofStream fun _ => false) pullingSweep pulledAtoms =
          (.ok report, last, after) ∧
        report.status = .maxIterationsReached ∧ report.iterations = 1 ∧
        after.values = #[1, 1] := by
  have began : TermStream.beginSweep pullingSweep = (.ok (), pullingSweep) := rfl
  have drains : TermStream.Drains pullingSweep [pullingTerm] pullingSweep.next.2 :=
    .lends rfl (.ended rfl)
  let start : Descent.Ending Single Double := Descent.startOf pullingDescent pulledAtoms
  let plan : EpochPlan Single := ⟨pulledAtoms.records, pullingDescent.adagrad,
    pullingDescent.schedule.step pullingDescent.learningRate start.epochs⟩
  let followed : Except _ (Epoch Single Double) :=
    [pullingTerm].foldlM (Epoch.follow plan) ⟨start.values, start.accumulated, 0, 0⟩
  have answered : followed.toOption.map (fun epoch => (epoch.values, epoch.movedSquared)) =
      some (#[1, 1], 1) := by decide +kernel
  cases found : followed with
  | error fault =>
      rw [found] at answered
      cases answered
  | ok epoch =>
      rw [found] at answered
      obtain ⟨values, way⟩ := Prod.mk.inj (Option.some.inj answered)
      have epochRan := Descent.runEpoch_of_drains began drains found
      have far : ¬ (Scalar.sqrt epoch.movedSquared : Double) < widen pullingDescent.tolerance := by
        rw [way]
        decide +kernel
      let moved : Descent.Ending Single Double :=
        ⟨.maxIterationsReached, 1, Scalar.sqrt epoch.movedSquared, epoch.values, epoch.accumulated⟩
      have epochsRan : Descent.runEpochsUnder pullingDescent pulledAtoms.records
          (.ofStream fun _ => false) 1 start pullingSweep = (.ok moved, pullingSweep.next.2) := by
        simp only [Descent.runEpochsUnder, Descent.Token.ofStream, Bool.false_eq_true, if_false,
          epochRan, far]
        rfl
      have written : pulledAtoms.writeBack moved.values =
          (.ok (), (pulledAtoms.writeBack #[1, 1]).2) := by
        rw [show moved.values = #[1, 1] from values]
        rfl
      have reads : ∀ term ∈ [pullingTerm], term.readsBelow moved.values.size = true := by
        rw [show moved.values = #[1, 1] from values]
        decide +kernel
      have lastBegan : TermStream.beginSweep pullingSweep.next.2 = (.ok (), pullingSweep) := rfl
      have going : moved.status ≠ .cancelled := by
        dsimp only [moved]
        exact nofun
      have evaluated := Descent.evaluate_of_drains going lastBegan drains reads
      have ran := Descent.optimizeUnder_of_evaluate (by decide +kernel) epochsRan written evaluated
      exact ⟨_, _, _, ran, rfl, rfl, by decide +kernel⟩

/-- Both solvers pull the atom up. The consensus solver converges at its second iteration, and the
descent makes one epoch. -/
theorem report_describes_sample :
    (∃ report left after,
      pullingSolver.optimize pullingStore pulledAtoms (fun _ => false) =
          ((.ok report, left, after) : Except _ (RunReport Double) × _) ∧
        report.status = .converged ∧ report.iterations = 2 ∧ after.values = #[1, 1] ∧
        report.Describes after [pullingTerm]) ∧
      ∃ (report : RunReport Double) (last : ResidentSweep Single) (after : AtomStore Single)
          (begun : ResidentSweep Single) (terms : List (Term Single)),
        Descent.optimizeUnder pullingDescent (.ofStream fun _ => false) pullingSweep pulledAtoms =
            (.ok report, last, after) ∧
          report.status = .maxIterationsReached ∧ report.iterations = 1 ∧
          after.values = #[1, 1] ∧ TermStream.Drains begun terms last ∧
          report.Describes after terms := by
  have valid : pulledAtoms.Valid := by
    unfold AtomStore.Valid
    decide +kernel
  have addressed : pulledAtoms.size ≤ UInt32.size := by decide +kernel
  obtain ⟨report, left, after, ran, status, iterations, values⟩ := exists_pullingSolver_run
  obtain ⟨described, last, afterwards, descended, ending, epochs, lastValues⟩ :=
    exists_pullingDescent_run
  constructor
  · obtain ⟨-, -, describes, -⟩ :=
      (report_describes pulledAtoms after valid addressed).1 _ _ _ _ _ ran
    exact ⟨report, left, after, ran, status, iterations, values, describes⟩
  · have going : described.status ≠ .cancelled := by
      rw [ending]
      exact nofun
    obtain ⟨-, -, finished⟩ :=
      (report_describes pulledAtoms afterwards valid addressed).2 _ _ _ _ _ _ descended
    obtain ⟨-, -, begun, terms, -, -, drains, -, describes⟩ := finished going
    exact ⟨described, last, afterwards, begun, terms, descended, ending, epochs, lastValues, drains,
      describes⟩

end Sample

end HingeLoss
