import HingeLoss.Number.Double
import HingeLoss.Proofs.Descent.FirstEpoch
import HingeLoss.Proofs.Solver.WriteBack

/-! What a descent refuses, with at least one epoch and without any. -/

namespace HingeLoss

namespace AtomStore

variable {atoms : AtomStore Single}

/-- Writing its own values back changes nothing in a store. -/
theorem Valid.writeBackFrom_values (valid : atoms.Valid) (indices : List Nat) :
    writeBackFrom atoms.values indices atoms = (.ok (), atoms) := by
  induction indices with
  | nil => rfl
  | cons index rest inductionHypothesis =>
      have here : atoms.writeBackAt atoms.values index = .ok atoms := by
        cases found : atoms.records[index]? with
        | none => simp only [writeBackAt, found]
        | some record =>
            have given : atoms.values[index]? = some record.value := by
              rw [AtomStore.values, Array.getElem?_map, found, Option.map_some]
            have unit := valid record (Array.mem_toList_iff.mpr (Array.mem_of_getElem? found))
            simp only [writeBackAt, found, given, same_self_of_inUnit unit, Bool.or_true, if_true]
      rw [writeBackFrom, here]
      exact inductionHypothesis

end AtomStore

namespace Settings

/-- A descent can begin with settings that were accepted. -/
theorem positive_of_validate {settings : Settings} (accepted : settings.validate = .ok ()) :
    Scalar.isPositive settings.descent.learningRate = true := by
  unfold validate at accepted
  dsimp only at accepted
  split at accepted
  · cases accepted
  · split at accepted
    · cases accepted
    · split at accepted
      · cases accepted
      · rename_i positive
        simpa using positive

end Settings

namespace Descent

section

variable {σ α β : Type} [Scalar α] [Scalar β] [Widening α β] [TermStream σ α]

/-- The evaluation of terms fails only where one of them reads an atom that has no value. -/
theorem evaluation_error {values : Array α} {terms : List (Term α)} {start : Evaluation β}
    {fault : DescentFault α} (failed : terms.foldlM (evaluateTerm values) start = .error fault) :
    fault = .unreadable := by
  induction terms generalizing start with
  | nil => cases failed
  | cons term later inductionHypothesis =>
      rw [List.foldlM_cons, evaluateTerm] at failed
      by_cases reads : term.readsBelow values.size = true
      · rw [if_pos reads] at failed
        exact inductionHypothesis failed
      · rw [if_neg reads] at failed
        cases failed
        rfl

/-- The evaluation comes to no report where a term of its sweep reads an atom without a value. -/
theorem evaluate_unreadable {ending : Ending α β} {stream begun last : σ} {terms : List (Term α)}
    (going : ending.status ≠ .cancelled) (began : TermStream.beginSweep stream = (.ok (), begun))
    (drains : TermStream.Drains begun terms last)
    (unreadable : ¬ ∀ term ∈ terms, term.readsBelow ending.values.size = true) :
    ∃ rest, evaluate ending stream = (.error .unreadable, rest) := by
  cases made : terms.foldlM (evaluateTerm ending.values) (⟨0, 0, 0⟩ : Evaluation β) with
  | ok after => exact absurd ((evaluation_ok_iff ending.values).mp made).1 unreadable
  | error fault =>
      cases evaluation_error made
      obtain ⟨reached, rest, folded⟩ :=
        drains.fold_error made fun fault => DescentFault.solver (.store fault)
      exact ⟨rest, by simp only [evaluate, going, if_false, began, folded]⟩

variable {settings : DescentSettings α} {store : ResidentStore α} {atoms : AtomStore α}

/-- A sweep whose terms all have atoms with values comes to a report. -/
theorem exists_evaluate {terms : Array (Term α)} {seed : Option UInt64} {sweep : ResidentSweep α}
    {ending : Ending α β} (whole : sweep.Whole terms seed)
    (reads : ∀ term ∈ terms.toList, term.readsBelow ending.values.size = true) :
    ∃ report last, evaluate ending sweep = (.ok report, last) ∧
      report.iterations = ending.epochs ∧
      (ending.status ≠ .cancelled → report.status = ending.status ∧
        report.violatedConstraints = violations (valueAt ending.values) terms.toList) := by
  obtain ⟨lent, last, drains, perm⟩ := whole.drains_begin
  by_cases going : ending.status = .cancelled
  · exact ⟨_, sweep, by rw [evaluate, if_pos going], rfl, absurd going⟩
  · have evaluated := evaluate_of_drains (β := β) going rfl drains fun term member =>
      reads term (perm.mem_iff.mp member)
    have kept := (ResidentSweep.keeps_whole terms seed).drains whole.begin drains
    have counted : ¬ lent.length < TermStream.termCount last := by
      have count : TermStream.termCount last = last.order.toList.length := Array.length_toList.symm
      rw [perm.length_eq, count, kept.drawn.length_eq, List.length_range, Array.length_toList]
      exact Nat.lt_irrefl _
    rw [if_neg counted] at evaluated
    exact ⟨_, last, evaluated, rfl, fun _ => ⟨rfl, perm.countP_eq _⟩⟩

/-- Where all terms can be followed, the run reads no atom that has no value. -/
theorem optimizeResident_readable (ready : store.phase = .ready) (cancelled : Bool)
    (fit : ∀ term ∈ store.terms.toList, term.Followable atoms.size) :
    (optimizeResident settings cancelled store atoms :
      Except (DescentFault α) (RunReport β) × AtomStore α).1 ≠ .error .unreadable := by
  obtain ⟨sweep, taken⟩ := ResidentSweep.exists_ofStore ready (shuffleSeed settings) .chaCha
  have size : (startOf settings atoms : Ending α β).values.size = atoms.size := Array.size_map
  obtain ⟨ending, last, ran, sizeEnd, whole⟩ := exists_runEpochsUnder_of_followable settings
    atoms.records (.ofStream fun _ => cancelled) settings.maxEpochs
    (ResidentSweep.whole_ofStore taken) (size ▸ fit)
  have reads : ∀ term ∈ store.terms.toList, term.readsBelow ending.values.size = true := by
    intro term member
    rw [sizeEnd, size]
    exact (fit term member).readsBelow
  obtain ⟨report, rest, evaluated, -⟩ := exists_evaluate whole reads
  rw [optimizeResident, optimizeResidentUnder, taken]
  simp only [optimizeUnder, ran]
  split
  · exact fun failed => by cases failed
  · split
    · exact fun failed => by cases failed
    · rw [evaluated]
      exact fun failed => by cases failed

/-- A run without epochs only evaluates the terms at the values that the atoms have. -/
theorem optimizeResident_without_epochs (ready : store.phase = .ready)
    (positive : Scalar.isPositive settings.learningRate = true) (noEpoch : settings.maxEpochs = 0)
    (written : atoms.writeBack atoms.values = (.ok (), atoms)) (cancelled : Bool) :
    let answer : Except (DescentFault α) (RunReport β) × AtomStore α :=
      optimizeResident settings cancelled store atoms
    answer.2 = atoms ∧
      ((∀ term ∈ store.terms.toList, term.readsBelow atoms.size = true) →
        ∃ report, answer.1 = .ok report ∧ report.status = .maxIterationsReached ∧
          report.iterations = 0 ∧
          report.violatedConstraints = violations (valueAt atoms.values) store.terms.toList) ∧
      ((∃ term ∈ store.terms.toList, term.readsBelow atoms.size = false) →
        answer.1 = .error .unreadable) := by
  obtain ⟨sweep, taken⟩ := ResidentSweep.exists_ofStore ready (shuffleSeed settings) .chaCha
  have answered : (optimizeResident settings cancelled store atoms :
        Except (DescentFault α) (RunReport β) × AtomStore α) =
      ((evaluate (startOf settings atoms) sweep).1, atoms) := by
    rw [optimizeResident, optimizeResidentUnder, taken]
    simp only [optimizeUnder, positive, noEpoch, runEpochsUnder, Bool.not_true, Bool.false_eq_true,
      if_false]
    rw [show (startOf settings atoms : Ending α β).values = atoms.values from rfl, written]
  have size : (startOf settings atoms : Ending α β).values.size = atoms.size := Array.size_map
  dsimp only
  rw [answered]
  refine ⟨rfl, fun reads => ?_, fun unreadable => ?_⟩
  · obtain ⟨report, last, evaluated, epochs, whole⟩ :=
      exists_evaluate (β := β) (ResidentSweep.whole_ofStore taken) (size ▸ reads)
    obtain ⟨status, violated⟩ := whole fun same => by cases same
    exact ⟨report, by rw [evaluated], status, epochs, violated⟩
  · obtain ⟨term, member, unread⟩ := unreadable
    obtain ⟨last, drains⟩ := drains_first taken
    have notAll : ¬ ∀ term ∈ firstTerms settings store,
        term.readsBelow (startOf settings atoms : Ending α β).values.size = true := by
      intro reads
      have read := reads term ((firstTerms_perm settings store).mem_iff.mpr member)
      rw [size, unread] at read
      cases read
    obtain ⟨rest, evaluated⟩ :=
      evaluate_unreadable (fun same => by cases same) rfl drains notAll
    rw [evaluated]

end

/-- With at least one epoch a descent answers the fault of a term that it cannot follow and leaves
the atoms; without epochs it reports on such a term or cannot read it. -/
theorem descent_refuses {settings : Settings} (accepted : settings.validate = .ok ())
    {store : ResidentStore Single} (ready : store.phase = .ready) (atoms : AtomStore Single) :
    let answer : Except (DescentFault Single) (RunReport Double) × AtomStore Single :=
      optimizeResident settings.descent false store atoms
    (settings.descent.maxEpochs ≠ 0 → answer.1 ≠ .error .unreadable ∧
      ((∃ term ∈ store.terms.toList, term.isHard = true ∨
          ∃ atom ∈ term.atoms, atoms.size ≤ atom.index) →
        answer.2 = atoms ∧
          ((∃ place, answer.1 = .error (.solver (.hardConstraint place))) ∨
            ∃ term ∈ store.terms.toList, ∃ atom ∈ term.atoms, atoms.size ≤ atom.index ∧
              answer.1 = .error (.solver (.atom (.outOfRange atom.index atoms.size)))))) ∧
    (settings.descent.maxEpochs = 0 → atoms.Valid → answer.2 = atoms ∧
      ((∀ term ∈ store.terms.toList, term.readsBelow atoms.size = true) →
        ∃ report, answer.1 = .ok report ∧ report.status = .maxIterationsReached ∧
          report.iterations = 0 ∧
          report.violatedConstraints = violations (valueAt atoms.values) store.terms.toList) ∧
      ((∃ term ∈ store.terms.toList, term.readsBelow atoms.size = false) →
        answer.1 = .error .unreadable)) := by
  intro answer
  have positive := Settings.positive_of_validate accepted
  refine ⟨fun someEpoch => ?_, fun noEpoch valid =>
    optimizeResident_without_epochs ready positive noEpoch (valid.writeBackFrom_values _) false⟩
  by_cases fit : ∀ term ∈ store.terms.toList, term.Followable atoms.size
  · refine ⟨optimizeResident_readable ready false fit, fun some => ?_⟩
    obtain ⟨term, member, unfit⟩ := some
    obtain ⟨soft, held⟩ := fit term member
    rcases unfit with hard | ⟨atom, atomMember, outside⟩
    · rw [soft] at hard
      cases hard
    · exact absurd (held atom atomMember) (Nat.not_lt_of_le outside)
  · obtain ⟨place, term, fault, found, -, refuses, ran⟩ :=
      optimizeResident_of_unfit (β := Double) ready positive someEpoch fit
    have member : term ∈ store.terms.toList :=
      (firstTerms_perm settings.descent store).mem_iff.mp (List.mem_of_getElem? found)
    refine ⟨?_, fun _ => ⟨congrArg Prod.snd ran, ?_⟩⟩
    · rw [show answer = _ from ran]
      exact fun failed => by cases failed
    · rw [show answer = _ from ran]
      cases refuses with
      | hard hard => exact .inl ⟨place, rfl⟩
      | outside soft atomMember outside =>
          exact .inr ⟨term, member, _, atomMember, outside, rfl⟩

theorem descent_refuses_mixed :
    let answer : Except (DescentFault Single) (RunReport Double) × AtomStore Single :=
      optimizeResident Settings.standard.descent false mixedSession.store mixedSession.atoms
    Settings.standard.validate = .ok () ∧ mixedSession.store.phase = .ready ∧
      constraint ∈ mixedSession.store.terms.toList ∧ answer.2 = mixedSession.atoms ∧
      answer.1 ≠ .error .unreadable ∧ ∀ report, answer.1 ≠ .ok report := by
  intro answer
  have accepted : Settings.standard.validate = .ok () := rfl
  have ready : mixedSession.store.phase = .ready := by decide +kernel
  have member : constraint ∈ mixedSession.store.terms.toList := by decide +kernel
  obtain ⟨readable, refused⟩ := (descent_refuses accepted ready mixedSession.atoms).1 (by decide)
  obtain ⟨left, fault⟩ := refused ⟨constraint, member, .inl rfl⟩
  refine ⟨accepted, ready, member, left, readable, fun report reported => ?_⟩
  rcases fault with ⟨place, failed⟩ | ⟨_, _, _, _, _, failed⟩ <;>
    cases reported.symm.trans failed

/-- Settings that ask for no epoch. -/
def idle : Settings :=
  { Settings.standard with descent := { DescentSettings.standard with maxEpochs := 0 } }

/-- These settings are accepted, and yet a run reports on a constraint, and over a smaller store of
atoms it reads a value that is not there. -/
theorem idle_descent_reports :
    idle.validate = .ok () ∧ mixedSession.store.phase = .ready ∧
      constraint ∈ mixedSession.store.terms.toList ∧ constraint.isHard = true ∧
      (∃ report, (optimizeResident idle.descent false mixedSession.store mixedSession.atoms :
          Except (DescentFault Single) (RunReport Double) × AtomStore Single).1 = .ok report ∧
        report.violatedConstraints = 1) ∧
      (optimizeResident idle.descent false mixedSession.store .empty :
        Except (DescentFault Single) (RunReport Double) × AtomStore Single).1 =
          .error .unreadable := by
  have accepted : idle.validate = .ok () := rfl
  have ready : mixedSession.store.phase = .ready := by decide +kernel
  have member : constraint ∈ mixedSession.store.terms.toList := by decide +kernel
  have positive := Settings.positive_of_validate accepted
  refine ⟨accepted, ready, member, rfl, ?_, ?_⟩
  · have valid : mixedSession.atoms.Valid := by
      unfold AtomStore.Valid
      decide +kernel
    obtain ⟨-, reports, -⟩ := optimizeResident_without_epochs (β := Double) ready positive rfl
      (valid.writeBackFrom_values _) false
    obtain ⟨report, reported, -, -, violated⟩ := reports (by decide +kernel)
    exact ⟨report, reported, violated.trans (by decide +kernel)⟩
  · have valid : (AtomStore.empty : AtomStore Single).Valid := by
      simp [AtomStore.Valid, AtomStore.empty]
    obtain ⟨-, -, unreadable⟩ := optimizeResident_without_epochs (β := Double) ready positive rfl
      (valid.writeBackFrom_values _) false
    exact unreadable ⟨constraint, member, rfl⟩

end Descent

end HingeLoss
