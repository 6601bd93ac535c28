import HingeLoss.Proofs.Descent.Epochs
import HingeLoss.Proofs.Descent.Followable
import HingeLoss.Proofs.Solver.Failure

/-! The first epoch of a descent goes through all terms in the order drawn for it. -/

namespace HingeLoss

/-- Items that are looked up in order are found at the places of their numbers. -/
theorem getElem?_filterMap_lookup {γ : Type} {items : List γ} {order : List Nat}
    (inside : ∀ number ∈ order, number < items.length) (place : Nat) :
    (order.filterMap (items[·]?))[place]? = order[place]?.bind (items[·]?) := by
  induction order generalizing place with
  | nil => rfl
  | cons number later inductionHypothesis =>
      rw [List.forall_mem_cons] at inside
      rw [List.filterMap_cons, List.getElem?_eq_getElem inside.1]
      cases place with
      | zero => exact (List.getElem?_eq_getElem inside.1).symm
      | succ place => exact inductionHypothesis inside.2 place

namespace Descent

variable {σ α β : Type}

/-- The order in which the first epoch goes through so many terms. -/
def firstOrder (settings : DescentSettings α) (size : Nat) : List TermId :=
  if settings.shuffleTerms then
    ((Generator.ofSeed settings.seed).shuffle (Array.range size)).1.toList
  else List.range size

theorem firstOrder_perm (settings : DescentSettings α) (size : Nat) :
    (firstOrder settings size).Perm (List.range size) := by
  unfold firstOrder
  split
  · rw [← Array.toList_range]
    exact (Generator.shuffle_perm _ _).toList
  · exact .refl _

theorem lt_of_mem_firstOrder {settings : DescentSettings α} {size : Nat} {number : TermId}
    (member : number ∈ firstOrder settings size) : number < size :=
  List.mem_range.mp ((firstOrder_perm settings size).mem_iff.mp member)

/-- The terms of a store as the first epoch meets them. -/
def firstTerms (settings : DescentSettings α) (store : ResidentStore α) : List (Term α) :=
  (firstOrder settings store.size).filterMap (store.terms.toList[·]?)

theorem firstTerms_perm (settings : DescentSettings α) (store : ResidentStore α) :
    (firstTerms settings store).Perm store.terms.toList :=
  filterMap_getElem?_perm (firstOrder_perm settings store.size)

theorem getElem?_firstTerms (settings : DescentSettings α) (store : ResidentStore α) (place : Nat) :
    (firstTerms settings store)[place]? =
      (firstOrder settings store.size)[place]?.bind (store.terms.toList[·]?) :=
  getElem?_filterMap_lookup (fun _ => lt_of_mem_firstOrder) place

variable {settings : DescentSettings α} {store : ResidentStore α} {sweep : ResidentSweep α}

/-- What the first epoch meets at a place is a term of the store. -/
theorem exists_number {place : Nat} {term : Term α} (ready : store.phase = .ready)
    (found : (firstTerms settings store)[place]? = some term) :
    ∃ number, (firstOrder settings store.size)[place]? = some number ∧
      store.get number = .ok term ∧ (settings.shuffleTerms = false → number = place) := by
  rw [getElem?_firstTerms, Option.bind_eq_some_iff] at found
  obtain ⟨number, here, held⟩ := found
  refine ⟨number, here, ?_, fun inOrder => ?_⟩
  · rw [Array.getElem?_toList] at held
    simp only [ResidentStore.get, ready, held]
  · rw [firstOrder, inOrder, if_neg Bool.false_ne_true] at here
    exact (List.getElem?_eq_some_iff.mp here).2.symm.trans (List.getElem_range _)

/-- A sweep that was taken from a store lends its terms in this order when it is first begun. -/
theorem drains_first (taken : ResidentSweep.ofStore store (shuffleSeed settings) = .ok sweep) :
    ∃ last, TermStream.Drains sweep.begin (firstTerms settings store) last := by
  obtain ⟨last, drains⟩ := (ResidentSweep.whole_ofStore taken).begin.drains
  have order : sweep.begin.order.toList = firstOrder settings store.size := by
    unfold ResidentSweep.ofStore at taken
    cases ready : store.ensureReady with
    | error fault =>
        rw [ready] at taken
        cases taken
    | ok _ =>
        rw [ready] at taken
        cases taken
        unfold ResidentSweep.begin firstOrder shuffleSeed
        cases settings.shuffleTerms with
        | true => rfl
        | false => exact Array.toList_range
  rw [ResidentSweep.position_begin, List.drop_zero, order] at drains
  exact ⟨last, drains⟩

variable [Scalar α] [Scalar β] [Widening α β] [TermStream σ α] {records : Array (AtomRecord α)}

/-- An epoch fails where following the terms of its sweep fails. -/
theorem runEpoch_of_error (ending : Ending α β) {stream begun last : σ} {terms : List (Term α)}
    {fault : SolverFault α} (began : TermStream.beginSweep stream = (.ok (), begun))
    (drains : TermStream.Drains begun terms last)
    (failed : terms.foldlM
      (Epoch.follow ⟨records, settings.adagrad,
        settings.schedule.step settings.learningRate ending.epochs⟩)
      (⟨ending.values, ending.accumulated, 0, 0⟩ : Epoch α β) = .error fault) :
    ∃ rest, runEpoch settings records ending stream = (.error fault, rest) := by
  obtain ⟨reached, rest, folded⟩ := drains.fold_error failed SolverFault.store
  exact ⟨rest, by simp only [runEpoch, began, folded]⟩

/-- Where all terms can be followed, every epoch succeeds. -/
theorem exists_runEpoch (settings : DescentSettings α) (records : Array (AtomRecord α))
    {terms : Array (Term α)} {seed : Option UInt64} {ending : Ending α β}
    (whole : sweep.Whole terms seed)
    (fit : ∀ term ∈ terms.toList, term.Followable ending.values.size) :
    ∃ after last, runEpoch settings records ending sweep = (.ok after, last) ∧
      after.values.size = ending.values.size ∧ last.Whole terms seed := by
  obtain ⟨last, drains⟩ := whole.begin.drains
  have fitSweep : ∀ term ∈ (sweep.begin.order.toList.drop sweep.begin.position).filterMap
      (terms.toList[·]?), term.Followable ending.values.size := by
    intro term member
    obtain ⟨number, -, found⟩ := List.mem_filterMap.mp member
    exact fit term (List.mem_of_getElem? found)
  obtain ⟨epoch, followed, size⟩ := Epoch.foldlM_follow_ok
    ⟨records, settings.adagrad, settings.schedule.step settings.learningRate ending.epochs⟩
    (⟨ending.values, ending.accumulated, 0, 0⟩ : Epoch α β) _ fitSweep
  exact ⟨_, last, runEpoch_of_drains rfl drains followed, size,
    (ResidentSweep.keeps_whole terms seed).drains whole.begin drains⟩

/-- Where all terms can be followed, no epoch fails. -/
theorem exists_runEpochsUnder_of_followable (settings : DescentSettings α)
    (records : Array (AtomRecord α)) {terms : Array (Term α)} {seed : Option UInt64}
    (token : Token (ResidentSweep α)) (count : Nat) {ending : Ending α β}
    (whole : sweep.Whole terms seed)
    (fit : ∀ term ∈ terms.toList, term.Followable ending.values.size) :
    ∃ after last, runEpochsUnder settings records token count ending sweep = (.ok after, last) ∧
      after.values.size = ending.values.size ∧ last.Whole terms seed := by
  induction count generalizing ending sweep with
  | zero => exact ⟨ending, sweep, rfl, rfl, whole⟩
  | succ count inductionHypothesis =>
      unfold runEpochsUnder
      split
      · exact ⟨_, _, rfl, rfl, whole⟩
      · obtain ⟨after, last, ran, size, wholeAfter⟩ :=
          exists_runEpoch settings records whole fit
        rw [ran]
        dsimp only
        split
        · exact ⟨_, _, rfl, size, wholeAfter⟩
        · split
          · exact ⟨_, _, rfl, size, wholeAfter⟩
          · rw [← size] at fit ⊢
            exact inductionHypothesis wholeAfter fit

/-- Where some term cannot be followed, the first epoch fails at the first such term. -/
theorem runEpoch_of_unfit {atoms : AtomStore α}
    (taken : ResidentSweep.ofStore store (shuffleSeed settings) = .ok sweep)
    (unfit : ¬ ∀ term ∈ store.terms.toList, term.Followable atoms.size) :
    ∃ place term fault, (firstTerms settings store)[place]? = some term ∧
      (∀ earlier ∈ (firstTerms settings store).take place, earlier.Followable atoms.size) ∧
      Epoch.Refuses atoms.size place term fault ∧
      ∃ rest, runEpoch settings atoms.records (startOf settings atoms : Ending α β) sweep =
        (.error fault, rest) := by
  obtain ⟨last, drains⟩ := drains_first taken
  let start : Ending α β := startOf settings atoms
  have size : start.values.size = atoms.size := Array.size_map
  have unfitFirst : ¬ ∀ term ∈ firstTerms settings store, term.Followable start.values.size := by
    rw [size]
    exact fun fit => unfit fun term member =>
      fit term ((firstTerms_perm settings store).mem_iff.mpr member)
  obtain ⟨place, term, fault, found, earlier, refuses, failed⟩ := Epoch.foldlM_follow_error
    ⟨atoms.records, settings.adagrad, settings.schedule.step settings.learningRate 0⟩
    (⟨start.values, start.accumulated, 0, 0⟩ : Epoch α β) (firstTerms settings store) unfitFirst
  dsimp only at earlier refuses
  rw [size] at earlier refuses
  rw [Nat.zero_add] at refuses
  exact ⟨place, term, fault, found, earlier, refuses,
    runEpoch_of_error start rfl drains failed⟩

/-- Epochs that fail although the first of them would have failed anyway have its fault. -/
theorem fault_of_runEpochsUnder {token : Token σ} {count : Nat} {ending : Ending α β}
    {stream rest last : σ} {fault cause : SolverFault α}
    (fails : runEpoch settings records ending stream = (.error fault, rest))
    (ran : runEpochsUnder settings records token count ending stream = (.error cause, last)) :
    cause = fault := by
  cases count with
  | zero => cases ran
  | succ count =>
      cases epochSteps ran with
      | fails epochRan =>
          rw [fails] at epochRan
          cases epochRan
          rfl
      | goesOn epochRan _ =>
          rw [fails] at epochRan
          cases epochRan

/-- Only an epoch can find a constraint. -/
theorem runEpochsUnder_of_hardConstraint {token : Token σ} {stream : σ} {atoms : AtomStore α}
    {place : Nat}
    (failed : (optimizeUnder settings token stream atoms :
      Except (DescentFault α) (RunReport β) × σ × AtomStore α).1 =
        .error (.solver (.hardConstraint place))) :
    ∃ rest, runEpochsUnder settings atoms.records token settings.maxEpochs
      (startOf settings atoms : Ending α β) stream = (.error (.hardConstraint place), rest) := by
  unfold optimizeUnder at failed
  split at failed
  · cases failed
  · split at failed
    · rename_i fault rest ran
      cases failed
      exact ⟨rest, ran⟩
    · rename_i ending rest _
      split at failed
      · cases failed
      · dsimp only at failed
        rcases evaluated : evaluate ending rest with ⟨fault | report, last⟩
        · rw [evaluated] at failed
          rcases evaluate_error evaluated with ⟨cause, rfl⟩ | rfl
          · cases failed
          · cases failed
        · rw [evaluated] at failed
          cases failed

/-- Where some term cannot be followed, a run with at least one epoch answers its fault and leaves
the atoms. -/
theorem optimizeResident_of_unfit {atoms : AtomStore α} (ready : store.phase = .ready)
    (positive : Scalar.isPositive settings.learningRate = true) (someEpoch : settings.maxEpochs ≠ 0)
    (unfit : ¬ ∀ term ∈ store.terms.toList, term.Followable atoms.size) :
    ∃ place term fault, (firstTerms settings store)[place]? = some term ∧
      (∀ earlier ∈ (firstTerms settings store).take place, earlier.Followable atoms.size) ∧
      Epoch.Refuses atoms.size place term fault ∧
      (optimizeResident settings false store atoms :
        Except (DescentFault α) (RunReport β) × AtomStore α) = (.error (.solver fault), atoms) := by
  obtain ⟨sweep, taken⟩ := ResidentSweep.exists_ofStore ready (shuffleSeed settings) .chaCha
  obtain ⟨place, term, fault, found, earlier, refuses, rest, fails⟩ :=
    runEpoch_of_unfit (β := β) taken unfit
  obtain ⟨count, epochs⟩ := Nat.exists_eq_succ_of_ne_zero someEpoch
  refine ⟨place, term, fault, found, earlier, refuses, ?_⟩
  rw [optimizeResident, optimizeResidentUnder, taken]
  simp only [optimizeUnder, positive, epochs, Nat.succ_eq_add_one, runEpochsUnder, Token.ofStream,
    fails, Bool.not_true, Bool.false_eq_true, if_false]

/-- A constraint that ends a run, under whatever token, is the first one in the order of the first
epoch, and the number in the fault is its place in this order. Where the terms are not shuffled,
this is the number of the term. -/
theorem hardConstraint_place {token : Token (ResidentSweep α)} {atoms : AtomStore α} {place : Nat}
    (failed : (optimizeResidentUnder settings token store atoms :
      Except (DescentFault α) (RunReport β) × AtomStore α).1 =
        .error (.solver (.hardConstraint place))) :
    let order := firstOrder settings store.size
    order.Perm (List.range store.size) ∧ place < store.size ∧
      (∃ number term, order[place]? = some number ∧ store.get number = .ok term ∧
        term.isHard = true ∧ (settings.shuffleTerms = false → number = place)) ∧
      ∀ earlier < place, ∃ number term, order[earlier]? = some number ∧
        store.get number = .ok term ∧ term.isHard = false := by
  intro order
  have perm := firstOrder_perm settings store.size
  unfold optimizeResidentUnder at failed
  split at failed
  · cases failed
  · rename_i sweep taken
    have ready := ResidentSweep.ready_of_ofStore taken
    obtain ⟨rest, ran⟩ := runEpochsUnder_of_hardConstraint failed
    have size : (startOf settings atoms : Ending α β).values.size = atoms.size := Array.size_map
    by_cases fit : ∀ term ∈ store.terms.toList, term.Followable atoms.size
    · obtain ⟨after, last, succeeded, -⟩ := exists_runEpochsUnder_of_followable settings
        atoms.records token settings.maxEpochs (ResidentSweep.whole_ofStore taken) (size ▸ fit)
      rw [succeeded] at ran
      cases ran
    · obtain ⟨first, term, fault, found, followed, refuses, later, fails⟩ :=
        runEpoch_of_unfit (β := β) taken fit
      cases fault_of_runEpochsUnder fails ran
      cases refuses with
      | hard hard =>
          obtain ⟨number, here, held, inOrder⟩ := exists_number ready found
          have inside : place < order.length := (List.getElem?_eq_some_iff.mp here).1
          refine ⟨perm, ?_, ⟨number, term, here, held, hard, inOrder⟩, fun earlier before => ?_⟩
          · rwa [perm.length_eq, List.length_range] at inside
          · have within : earlier < (firstTerms settings store).length :=
              Nat.lt_trans before (List.getElem?_eq_some_iff.mp found).1
            obtain ⟨other, there, heldOther, -⟩ :=
              exists_number ready (List.getElem?_eq_getElem within)
            refine ⟨other, _, there, heldOther, (followed _ ?_).1⟩
            exact List.mem_take_iff_getElem.mpr ⟨earlier, by omega, rfl⟩

section Sample

def potential : Term Single := ⟨⟨0⟩, .linear, .soft 1, 0, [⟨0⟩], [1]⟩

def constraint : Term Single := ⟨⟨0⟩, .hinge, .hard, 0, [⟨0⟩], [1]⟩

/-- A potential and a constraint on one atom, in this order. -/
def mixedSession : GroundingSession Single :=
  let atoms := (AtomStore.ofRecords [⟨⟨0x3f000000⟩, false⟩]).toOption.getD .empty
  ((GroundingSession.mk .empty atoms).addAll [potential, constraint]).2.finish.2

/-- These settings go through two terms in the other order first. -/
def swapping : DescentSettings Single := { DescentSettings.standard with seed := 2 }

theorem firstTerms_swapping :
    firstTerms swapping mixedSession.store = [constraint, potential] := by
  have size : mixedSession.store.size = 2 := by decide +kernel
  have order : firstOrder swapping 2 = [1, 0] :=
    congrArg Array.toList Generator.shuffle_pair_ofSeed_two
  rw [firstTerms, size, order]
  decide +kernel

theorem swapping_finds_first :
    (optimizeResident swapping false mixedSession.store mixedSession.atoms :
      Except (DescentFault Single) (RunReport Double) × AtomStore Single).1 =
        .error (.solver (.hardConstraint 0)) := by
  have ready : mixedSession.store.phase = .ready := by decide +kernel
  have positive : Scalar.isPositive swapping.learningRate = true := by decide +kernel
  have unfit : ¬ ∀ term ∈ mixedSession.store.terms.toList,
      term.Followable mixedSession.atoms.size := by decide +kernel
  obtain ⟨place, term, fault, found, earlier, refuses, ran⟩ :=
    optimizeResident_of_unfit (β := Double) ready positive (by decide) unfit
  rw [firstTerms_swapping] at found earlier
  rw [ran]
  cases place with
  | zero =>
      cases found
      cases refuses with
      | hard => rfl
      | outside soft => cases soft
  | succ place =>
      have first := (earlier _ (List.mem_cons_self ..)).1
      cases first

theorem hardConstraint_place_swapping :
    (optimizeResidentUnder swapping (.ofStream fun _ => false) mixedSession.store
        mixedSession.atoms : Except (DescentFault Single) (RunReport Double) × AtomStore Single).1 =
      .error (.solver (.hardConstraint 0)) ∧
      ∃ number term, (firstOrder swapping mixedSession.store.size)[0]? = some number ∧
        mixedSession.store.get number = .ok term ∧ term.isHard = true := by
  have failed := swapping_finds_first
  rw [optimizeResident] at failed
  obtain ⟨-, -, ⟨number, term, here, held, hard, -⟩, -⟩ := hardConstraint_place failed
  exact ⟨failed, number, term, here, held, hard⟩

/-- The number in the fault is not always that of a constraint. Here it is that of a potential. -/
theorem hardConstraint_names_potential :
    swapping.shuffleTerms = true ∧ mixedSession.store.phase = .ready ∧
      (∀ term ∈ mixedSession.store.terms.toList, ∀ atom ∈ term.atoms,
        atom.index < mixedSession.atoms.size) ∧
      (optimizeResident swapping false mixedSession.store mixedSession.atoms :
        Except (DescentFault Single) (RunReport Double) × AtomStore Single).1 =
          .error (.solver (.hardConstraint 0)) ∧
      ∃ term, mixedSession.store.get 0 = .ok term ∧ term.isHard = false := by
  have ready : mixedSession.store.phase = .ready := by decide +kernel
  have found : mixedSession.store.terms[0]? = some potential := by decide +kernel
  refine ⟨rfl, ready, by decide +kernel, swapping_finds_first, potential, ?_, rfl⟩
  simp only [ResidentStore.get, ready, found]

end Sample

end Descent

end HingeLoss
