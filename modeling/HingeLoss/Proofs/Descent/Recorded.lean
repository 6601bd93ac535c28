import HingeLoss.Proofs.Descent.Alike
import HingeLoss.Proofs.Descent.Token
import HingeLoss.Proofs.Store.Sweep

/-! Only atoms of the terms that a descent was lent can have moved. -/

namespace HingeLoss

/-- A stream with the terms that it has lent, the last one first. -/
structure Recorded (σ α : Type) where
  stream : σ
  lent : List (Term α)

theorem ResidentSweep.mem_of_next {α : Type} {sweep : ResidentSweep α} {term : Term α}
    (lent : sweep.next.1 = some term) : term ∈ sweep.terms := by
  unfold next at lent
  split at lent
  · split at lent
    · rename_i found
      cases lent
      exact Array.mem_of_getElem? found
    · cases lent
  · cases lent

namespace Recorded

variable {σ α : Type}

/-- The record after an answer. -/
def note (lent : List (Term α)) : Except (StoreFault α) (Option (Term α)) → List (Term α)
  | .ok (some term) => term :: lent
  | _ => lent

theorem mem_note {lent : List (Term α)} {term : Term α} (member : term ∈ lent)
    (answer : Except (StoreFault α) (Option (Term α))) : term ∈ note lent answer := by
  unfold note
  split
  · exact List.mem_cons_of_mem _ member
  · exact member

variable [TermStream σ α]

instance : TermStream (Recorded σ α) α where
  beginSweep recorded :=
    ((TermStream.beginSweep recorded.stream).1,
      ⟨(TermStream.beginSweep recorded.stream).2, recorded.lent⟩)
  nextTerm recorded :=
    ((TermStream.nextTerm recorded.stream).1,
      ⟨(TermStream.nextTerm recorded.stream).2,
        note recorded.lent (TermStream.nextTerm recorded.stream).1⟩)
  termCount recorded := TermStream.termCount recorded.stream
  left recorded := TermStream.left recorded.stream
  leftDecreases := by
    intro recorded term rest lent
    obtain ⟨found, rfl⟩ := Prod.mk.inj lent
    exact TermStream.leftDecreases _ term _ (Prod.ext found rfl)

/-- Nothing tells a stream from one that keeps a record. -/
theorem bisimulation :
    TermStream.Bisimulation (fun (stream : σ) (recorded : Recorded σ α) => recorded.stream = stream)
      (fun stream recorded => recorded.stream = stream) where
  beginSweep := by
    rintro _ recorded rfl
    exact ⟨rfl, rfl⟩
  nextTerm := by
    rintro _ recorded rfl
    exact ⟨rfl, rfl⟩
  termCount := by
    rintro _ recorded rfl
    rfl
  leave _ _ same := same

/-- What was on record stays there. -/
theorem lent_bisimulation (lent : List (Term α)) :
    TermStream.Bisimulation
      (fun first second : Recorded σ α => first = second ∧ ∀ term ∈ lent, term ∈ first.lent)
      (fun first second => first = second ∧ ∀ term ∈ lent, term ∈ first.lent) where
  beginSweep := by
    rintro recorded _ ⟨rfl, known⟩
    exact ⟨rfl, rfl, known⟩
  nextTerm := by
    rintro recorded _ ⟨rfl, known⟩
    exact ⟨rfl, rfl, fun term member => mem_note (known term member) _⟩
  termCount := by
    rintro recorded _ ⟨rfl, -⟩
    rfl
  leave _ _ same := same

/-- A sweep over a resident store whose record has terms of the store alone. -/
def OfStore {α : Type} (terms : Array (Term α)) (seed : Option UInt64) (sweep : ResidentSweep α)
    (recorded : Recorded (ResidentSweep α) α) : Prop :=
  recorded.stream = sweep ∧ sweep.Whole terms seed ∧ ∀ term ∈ recorded.lent, term ∈ terms

theorem ofStore_bisimulation {α : Type} (terms : Array (Term α)) (seed : Option UInt64) :
    TermStream.Bisimulation (OfStore terms seed) (OfStore terms seed) where
  beginSweep := by
    rintro _ recorded ⟨rfl, whole, held⟩
    exact ⟨rfl, rfl, whole.begin, held⟩
  nextTerm := by
    rintro _ recorded ⟨rfl, whole, held⟩
    refine ⟨rfl, rfl, whole.next, ?_⟩
    change ∀ term ∈ note recorded.lent (.ok recorded.stream.next.1), term ∈ terms
    cases lent : recorded.stream.next.1 with
    | none => exact held
    | some term =>
        exact List.forall_mem_cons.mpr ⟨whole.held ▸ ResidentSweep.mem_of_next lent, held⟩
  termCount := by
    rintro _ recorded ⟨rfl, -⟩
    rfl
  leave _ _ same := same

/-- Values that differ only where a term on record has an atom. -/
def Covers (recorded : Recorded σ α) (before after : Array α) : Prop :=
  ∀ index, (∀ term ∈ recorded.lent, ∀ atom ∈ term.atoms, atom.index ≠ index) →
    after[index]? = before[index]?

omit [TermStream σ α] in
theorem Covers.mono {recorded later : Recorded σ α} {before after : Array α}
    (covers : recorded.Covers before after)
    (more : ∀ term ∈ recorded.lent, term ∈ later.lent) : later.Covers before after :=
  fun index apart => covers index fun term member => apart term (more term member)

end Recorded

namespace Epoch

variable {α β : Type} [Scalar α] [Scalar β] [Widening α β]

theorem getElem?_moveAtom (plan : EpochPlan α) (scale : α) (epoch : Epoch α β)
    {entry : AtomId × α} {index : Nat} (apart : entry.1.index ≠ index) :
    (moveAtom plan scale epoch entry).values[index]? = epoch.values[index]? := by
  unfold moveAtom
  dsimp only
  split
  · rfl
  · split
    · rfl
    · exact Array.getElem?_setIfInBounds_ne apart

theorem getElem?_foldl_moveAtom (plan : EpochPlan α) (scale : α) {index : Nat}
    (entries : List (AtomId × α)) (apart : ∀ entry ∈ entries, entry.1.index ≠ index)
    (epoch : Epoch α β) :
    (entries.foldl (moveAtom plan scale) epoch).values[index]? = epoch.values[index]? := by
  induction entries generalizing epoch with
  | nil => rfl
  | cons entry later inductionHypothesis =>
      rw [List.forall_mem_cons] at apart
      rw [List.foldl_cons, inductionHypothesis apart.2, getElem?_moveAtom plan scale epoch apart.1]

/-- A step moves the atoms of its term alone. -/
theorem getElem?_follow {plan : EpochPlan α} {epoch after : Epoch α β} {term : Term α} {index : Nat}
    (apart : ∀ atom ∈ term.atoms, atom.index ≠ index)
    (followed : follow plan epoch term = .ok after) :
    after.values[index]? = epoch.values[index]? := by
  unfold follow at followed
  split at followed
  · cases followed
  · split at followed
    · cases followed
    · dsimp only at followed
      split at followed
      · cases followed
        rfl
      · cases followed
        exact getElem?_foldl_moveAtom plan _ term.entries
          (fun entry member => apart entry.1 (List.of_mem_zip member).1) _

end Epoch

namespace Descent

variable {σ α β : Type} [Scalar α] [Scalar β] [Widening α β] [TermStream σ α]

theorem covers_fold (plan : EpochPlan α) {before : Array α} (epoch : Epoch α β)
    {recorded : Recorded σ α} (here : recorded.Covers before epoch.values) :
    (TermStream.fold (Epoch.follow plan) SolverFault.store epoch recorded).2.2.Covers before
      (TermStream.fold (Epoch.follow plan) SolverFault.store epoch recorded).1.values := by
  refine TermStream.fold_invariant
    (fun (epoch : Epoch α β) (recorded : Recorded σ α) => recorded.Covers before epoch.values)
    (fun epoch recorded covers => covers.mono fun term member => Recorded.mem_note member _) ?_ here
  intro epoch recorded term rest after covers lent followed index apart
  obtain ⟨answer, rfl⟩ := Prod.mk.inj lent
  rw [answer] at apart
  obtain ⟨apartNow, apartBefore⟩ := List.forall_mem_cons.mp apart
  rw [Epoch.getElem?_follow apartNow followed]
  exact covers index apartBefore

theorem covers_runEpoch {settings : DescentSettings α} {records : Array (AtomRecord α)}
    {before : Array α} {ending after : Ending α β} {recorded rest : Recorded σ α}
    (here : recorded.Covers before ending.values)
    (ran : runEpoch settings records ending recorded = (.ok after, rest)) :
    rest.Covers before after.values := by
  unfold runEpoch at ran
  rcases begun : TermStream.beginSweep recorded with ⟨fault | _, started⟩
  · rw [begun] at ran
    cases ran
  · rw [begun] at ran
    dsimp only at ran
    have stillHere : started.Covers before ending.values := by
      obtain ⟨-, rfl⟩ := Prod.mk.inj begun
      exact here
    have covers := covers_fold
      ⟨records, settings.adagrad, settings.schedule.step settings.learningRate ending.epochs⟩
      (⟨ending.values, ending.accumulated, 0, 0⟩ : Epoch α β) stillHere
    split at ran
    · cases ran
    · rename_i folded
      rw [folded] at covers
      cases ran
      exact covers

theorem covers_runEpochsUnder {settings : DescentSettings α} {records : Array (AtomRecord α)}
    {token : Token (Recorded σ α)} {before : Array α} (count : Nat) {ending after : Ending α β}
    {recorded rest : Recorded σ α} (here : recorded.Covers before ending.values)
    (ran : runEpochsUnder settings records token count ending recorded = (.ok after, rest)) :
    rest.Covers before after.values :=
  runEpochsUnder_invariant (fun values recorded => recorded.Covers before values)
    (fun _ _ _ _ covers epochRan => covers_runEpoch covers epochRan) here ran

/-- A run leaves the atoms as they are, or it writes values back that differ from those of the atoms
only at the terms on record. -/
theorem optimize_recorded (settings : DescentSettings α) (cancelled : Recorded σ α → Bool)
    (recorded : Recorded σ α) (atoms : AtomStore α) {answer : Except (DescentFault α) (RunReport β)}
    {rest : Recorded σ α} {after : AtomStore α}
    (ran : optimize settings cancelled recorded atoms = (answer, rest, after)) :
    after = atoms ∨ ∃ values, rest.Covers atoms.values values ∧
      after = (atoms.writeBack values).2 := by
  unfold optimize optimizeUnder at ran
  split at ran
  · cases ran
    exact .inl rfl
  · dsimp only at ran
    split at ran
    · cases ran
      exact .inl rfl
    · rename_i ending stopped epochsRan
      have begun : recorded.Covers atoms.values atoms.values := fun _ _ => rfl
      have covers := covers_runEpochsUnder _ begun epochsRan
      split at ran
      · rename_i written
        cases ran
        exact .inr ⟨ending.values, covers, by rw [written]⟩
      · rename_i written
        -- The last sweep only adds to the record.
        have onRecord : stopped = stopped ∧ ∀ term ∈ stopped.lent, term ∈ stopped.lent :=
          ⟨rfl, fun _ member => member⟩
        obtain ⟨_, last, _, evaluated, -, -, known⟩ :=
          evaluate_alike (Recorded.lent_bisimulation stopped.lent) ending onRecord
        rw [evaluated] at ran
        cases ran
        exact .inr ⟨ending.values, covers.mono known, by rw [written]⟩

end Descent

end HingeLoss
