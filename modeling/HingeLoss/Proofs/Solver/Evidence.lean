import HingeLoss.Proofs.Consensus.Copies
import HingeLoss.Proofs.Descent.Recorded
import HingeLoss.Proofs.Solver.Failure
import HingeLoss.Proofs.Solver.WriteBack

/-! Observed atoms keep their records and all values stay in the unit interval, whatever runs. -/

namespace HingeLoss

namespace AtomStore

variable {registered : List (AtomRecord Single)} {atoms after : AtomStore Single}

/-- The records that a change registers. -/
def accepted : AtomChange Single → List (AtomRecord Single)
  | .register record => if inUnit record.value then [record] else []
  | _ => []

/-- The atom stores that changes and runs lead to, whatever these are run on and however they end,
each with the records that were registered in it. -/
inductive Lived : List (AtomRecord Single) → AtomStore Single → Prop
  | empty : Lived [] .empty
  | change {registered : List (AtomRecord Single)} {atoms : AtomStore Single}
      (lived : Lived registered atoms) (change : AtomChange Single) :
      Lived (registered ++ accepted change) (atoms.change change)
  | consensus {registered : List (AtomRecord Single)} {atoms : AtomStore Single}
      (lived : Lived registered atoms) (solver : ConsensusSolver Single)
      (store : ResidentStore Single) (cancelled : Nat → Bool) :
      Lived registered
        (solver.optimize store atoms cancelled : Except _ (RunReport Double) × _).2.2
  | descent {registered : List (AtomRecord Single)} {atoms : AtomStore Single} {σ : Type}
      [TermStream σ Single] (lived : Lived registered atoms) (settings : DescentSettings Single)
      (cancelled : σ → Bool) (stream : σ) :
      Lived registered
        (Descent.optimize settings cancelled stream atoms : Except _ (RunReport Double) × _).2.2
  | residentDescent {registered : List (AtomRecord Single)} {atoms : AtomStore Single}
      (lived : Lived registered atoms) (settings : DescentSettings Single) (cancelled : Bool)
      (store : ResidentStore Single) :
      Lived registered
        (Descent.optimizeResident settings cancelled store atoms :
          Except _ (RunReport Double) × _).2

/-- A store of the atoms that were registered, each with its flag and the observed ones with their
values. -/
structure Faithful (registered : List (AtomRecord Single)) (atoms : AtomStore Single) : Prop where
  valid : atoms.Valid
  flags : ∀ index : Nat, atoms.records[index]?.map AtomRecord.fixed =
    registered[index]?.map AtomRecord.fixed
  observed : ∀ (index : Nat) (record : AtomRecord Single), registered[index]? = some record →
    record.fixed = true → atoms.records[index]? = some record

theorem Faithful.flags_eq (faithful : Faithful registered atoms) :
    (atoms.records.map AtomRecord.fixed).toList = registered.map AtomRecord.fixed := by
  apply List.ext_getElem?
  intro index
  rw [Array.getElem?_toList, Array.getElem?_map, List.getElem?_map, faithful.flags]

theorem Faithful.size_eq (faithful : Faithful registered atoms) :
    atoms.size = registered.length := by
  have lengths := congrArg List.length faithful.flags_eq
  simpa [size] using lengths

theorem Faithful.congr (faithful : Faithful registered atoms)
    (same : after.records = atoms.records) : Faithful registered after := by
  refine ⟨?_, ?_, ?_⟩
  · intro record member
    exact faithful.valid record (same ▸ member)
  · rw [same]
    exact faithful.flags
  · rw [same]
    exact faithful.observed

theorem Faithful.moved {touched : AtomId → Prop} (faithful : Faithful registered atoms)
    (valid : after.Valid) (moved : MovedOnly touched atoms after) : Faithful registered after where
  valid := valid
  flags index := (moved.flags index).trans (faithful.flags index)
  observed index record found fixed :=
    moved.kept index record (faithful.observed index record found fixed) (.inl fixed)

/-- A new record stands behind those that are there. -/
theorem Faithful.push (faithful : Faithful registered atoms) (record : AtomRecord Single)
    (same : after.records = atoms.records.push record) (valid : after.Valid) :
    Faithful (registered ++ [record]) after := by
  have behind (index : Nat) : (registered ++ [record])[index]? =
      if index = atoms.size then some record else registered[index]? := by
    rw [faithful.size_eq]
    grind
  refine ⟨valid, fun index => ?_, fun index found => ?_⟩
  · rw [same, Array.getElem?_push, behind]
    split
    · rw [if_pos ‹_›]
    · rw [if_neg ‹_›]
      exact faithful.flags index
  · rw [same, Array.getElem?_push, behind]
    split
    · rw [if_pos ‹_›]
      exact fun given _ => given
    · rw [if_neg ‹_›]
      exact faithful.observed index found

theorem Faithful.change (faithful : Faithful registered atoms) (change : AtomChange Single) :
    Faithful (registered ++ accepted change) (atoms.change change) := by
  have valid := faithful.valid.change change
  cases change with
  | register record =>
      by_cases unit : inUnit record.value = true
      · simp only [accepted, if_pos unit]
        refine faithful.push record ?_ valid
        simp only [AtomStore.change, AtomStore.register, if_pos unit]
      · simp only [accepted, AtomStore.change, AtomStore.register, if_neg unit, List.append_nil]
        exact faithful
  | assign atom value =>
      simp only [accepted, List.append_nil]
      cases assigned : atoms.assign atom value with
      | ok after =>
          simp only [AtomStore.change, assigned] at valid ⊢
          have touch : atom = atom := rfl
          exact faithful.moved valid (movedOnly_of_assign touch assigned)
      | error fault =>
          simp only [AtomStore.change, assigned]
          exact faithful
  | find atom =>
      simp only [accepted, List.append_nil, AtomStore.change]
      split
      · rename_i found
        exact faithful.congr (records_of_find found)
      · exact faithful
  | union first second =>
      simp only [accepted, List.append_nil, AtomStore.change]
      split
      · rename_i united
        exact faithful.congr (records_of_union united)
      · exact faithful
  | resetPartition =>
      simp only [accepted, List.append_nil]
      exact faithful.congr rfl

/-- What a run may touch when it is given a list of terms. -/
def occursIn (terms : List (Term Single)) (atom : AtomId) : Prop :=
  ∃ term ∈ terms, atom ∈ term.atoms

/-- The consensus values differ from those of the atoms only at the terms. -/
theorem consensus_keeps (valid : atoms.Valid) (solver : ConsensusSolver Single)
    (store : ResidentStore Single) (cancelled : Nat → Bool) {outcome : Except _ (RunReport Double)}
    {left : ConsensusSolver Single}
    (ran : solver.optimize store atoms cancelled = (outcome, left, after)) :
    after.Valid ∧ MovedOnly (occursIn store.terms.toList) atoms after := by
  unfold ConsensusSolver.optimize at ran
  split at ran
  · cases ran
    exact ⟨valid, .refl _ _⟩
  · split at ran
    · cases ran
      exact ⟨valid, .refl _ _⟩
    · dsimp only at ran
      split at ran
      · cases ran
        exact ⟨valid, .refl _ _⟩
      · have settled (index : Nat)
            (apart : ∀ atom, occursIn store.terms.toList atom → atom.index ≠ index) :=
          ConsensusSolver.getElem?_iterateUpTo_of_no_atom (β := Double) solver.settings
            solver.tree cancelled atoms solver.settings.maxIterations
            fun term member atom held => apart atom ⟨term, member, held⟩
        have keeps := writeBack_keeps valid settled
        split at ran
        · rename_i written
          rw [written] at keeps
          cases ran
          exact keeps
        · rename_i written
          rw [written] at keeps
          cases ran
          exact keeps

variable {σ : Type} [TermStream σ Single]

/-- The values that a descent writes back differ from those of the atoms only at the terms that the
stream has lent. -/
theorem recorded_keeps (valid : atoms.Valid) {settings : DescentSettings Single}
    {cancelled : Recorded σ Single → Bool} {recorded rest : Recorded σ Single}
    {outcome : Except _ (RunReport Double)}
    (ran : Descent.optimize settings cancelled recorded atoms = (outcome, rest, after)) :
    after.Valid ∧ MovedOnly (occursIn rest.lent) atoms after := by
  rcases Descent.optimize_recorded settings cancelled recorded atoms ran with
    rfl | ⟨values, covers, rfl⟩
  · exact ⟨valid, .refl _ _⟩
  · exact writeBack_keeps valid fun index apart =>
      covers index fun term member atom held => apart atom ⟨term, member, held⟩

/-- A descent gives the same outcome when the terms that it is lent are put on record. -/
theorem exists_recorded (settings : DescentSettings Single) (cancelled : σ → Bool) (stream : σ)
    (atoms : AtomStore Single) :
    ∃ (outcome : Except _ (RunReport Double)) (rest : σ) (lent : List (Term Single))
        (after : AtomStore Single),
      Descent.optimize settings cancelled stream atoms = (outcome, rest, after) ∧
      Descent.optimize settings (fun recorded : Recorded σ Single => cancelled recorded.stream)
        ⟨stream, []⟩ atoms = (outcome, ⟨rest, lent⟩, after) := by
  have same : (⟨stream, []⟩ : Recorded σ Single).stream = stream := rfl
  have sameToken (first : σ) (second : Recorded σ Single) (alike : second.stream = first) :
      cancelled first = (fun recorded : Recorded σ Single => cancelled recorded.stream) second :=
    congrArg cancelled alike.symm
  obtain ⟨outcome, rest, ⟨last, lent⟩, after, ran, recordedRan, rfl⟩ :=
    Descent.optimize_alike Recorded.bisimulation settings sameToken atoms same
  exact ⟨outcome, _, lent, after, ran, recordedRan⟩

theorem residentDescent_keeps (valid : atoms.Valid) (settings : DescentSettings Single)
    (cancelled : Bool) (store : ResidentStore Single) {outcome : Except _ (RunReport Double)}
    (ran : Descent.optimizeResident settings cancelled store atoms = (outcome, after)) :
    after.Valid ∧ MovedOnly (occursIn store.terms.toList) atoms after := by
  unfold Descent.optimizeResident Descent.optimizeResidentUnder at ran
  split at ran
  · cases ran
    exact ⟨valid, .refl _ _⟩
  · rename_i sweep taken
    let seed := Descent.shuffleSeed settings
    have same : Recorded.OfStore store.terms seed sweep ⟨sweep, []⟩ :=
      ⟨rfl, ResidentSweep.whole_ofStore taken, fun _ member => absurd member List.not_mem_nil⟩
    have sameToken (first : ResidentSweep Single) (second : Recorded (ResidentSweep Single) Single)
        (_ : Recorded.OfStore store.terms seed first second) :
        (fun _ : ResidentSweep Single => cancelled) first = (fun _ => cancelled) second := rfl
    obtain ⟨_, _, _, _, plainRan, recordedRan, -, -, held⟩ :=
      Descent.optimize_alike (β := Double) (Recorded.ofStore_bisimulation store.terms seed) settings
        sameToken atoms same
    rw [Descent.optimize] at plainRan
    rw [plainRan] at ran
    obtain ⟨rfl, rfl⟩ := Prod.mk.inj ran
    obtain ⟨stillValid, moved⟩ := recorded_keeps valid recordedRan
    exact ⟨stillValid, moved.mono fun atom ⟨term, member, named⟩ =>
      ⟨term, Array.mem_toList_iff.mpr (held term member), named⟩⟩

/-- No change and no run of a solver touches what was registered of the evidence. -/
theorem Lived.faithful (lived : Lived registered atoms) : Faithful registered atoms := by
  induction lived with
  | empty =>
      refine ⟨fun _ member => absurd member List.not_mem_nil, fun _ => rfl, fun _ _ found => ?_⟩
      cases found
  | change _ change inductionHypothesis => exact inductionHypothesis.change change
  | consensus _ solver store cancelled inductionHypothesis =>
      obtain ⟨valid, moved⟩ := consensus_keeps inductionHypothesis.valid solver store cancelled rfl
      exact inductionHypothesis.moved valid moved
  | @descent registered atoms _ _ _ settings cancelled stream inductionHypothesis =>
      obtain ⟨_, _, lent, _, ran, recordedRan⟩ := exists_recorded settings cancelled stream atoms
      obtain ⟨valid, moved⟩ := recorded_keeps inductionHypothesis.valid recordedRan
      rw [ran]
      exact inductionHypothesis.moved valid moved
  | residentDescent _ settings cancelled store inductionHypothesis =>
      obtain ⟨valid, moved⟩ :=
        residentDescent_keeps inductionHypothesis.valid settings cancelled store rfl
      exact inductionHypothesis.moved valid moved

/-- Every store that changes and runs lead to holds the registered atoms with their flags, values of
the unit interval, and the observed values as they were registered. -/
theorem Lived.evidence (lived : Lived registered atoms) :
    (atoms.values.size = registered.length ∧ atoms.partition.size = registered.length ∧
      (atoms.records.map AtomRecord.fixed).toList = registered.map AtomRecord.fixed) ∧
    (∀ value ∈ atoms.values, Scalar.isFinite value = true ∧ 0 ≤ value ∧ value ≤ 1) ∧
    (∀ (index : Nat) (record : AtomRecord Single), registered[index]? = some record →
      record.fixed = true → atoms.records[index]? = some record) ∧
    (∀ (solver : ConsensusSolver Single) (store : ResidentStore Single) (cancelled : Nat → Bool),
      MovedOnly (occursIn store.terms.toList) atoms
        (solver.optimize store atoms cancelled : Except _ (RunReport Double) × _).2.2) ∧
    (∀ (settings : DescentSettings Single) (cancelled : Bool) (store : ResidentStore Single),
      MovedOnly (occursIn store.terms.toList) atoms
        (Descent.optimizeResident settings cancelled store atoms :
          Except _ (RunReport Double) × _).2) ∧
    ∀ {σ : Type} [TermStream σ Single] (settings : DescentSettings Single) (cancelled : σ → Bool)
        (stream : σ),
      ∃ (outcome : Except _ (RunReport Double)) (rest : σ) (lent : List (Term Single))
          (after : AtomStore Single),
        Descent.optimize settings cancelled stream atoms = (outcome, rest, after) ∧
        Descent.optimize settings (fun recorded : Recorded σ Single => cancelled recorded.stream)
          ⟨stream, []⟩ atoms = (outcome, ⟨rest, lent⟩, after) ∧
        MovedOnly (occursIn lent) atoms after := by
  have faithful := lived.faithful
  refine ⟨⟨?_, ?_, faithful.flags_eq⟩, ?_, faithful.observed, ?_, ?_, ?_⟩
  · rw [values, Array.size_map]
    exact faithful.size_eq
  · rw [atoms.sizesAgree]
    exact faithful.size_eq
  · intro value member
    obtain ⟨record, held, rfl⟩ := Array.mem_map.mp member
    have unit := faithful.valid record (Array.mem_toList_iff.mpr held)
    simpa [inUnit, and_assoc] using unit
  · intro solver store cancelled
    exact (consensus_keeps faithful.valid solver store cancelled rfl).2
  · intro settings cancelled store
    exact (residentDescent_keeps faithful.valid settings cancelled store rfl).2
  · intro σ stream settings cancelled start
    obtain ⟨outcome, rest, lent, after, ran, recordedRan⟩ :=
      exists_recorded settings cancelled start atoms
    exact ⟨outcome, rest, lent, after, ran, recordedRan,
      (recorded_keeps faithful.valid recordedRan).2⟩

/-- Two free atoms and an observed one, after a run that has moved the first one and failed at the
second one, and after an assignment to the observed one was refused. -/
def overflownAtoms : AtomStore Single :=
  let half : Single := ⟨0x3f000000⟩
  let twoFree := (empty.change (.register ⟨half, false⟩)).change (.register ⟨half, false⟩)
  let registered := twoFree.change (.register ⟨1, true⟩)
  let solver := ConsensusSolver.ofSettings { ConsensusSettings.standard with maxIterations := 1 }
  let ran := solver.optimize overflowingSession.store (registered.change (.union ⟨0⟩ ⟨2⟩))
    fun _ => false
  (ran : Except _ (RunReport Double) × _).2.2.change (.assign ⟨2⟩ 0)

theorem evidence_overflownAtoms :
    Lived [⟨⟨0x3f000000⟩, false⟩, ⟨⟨0x3f000000⟩, false⟩, ⟨1, true⟩] overflownAtoms ∧
      overflownAtoms.values = #[0, ⟨0x3f000000⟩, 1] ∧
      (overflownAtoms.records.map AtomRecord.fixed).toList = [false, false, true] ∧
      overflownAtoms.records[2]? = some ⟨1, true⟩ ∧
      MovedOnly (occursIn overflowingSession.store.terms.toList) overflownAtoms
        (Descent.optimizeResident .standard false overflowingSession.store overflownAtoms :
          Except _ (RunReport Double) × _).2 := by
  have lived : Lived [⟨⟨0x3f000000⟩, false⟩, ⟨⟨0x3f000000⟩, false⟩, ⟨1, true⟩] overflownAtoms :=
    (((((Lived.empty.change (.register ⟨⟨0x3f000000⟩, false⟩)).change
      (.register ⟨⟨0x3f000000⟩, false⟩)).change (.register ⟨1, true⟩)).change
      (.union ⟨0⟩ ⟨2⟩)).consensus _ _ _).change (.assign ⟨2⟩ 0)
  obtain ⟨⟨-, -, flags⟩, -, observed, -, descent, -⟩ := lived.evidence
  exact ⟨lived, by decide +kernel, flags, observed 2 ⟨1, true⟩ rfl rfl, descent _ _ _⟩

end AtomStore

end HingeLoss
