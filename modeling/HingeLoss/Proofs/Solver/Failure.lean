import HingeLoss.Consensus.Solver
import HingeLoss.Descent.Solver
import HingeLoss.Number.Double
import HingeLoss.Proofs.Solver.WriteBack
import HingeLoss.Store.Session

/-! What a failed run leaves in the atoms. -/

namespace HingeLoss

namespace AtomStore

variable {α : Type}

/-- Only values of free atoms below a bound have changed. -/
structure MovedBelow (bound : Nat) (before after : AtomStore α) : Prop where
  partition : after.partition = before.partition
  flags : ∀ index : Nat, after.records[index]?.map AtomRecord.fixed =
    before.records[index]?.map AtomRecord.fixed
  kept : ∀ (index : Nat) (record : AtomRecord α), before.records[index]? = some record →
    record.fixed = true ∨ bound ≤ index → after.records[index]? = some record

theorem MovedBelow.size {bound : Nat} {before after : AtomStore α}
    (moved : MovedBelow bound before after) : after.size = before.size := by
  rw [AtomStore.size, ← after.sizesAgree, moved.partition, before.sizesAgree, AtomStore.size]

theorem MovedBelow.refl (bound : Nat) (atoms : AtomStore α) : MovedBelow bound atoms atoms :=
  ⟨rfl, fun _ => rfl, fun _ _ found _ => found⟩

theorem MovedBelow.trans {bound : Nat} {before between after : AtomStore α}
    (first : MovedBelow bound before between) (second : MovedBelow bound between after) :
    MovedBelow bound before after where
  partition := second.partition.trans first.partition
  flags index := (second.flags index).trans (first.flags index)
  kept index record found still :=
    second.kept index record (first.kept index record found still) still

theorem MovedBelow.mono {bound larger : Nat} {before after : AtomStore α}
    (moved : MovedBelow bound before after) (le : bound ≤ larger) :
    MovedBelow larger before after where
  partition := moved.partition
  flags := moved.flags
  kept index record found still := moved.kept index record found (still.imp_right (Nat.le_trans le))

variable [Scalar α]

theorem movedBelow_of_writeBackAt {atoms after : AtomStore α} {values : Array α} {index : Nat}
    (written : atoms.writeBackAt values index = .ok after) :
    MovedBelow (index + 1) atoms after := by
  obtain rfl | ⟨-, value, -, -, -, assigned⟩ := writeBackAt_cases written
  · exact .refl _ _
  · have moved : MovedOnly (· = .ofIndex index) atoms after := movedOnly_of_assign rfl assigned
    -- A number is cut to its width, which can only make the index smaller.
    have below := AtomId.index_ofIndex_le index
    refine ⟨moved.partition, moved.flags, fun other record found still => ?_⟩
    refine moved.kept other record found (still.imp_right fun above atom same => ?_)
    rw [same]
    omega

/-- Only a value that is not finite cannot be written back. -/
theorem writeBackAt_error {atoms : AtomStore α} {values : Array α} {index : Nat}
    {fault : AtomFault α} (addressed : atoms.size ≤ UInt32.size)
    (failed : atoms.writeBackAt values index = .error fault) :
    ∃ value, values[index]? = some value ∧ Scalar.isFinite value = false ∧
      fault = .invalidValue index value := by
  unfold writeBackAt at failed
  split at failed
  · rename_i record value found given
    split at failed
    · cases failed
    · rename_i changed
      have inRange := (Array.getElem?_eq_some_iff.mp found).1
      have same : (AtomId.ofIndex index).index = index :=
        AtomId.index_ofIndex (Nat.lt_of_lt_of_le inRange addressed)
      have free : record.fixed = false := by
        cases fixed : record.fixed with
        | false => rfl
        | true => simp [fixed] at changed
      simp only [assign, lookup, same, found, free, Bool.false_eq_true, if_false] at failed
      split at failed
      · cases failed
      · rename_i notFinite
        cases failed
        exact ⟨value, given, Bool.not_eq_true _ ▸ notFinite, rfl⟩
  · cases failed

theorem writeBackFrom_movedBelow (values : Array α) (bound : Nat) (indices : List Nat)
    (below : ∀ index ∈ indices, index < bound) (atoms : AtomStore α) :
    MovedBelow bound atoms (writeBackFrom values indices atoms).2 := by
  induction indices generalizing atoms with
  | nil => exact .refl _ _
  | cons index rest inductionHypothesis =>
      rw [List.forall_mem_cons] at below
      rw [writeBackFrom]
      split
      · exact .refl _ _
      · rename_i between written
        exact ((movedBelow_of_writeBackAt written).mono below.1).trans
          (inductionHypothesis below.2 between)

/-- A write-back that fails has come to an index, and has written at the indices before it. -/
theorem writeBackFrom_error {values : Array α} {indices : List Nat} {atoms after : AtomStore α}
    {fault : AtomFault α} (failed : writeBackFrom values indices atoms = (.error fault, after)) :
    ∃ before index rest, indices = before ++ index :: rest ∧
      writeBackFrom values before atoms = (.ok (), after) ∧
      after.writeBackAt values index = .error fault := by
  induction indices generalizing atoms with
  | nil => cases failed
  | cons index rest inductionHypothesis =>
      rw [writeBackFrom] at failed
      split at failed
      · rename_i stopped
        cases failed
        exact ⟨[], index, rest, rfl, rfl, stopped⟩
      · rename_i between written
        obtain ⟨before, other, others, rfl, wrote, stopped⟩ := inductionHypothesis failed
        exact ⟨index :: before, other, others, rfl, by rw [writeBackFrom, written]; exact wrote,
          stopped⟩

/-- The write-back of some values has come to one that is not finite. The free atoms before it have
taken theirs, and nothing else has changed. -/
def StoppedAt (before after : AtomStore α) (fault : AtomFault α) : Prop :=
  ∃ values index value, values[index]? = some value ∧ Scalar.isFinite value = false ∧
    fault = .invalidValue index value ∧
    writeBackFrom values (List.range index) before = (.ok (), after) ∧
    MovedBelow index before after

theorem stoppedAt_of_writeBack {atoms after : AtomStore α} {values : Array α} {fault : AtomFault α}
    (addressed : atoms.size ≤ UInt32.size)
    (failed : atoms.writeBack values = (.error fault, after)) : StoppedAt atoms after fault := by
  obtain ⟨before, index, rest, split, written, stopped⟩ := writeBackFrom_error failed
  -- The indices are a range, so those before the index are all the smaller ones.
  have first : before = List.range index := by
    rw [List.range_eq_range'] at split
    obtain ⟨count, -, rfl, others⟩ := List.range'_eq_append_iff.mp split
    obtain ⟨same, -, -⟩ := List.range'_eq_cons_iff.mp others.symm
    rw [List.range_eq_range', ← same, Nat.zero_add, Nat.mul_one]
  subst first
  have moved := writeBackFrom_movedBelow values index (List.range index)
    (fun _ member => List.mem_range.mp member) atoms
  rw [written] at moved
  obtain ⟨value, given, notFinite, rfl⟩ := writeBackAt_error (moved.size ▸ addressed) stopped
  exact ⟨values, index, value, given, notFinite, rfl, written, moved⟩

end AtomStore

namespace TermStream

/-- A fold fails with a fault of the stream or of a step. -/
theorem fold_fault {σ α γ ε : Type} [TermStream σ α] {step : γ → Term α → Except ε γ}
    {wrap : StoreFault α → ε} {state ended : γ} {stream rest : σ} {fault : ε}
    (failed : fold step wrap state stream = (ended, some fault, rest)) :
    (∃ cause, fault = wrap cause) ∨ ∃ state term, step state term = .error fault := by
  fun_induction fold step wrap state stream with
  | case1 state stream cause _ _ =>
      cases failed
      exact .inl ⟨cause, rfl⟩
  | case2 => cases failed
  | case3 state stream term _ _ cause refused =>
      cases failed
      exact .inr ⟨_, term, refused⟩
  | case4 state stream term _ _ after stepped inductionHypothesis =>
      exact inductionHypothesis failed

end TermStream

namespace Descent

variable {σ α β : Type} [Scalar α] [Scalar β] [Widening α β] [TermStream σ α]

/-- The last sweep fails with a fault of the stream, or at a term that reads an atom without a
value. -/
theorem evaluate_error {ending : Ending α β} {stream rest : σ} {fault : DescentFault α}
    (failed : evaluate ending stream = (.error fault, rest)) :
    (∃ cause, fault = .solver (.store cause)) ∨ fault = .unreadable := by
  unfold evaluate at failed
  dsimp only at failed
  split at failed
  · cases failed
  · split at failed
    · rename_i cause _ _
      cases failed
      exact .inl ⟨cause, rfl⟩
    · split at failed
      · rename_i folded
        cases failed
        rcases TermStream.fold_fault folded with ⟨cause, rfl⟩ | ⟨evaluation, term, refused⟩
        · exact .inl ⟨cause, rfl⟩
        · unfold evaluateTerm at refused
          split at refused
          · cases refused
          · cases refused
            exact .inr rfl
      · split at failed <;> cases failed

end Descent

open AtomStore

section Runs

variable {σ α β : Type} [Scalar α] [Scalar β] [Widening α β] [TermStream σ α]
  {atoms after : AtomStore α}

theorem ConsensusSolver.atoms_of_error (addressed : atoms.size ≤ UInt32.size)
    {solver left : ConsensusSolver α} {store : ResidentStore α} {cancelled : Nat → Bool}
    {fault : SolverFault α}
    (failed : solver.optimize store atoms cancelled =
      ((.error fault, left, after) : Except _ (RunReport β) × _)) :
    after = atoms ∨ ∃ cause, fault = .atom cause ∧ StoppedAt atoms after cause := by
  unfold optimize at failed
  split at failed
  · cases failed
    exact .inl rfl
  · split at failed
    · cases failed
      exact .inl rfl
    · dsimp only at failed
      split at failed
      · cases failed
        exact .inl rfl
      · split at failed
        · rename_i stopped
          cases failed
          exact .inr ⟨_, rfl, stoppedAt_of_writeBack addressed stopped⟩
        · cases failed

theorem Descent.atoms_of_error (addressed : atoms.size ≤ UInt32.size)
    {settings : DescentSettings α} {cancelled : σ → Bool} {stream rest : σ} {fault : DescentFault α}
    (failed : optimize settings cancelled stream atoms =
      ((.error fault, rest, after) : Except _ (RunReport β) × _)) :
    after = atoms ∨ (∃ cause, fault = .solver (.atom cause) ∧ StoppedAt atoms after cause) ∨
      ((∃ cause, fault = .solver (.store cause)) ∨ fault = .unreadable) ∧
        ∃ values, atoms.writeBack values = (.ok (), after) ∧
          MovedBelow values.size atoms after := by
  unfold optimize optimizeUnder at failed
  split at failed
  · cases failed
    exact .inl rfl
  · dsimp only at failed
    split at failed
    · cases failed
      exact .inl rfl
    · rename_i ending _ _
      split at failed
      · rename_i stopped
        cases failed
        exact .inr (.inl ⟨_, rfl, stoppedAt_of_writeBack addressed stopped⟩)
      · rename_i written
        obtain ⟨evaluated, same⟩ := Prod.mk.inj failed
        obtain ⟨rfl, rfl⟩ := Prod.mk.inj same
        have moved := writeBackFrom_movedBelow ending.values ending.values.size
          (List.range ending.values.size) (fun _ member => List.mem_range.mp member) atoms
        rw [AtomStore.writeBack] at written
        rw [written] at moved
        exact .inr (.inr ⟨evaluate_error (Prod.ext evaluated rfl), ending.values, written, moved⟩)

end Runs

/-- A failed run leaves the atoms alone, unless the write-back has come to a value that is not
finite or the last sweep of a descent has failed after it. -/
theorem atoms_of_failed_run {σ α β : Type} [Scalar α] [Scalar β] [Widening α β] [TermStream σ α]
    (atoms after : AtomStore α) (addressed : atoms.size ≤ UInt32.size) :
    (∀ (solver left : ConsensusSolver α) (store : ResidentStore α) (cancelled : Nat → Bool)
        (fault : SolverFault α),
      solver.optimize store atoms cancelled =
          ((.error fault, left, after) : Except _ (RunReport β) × _) →
        after = atoms ∨ ∃ cause, fault = .atom cause ∧ StoppedAt atoms after cause) ∧
    ∀ (settings : DescentSettings α) (cancelled : σ → Bool) (stream rest : σ)
        (fault : DescentFault α),
      Descent.optimize settings cancelled stream atoms =
          ((.error fault, rest, after) : Except _ (RunReport β) × _) →
        after = atoms ∨ (∃ cause, fault = .solver (.atom cause) ∧ StoppedAt atoms after cause) ∨
          ((∃ cause, fault = .solver (.store cause)) ∨ fault = .unreadable) ∧
            ∃ values, atoms.writeBack values = (.ok (), after) ∧
              MovedBelow values.size atoms after :=
  ⟨fun _ _ _ _ _ failed => ConsensusSolver.atoms_of_error addressed failed,
    fun _ _ _ _ _ failed => Descent.atoms_of_error addressed failed⟩

/-- A sealed store of a term that moves the first of two atoms, and of two terms that push the
second one to both infinities. -/
def overflowingSession : GroundingSession Single :=
  let half : Single := ⟨0x3f000000⟩
  let huge : Single := ⟨0x7f61b1e6⟩
  let atoms := (AtomStore.ofRecords [⟨half, false⟩, ⟨half, false⟩]).toOption.getD .empty
  ((GroundingSession.mk .empty atoms).addAll
    [⟨⟨0⟩, .linear, .soft 1, 0, [⟨0⟩], [1]⟩, ⟨⟨0⟩, .linear, .soft huge, 0, [⟨1⟩], [huge]⟩,
      ⟨⟨0⟩, .linear, .soft huge, 0, [⟨1⟩], [-huge]⟩]).2.finish.2

/-- One iteration over these terms. The mean of the copies of the second atom is no number. -/
def overflowingRun :
    Except (SolverFault Single) (RunReport Double) × ConsensusSolver Single × AtomStore Single :=
  (ConsensusSolver.ofSettings { ConsensusSettings.standard with maxIterations := 1 }).optimize
    overflowingSession.store overflowingSession.atoms fun _ => false

/-- A failed run has moved an atom, although every term is one that can be built. -/
theorem failed_run_moves_atom :
    (∀ term ∈ overflowingSession.store.terms.toList,
      (Term.build term.rule term.shape term.weight term.atoms term.coefficients
        term.constant).toOption = some term) ∧
      overflowingSession.store.phase = .ready ∧ overflowingRun.1.isOk = false ∧
      overflowingSession.atoms.values = #[⟨0x3f000000⟩, ⟨0x3f000000⟩] ∧
      overflowingRun.2.2.values = #[0, ⟨0x3f000000⟩] := by
  decide +kernel

/-- The write-back of this run has stopped. -/
theorem atoms_of_overflowingRun :
    ∃ cause, overflowingRun.1 = .error (.atom cause) ∧
      StoppedAt overflowingSession.atoms overflowingRun.2.2 cause := by
  have notOk : overflowingRun.1.isOk = false := by decide +kernel
  have moved : overflowingRun.2.2.values ≠ overflowingSession.atoms.values := by decide +kernel
  cases failed : overflowingRun.1 with
  | ok report =>
      rw [failed] at notOk
      cases notOk
  | error fault =>
      rcases (atoms_of_failed_run (σ := ResidentSweep Single) (β := Double)
        overflowingSession.atoms overflowingRun.2.2 (by decide +kernel)).1 _ overflowingRun.2.1 _ _
        fault (Prod.ext failed rfl) with same | ⟨cause, rfl, stopped⟩
      · exact absurd (congrArg AtomStore.values same) moved
      · exact ⟨cause, rfl, stopped⟩

end HingeLoss
