import HingeLoss.Proofs.Consensus.Ending
import HingeLoss.Proofs.Consensus.Restriction
import HingeLoss.Proofs.Number.Same
import HingeLoss.Proofs.Solver.Failure
import HingeLoss.Proofs.Store.Grounded

/-! Without tolerances, a run does to a component what a run on the component alone does. -/

namespace HingeLoss

namespace ConsensusSolver

open ConsensusState

/-- Without tolerances no iteration converges. -/
theorem not_converged {settings : ConsensusSettings Single}
    (noSlack : Scalar.same settings.epsilonAbs 0 = true)
    (noScale : Scalar.same settings.epsilonRel 0 = true)
    (tree : List (LocalTerm Single) → SumTree) (begun state : ConsensusState Single) :
    (iterate (plan settings tree begun : Plan Single Double) state).2.converged = false := by
  have void :
      (iterate (plan settings tree begun : Plan Single Double) state).2.primalBound.IsVoid :=
    Double.isVoid_add (Double.isVoid_mul (.inr (Single.isVoid_widen noSlack)))
      (Double.isVoid_mul (.inl (Single.isVoid_widen noScale)))
  have above : ¬ (iterate (plan settings tree begun : Plan Single Double) state).2.primal <
      (iterate (plan settings tree begun : Plan Single Double) state).2.primalBound :=
    Double.not_sqrt_lt _ void
  rw [Residuals.converged, decide_eq_false above, Bool.false_and]

/-- The places of the free atoms of some terms, and those that no atom can name. -/
def Shared (terms : List (Term Single)) (atoms : AtomStore Single) (index : Nat) : Prop :=
  (∃ term ∈ terms, ∃ atom, term.Binds atoms atom ∧ atom.index = index) ∨ UInt32.size ≤ index

theorem shared_of_named {terms : List (Term Single)} {atoms : AtomStore Single} {index : Nat}
    (shared : Shared terms atoms (AtomId.ofIndex index).index) : Shared terms atoms index := by
  by_cases addressed : index < UInt32.size
  · rwa [AtomId.index_ofIndex addressed] at shared
  · exact .inr (Nat.not_lt.mp addressed)

theorem binds_of_mem_copies {atoms : AtomStore Single} {term : Term Single} {copy : Copy Single}
    (member : copy ∈ (LocalTerm.ofTerm atoms.records term).copies) :
    term.Binds atoms copy.atom := by
  obtain ⟨held, record, found, free⟩ := LocalTerm.mem_copies_ofTerm member
  exact ⟨held, by simp [AtomStore.isFree, found, free]⟩

/-- The run on the kept terms begins like the run on all of them, if no kept term shares a free atom
with another one. -/
theorem agrees_start {terms : List (Term Single)} {keep : Term Single → Bool}
    {atoms others : AtomStore Single} (sameRecords : others.records = atoms.records)
    (apart : ∀ first ∈ terms, keep first = true → ∀ second ∈ terms, keep second = false →
      ∀ atom, first.Binds atoms atom → ¬ second.Binds atoms atom) :
    Agrees (Shared (terms.filter keep) atoms) (start terms atoms)
      (start (terms.filter keep) others) := by
  rw [start, start, AtomStore.values, AtomStore.values, sameRecords]
  refine ⟨restricts_start ?_ ?_, rfl, fun _ _ => rfl⟩
  · intro term member kept copy copyMember
    exact .inl ⟨term, List.mem_filter.mpr ⟨member, kept⟩, copy.atom,
      binds_of_mem_copies copyMember, rfl⟩
  · rintro second member left copy copyMember (⟨first, firstMember, atom, bound, same⟩ | unnamed)
    · obtain rfl := AtomId.index_injective same
      obtain ⟨firstMember, kept⟩ := List.mem_filter.mp firstMember
      exact apart first firstMember kept second member left _ bound
        (binds_of_mem_copies copyMember)
    · exact Nat.not_le.mpr copy.atom.number.toNat_lt_size unnamed

variable {solver other left otherLeft : ConsensusSolver Single} {store part : ResidentStore Single}
  {atoms others after othersAfter : AtomStore Single} {report otherReport : RunReport Double}

/-- Two solvers without tolerances that iterate alike. -/
structure Untiring (solver other : ConsensusSolver Single) : Prop where
  penalty : other.settings.penalty = solver.settings.penalty
  maxIterations : other.settings.maxIterations = solver.settings.maxIterations
  epsilonAbs : Scalar.same solver.settings.epsilonAbs 0 = true
  epsilonRel : Scalar.same solver.settings.epsilonRel 0 = true
  otherEpsilonAbs : Scalar.same other.settings.epsilonAbs 0 = true
  otherEpsilonRel : Scalar.same other.settings.epsilonRel 0 = true

/-- A run on the kept terms leaves the free atoms of these terms as the run on all terms does, if no
kept term shares a free atom with another one. -/
theorem records_of_kept_terms {keep : Term Single → Bool} (untiring : Untiring solver other)
    (kept : part.terms.toList = store.terms.toList.filter keep)
    (sameRecords : others.records = atoms.records)
    (apart : ∀ first ∈ store.terms.toList, keep first = true →
      ∀ second ∈ store.terms.toList, keep second = false →
        ∀ atom, first.Binds atoms atom → ¬ second.Binds atoms atom)
    (ran : solver.optimize store atoms (fun _ => false) = (.ok report, left, after))
    (otherRan : other.optimize part others (fun _ => false) =
      (.ok otherReport, otherLeft, othersAfter)) :
    ∀ term ∈ part.terms.toList, ∀ atom, term.Binds atoms atom →
      after.records[atom.index]? = othersAfter.records[atom.index]? := by
  have begun := agrees_start sameRecords apart
  have written := (optimize_ok ran).1
  have otherWritten := (optimize_ok otherRan).1
  rw [kept, untiring.maxIterations] at otherWritten
  have agrees := agrees_iterateUpTo
    (plan solver.settings solver.tree (start store.terms.toList atoms))
    (plan other.settings other.tree (start (store.terms.toList.filter keep) others))
    untiring.penalty (fun _ here => begun.copyCounts_eq here)
    (not_converged untiring.epsilonAbs untiring.epsilonRel _ _)
    (not_converged untiring.otherEpsilonAbs untiring.otherEpsilonRel _ _)
    solver.settings.maxIterations
    ⟨.maxIterationsReached, 0, none, start store.terms.toList atoms⟩
    ⟨.maxIterationsReached, 0, none, start (store.terms.toList.filter keep) others⟩ begun
  dsimp only [AtomStore.writeBack] at written otherWritten
  rw [← agrees.size] at otherWritten
  intro term member atom bound
  refine AtomStore.writeBackFrom_alike (fun _ => shared_of_named) agrees.values _
    (fun index _ => by rw [sameRecords]) written otherWritten atom.index ?_
  exact .inl ⟨term, kept ▸ member, atom, bound, rfl⟩

/-- A write-back leaves every free atom with a record. -/
theorem exists_record_of_writeBack {values : Array Single} {answer : Except (AtomFault Single) Unit}
    (written : atoms.writeBack values = (answer, after)) {atom : AtomId}
    (free : atoms.isFree atom = true) : ∃ record, after.records[atom.index]? = some record := by
  have moved := AtomStore.writeBackFrom_movedBelow values values.size (List.range values.size)
    (fun _ member => List.mem_range.mp member) atoms
  rw [AtomStore.writeBack] at written
  rw [written] at moved
  have flags := moved.flags atom.index
  unfold AtomStore.isFree at free
  cases found : after.records[atom.index]? with
  | some record => exact ⟨record, rfl⟩
  | none =>
      rw [found, Option.map_none, eq_comm, Option.map_eq_none_iff] at flags
      rw [flags] at free
      cases free

/-- Four free atoms, each in a set of its own. No term has the last one. -/
def separableAtoms : AtomStore Single where
  records := .replicate 4 ⟨⟨0x3f000000⟩, false⟩
  partition := .singletons 4
  sizesAgree := rfl

/-- Two terms that share an atom, and a term between them that shares none. -/
def separableTerms : List (Term Single) :=
  [⟨⟨0⟩, .linear, .soft 1, 0, [⟨0⟩], [1]⟩, ⟨⟨0⟩, .squaredHinge, .soft 1, 0, [⟨2⟩], [1]⟩,
    ⟨⟨1⟩, .hinge, .hard, 0, [⟨1⟩, ⟨0⟩], [1, -1]⟩]

/-- A sealed store of some of these terms. -/
def separableSession (numbers : List Nat) : GroundingSession Single :=
  ((GroundingSession.mk .empty separableAtoms).addAll
    (numbers.filterMap (separableTerms[·]?))).2.finish.2

/-- This solver takes one iteration. -/
def untiringSolver : ConsensusSolver Single :=
  ofSettings
    { ConsensusSettings.standard with maxIterations := 1, epsilonAbs := 0, epsilonRel := 0 }

def separableRun (numbers : List Nat) :
    Except (SolverFault Single) (RunReport Double) × ConsensusSolver Single × AtomStore Single :=
  untiringSolver.optimize (separableSession numbers).store (separableSession numbers).atoms
    fun _ => false

end ConsensusSolver

end HingeLoss
