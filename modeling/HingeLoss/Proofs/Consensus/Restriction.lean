import Mathlib.Data.List.Basic
import HingeLoss.Proofs.Consensus.Copies
import HingeLoss.Proofs.Solver.WriteBack

/-! A run on some of the terms does to their atoms what the run on all terms does. -/

namespace HingeLoss

namespace LocalTerm

variable {α : Type} [Scalar α] {first second : Array α}

theorem rawAt_congr {term : LocalTerm α} {left right : Copy α → α}
    (same : ∀ copy ∈ term.copies, left copy = right copy) : term.rawAt left = term.rawAt right := by
  unfold rawAt
  refine List.foldl_ext _ _ _ fun sum copy member => ?_
  rw [same copy member]

/-- A term reads the values of the atoms of its copies alone. -/
theorem minimize_congr {term : LocalTerm α} (penalty : α)
    (same : ∀ copy ∈ term.copies, valueAt first copy.atom = valueAt second copy.atom) :
    term.minimize first penalty = term.minimize second penalty := by
  have pulled : ∀ copy ∈ term.copies, pull first penalty copy = pull second penalty copy :=
    fun copy member => by rw [pull, same copy member, pull]
  unfold minimize
  dsimp only
  rw [rawAt_congr pulled]
  congr 1
  exact List.map_congr_left fun copy member => by rw [pulled copy member]

theorem raisePrices_congr {term : LocalTerm α} (penalty : α)
    (same : ∀ copy ∈ term.copies, valueAt first copy.atom = valueAt second copy.atom) :
    term.raisePrices first penalty = term.raisePrices second penalty := by
  unfold raisePrices
  congr 1
  exact List.map_congr_left fun copy member => by rw [same copy member]

end LocalTerm

namespace ConsensusState

section

variable {α : Type} {inside : Nat → Prop} {whole part : List (LocalTerm α)}

/-- Some of the terms in their order: those with copies inside alone. The terms that are left out
have all their copies outside. -/
inductive Restricts (inside : Nat → Prop) : List (LocalTerm α) → List (LocalTerm α) → Prop
  | nil : Restricts inside [] []
  | keep {term : LocalTerm α} {whole part : List (LocalTerm α)}
      (within : ∀ copy ∈ term.copies, inside copy.atom.index)
      (later : Restricts inside whole part) :
      Restricts inside (term :: whole) (term :: part)
  | leaveOut {term : LocalTerm α} {whole part : List (LocalTerm α)}
      (apart : ∀ copy ∈ term.copies, ¬ inside copy.atom.index)
      (later : Restricts inside whole part) : Restricts inside (term :: whole) part

/-- The copies of an atom inside are the same with and without the other terms. -/
theorem Restricts.copiesWith_eq (restricts : Restricts inside whole part) {index : Nat}
    (here : inside index) : copiesWith whole index = copiesWith part index := by
  induction restricts with
  | nil => rfl
  | keep _ _ inductionHypothesis =>
      rw [copiesWith_cons, inductionHypothesis, copiesWith_cons]
  | leaveOut apart _ inductionHypothesis =>
      rw [copiesWith_cons, inductionHypothesis, List.filter_eq_nil_iff.mpr, List.nil_append]
      intro copy member same
      exact apart copy member (of_decide_eq_true same ▸ here)

theorem Restricts.map {change other : LocalTerm α → LocalTerm α}
    (restricts : Restricts inside whole part)
    (atoms : ∀ term, (change term).copies.map Copy.atom = term.copies.map Copy.atom)
    (same : ∀ term : LocalTerm α, (∀ copy ∈ term.copies, inside copy.atom.index) →
      change term = other term) : Restricts inside (whole.map change) (part.map other) := by
  have named {term : LocalTerm α} {copy : Copy α} (member : copy ∈ (change term).copies) :
      ∃ origin ∈ term.copies, origin.atom = copy.atom :=
    List.mem_map.mp (atoms term ▸ List.mem_map_of_mem member)
  induction restricts with
  | nil => exact .nil
  | keep within _ inductionHypothesis =>
      rw [List.map_cons, List.map_cons, ← same _ within]
      refine .keep (fun copy member => ?_) inductionHypothesis
      obtain ⟨origin, originMember, sameAtom⟩ := named member
      exact sameAtom ▸ within origin originMember
  | leaveOut apart _ inductionHypothesis =>
      rw [List.map_cons]
      refine .leaveOut (fun copy member => ?_) inductionHypothesis
      obtain ⟨origin, originMember, sameAtom⟩ := named member
      exact sameAtom ▸ apart origin originMember

/-- A state of a run and a state of a run on some of its terms, which agree inside. -/
structure Agrees (inside : Nat → Prop) (whole part : ConsensusState α) : Prop where
  terms : Restricts inside whole.terms part.terms
  size : whole.values.size = part.values.size
  values : ∀ index, inside index → whole.values[index]? = part.values[index]?

/-- The atoms inside have the same number of copies in both states. -/
theorem Agrees.copyCounts_eq {whole part : ConsensusState α} (agrees : Agrees inside whole part)
    {index : Nat} (here : inside index) :
    whole.copyCounts.getD index 0 = part.copyCounts.getD index 0 := by
  simp only [Array.getD_eq_getD_getElem?, getElem?_copyCounts, agrees.size,
    agrees.terms.copiesWith_eq here]

end

variable {α β : Type} [Scalar α] [Scalar β] [Widening α β] {inside : Nat → Prop}

theorem valueAt_congr {first second : Array α} {atom : AtomId}
    (same : first[atom.index]? = second[atom.index]?) :
    valueAt first atom = valueAt second atom := by
  rw [valueAt, Array.getD_eq_getD_getElem?, same, valueAt, Array.getD_eq_getD_getElem?]

theorem getElem?_average_congr (penalty : α) {counts others : Array Nat}
    {whole part : List (LocalTerm α)} {first second : Array α} {index : Nat}
    (copies : copiesWith whole index = copiesWith part index) (size : first.size = second.size)
    (values : first[index]? = second[index]?)
    (counted : counts.getD index 0 = others.getD index 0) :
    (average penalty counts whole first)[index]? =
      (average penalty others part second)[index]? := by
  rw [getElem?_average, getElem?_average, values, counted]
  simp only [Array.getD_eq_getD_getElem?, getElem?_copySums, copies, size]

/-- One iteration does the same inside. -/
theorem Agrees.iterate {whole part : ConsensusState α} (agrees : Agrees inside whole part)
    {plan other : Plan α β} (penalty : other.penalty = plan.penalty)
    (counts : ∀ index, inside index → plan.counts.getD index 0 = other.counts.getD index 0) :
    Agrees inside (iterate plan whole).1 (iterate other part).1 := by
  have minimized := agrees.terms.map (LocalTerm.atoms_minimize whole.values plan.penalty)
    fun term within => LocalTerm.minimize_congr plan.penalty fun copy member =>
      valueAt_congr (agrees.values _ (within copy member))
  have averaged (index : Nat) (here : inside index) :=
    getElem?_average_congr plan.penalty (minimized.copiesWith_eq here) agrees.size
      (agrees.values index here) (counts index here)
  rw [ConsensusState.iterate, ConsensusState.iterate, penalty]
  exact {
    terms := minimized.map (LocalTerm.atoms_raisePrices _ plan.penalty) fun term within =>
      LocalTerm.raisePrices_congr plan.penalty fun copy member =>
        valueAt_congr (averaged _ (within copy member))
    size := by simpa [average] using agrees.size
    values := averaged }

/-- The local terms of some terms restrict those of all, if those of the others lie apart. -/
theorem restricts_start {records : Array (AtomRecord α)} {keep : Term α → Bool}
    {terms : List (Term α)}
    (within : ∀ term ∈ terms, keep term = true →
      ∀ copy ∈ (LocalTerm.ofTerm records term).copies, inside copy.atom.index)
    (apart : ∀ term ∈ terms, keep term = false →
      ∀ copy ∈ (LocalTerm.ofTerm records term).copies, ¬ inside copy.atom.index) :
    Restricts inside (terms.map (LocalTerm.ofTerm records))
      ((terms.filter keep).map (LocalTerm.ofTerm records)) := by
  induction terms with
  | nil => exact .nil
  | cons term later inductionHypothesis =>
      rw [List.forall_mem_cons] at within apart
      have restricts := inductionHypothesis within.2 apart.2
      rw [List.map_cons, List.filter_cons]
      split
      · rename_i kept
        exact .keep (within.1 kept) restricts
      · rename_i left
        exact .leaveOut (apart.1 (Bool.not_eq_true _ ▸ left)) restricts

end ConsensusState

namespace ConsensusSolver

open ConsensusState

variable {α β : Type} [Scalar α] [Scalar β] [Widening α β] {inside : Nat → Prop}

/-- Runs that do not converge before the cap do the same inside. -/
theorem agrees_iterateUpTo (plan other : Plan α β) (penalty : other.penalty = plan.penalty)
    (counts : ∀ index, inside index → plan.counts.getD index 0 = other.counts.getD index 0)
    (goesOn : ∀ state, (iterate plan state).2.converged = false)
    (otherGoesOn : ∀ state, (iterate other state).2.converged = false) (left : Nat)
    (ending otherEnding : Ending α β) (agrees : Agrees inside ending.state otherEnding.state) :
    Agrees inside (iterateUpTo plan (fun _ => false) left ending).state
      (iterateUpTo other (fun _ => false) left otherEnding).state := by
  induction left generalizing ending otherEnding with
  | zero => exact agrees
  | succ left inductionHypothesis =>
      unfold iterateUpTo
      simp only [goesOn, otherGoesOn, Bool.false_eq_true, if_false]
      exact inductionHypothesis _ _ (agrees.iterate penalty counts)

end ConsensusSolver

end HingeLoss
