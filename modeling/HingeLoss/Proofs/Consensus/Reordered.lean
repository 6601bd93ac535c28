import HingeLoss.Proofs.Consensus.Proximal
import HingeLoss.Proofs.Consensus.Outcome

/-! Runs over the same terms in two orders find the same values and residuals. -/

namespace HingeLoss

section Sums

variable {γ : Type} {items others : List γ}

/-- Items can be added to the places of an array in any order. -/
theorem foldl_modify_perm {M : Type} [AddCommMonoid M] (place : γ → Nat) (amount : γ → M)
    (perm : items.Perm others) (sums : Array M) :
    items.foldl (fun sums item => sums.modify (place item) (· + amount item)) sums =
      others.foldl (fun sums item => sums.modify (place item) (· + amount item)) sums := by
  refine perm.foldl_eq' (fun first _ second _ sums => Array.ext_getElem? fun index => ?_) sums
  simp only [Array.getElem?_modify]
  by_cases here : place first = index <;> by_cases there : place second = index <;>
    simp [here, there, Option.map_map, Function.comp_def, add_right_comm]

variable {δ : Type} {add : δ → δ → δ} {zero : δ}

theorem foldl_eq_add (assoc : ∀ first second third,
      add (add first second) third = add first (add second third))
    (left : ∀ sum, add zero sum = sum) (right : ∀ sum, add sum zero = sum) (summand : γ → δ)
    (items : List γ) (begun : δ) :
    items.foldl (fun sum item => add sum (summand item)) begun =
      add begun (items.foldl (fun sum item => add sum (summand item)) zero) := by
  induction items generalizing begun with
  | nil => exact (right begun).symm
  | cons item later inductionHypothesis =>
      rw [List.foldl_cons, List.foldl_cons, inductionHypothesis, inductionHypothesis (add zero _),
        left, assoc]

/-- A sum does not depend on how it is taken or on the order of its items, if its addition does
not. -/
theorem SumTree.total_perm (assoc : ∀ first second third,
      add (add first second) third = add first (add second third))
    (comm : ∀ first second, add first second = add second first)
    (left : ∀ sum, add zero sum = sum) (summand : γ → δ) (tree other : SumTree)
    (perm : items.Perm others) :
    tree.total add zero summand items = other.total add zero summand others := by
  have right (sum : δ) : add sum zero = sum := (comm sum zero).trans (left sum)
  have whole (tree : SumTree) (items : List γ) : tree.total add zero summand items =
      items.foldl (fun sum item => add sum (summand item)) zero := by
    induction tree generalizing items with
    | leaf => rfl
    | node firstLength first second sumFirst sumSecond =>
        rw [SumTree.total, sumFirst, sumSecond, ← foldl_eq_add assoc left right,
          ← List.foldl_append, List.take_append_drop]
  rw [whole, whole]
  refine perm.foldl_eq' (fun first _ second _ sum => ?_) zero
  rw [assoc, comm (summand first), ← assoc]

theorem Sums.assoc (first second third : Sums ℝ) :
    (first.add second).add third = first.add (second.add third) := by
  simp only [Sums.add, add_assoc]

theorem Sums.comm (first second : Sums ℝ) : first.add second = second.add first := by
  simp only [Sums.add, add_comm]

theorem Sums.zero_left (sums : Sums ℝ) : Sums.zero.add sums = sums := by
  simp only [Sums.add, Sums.zero, zero_add]

end Sums

namespace ConsensusState

open ConsensusSolver (start)

section Perm

variable {terms others : List (LocalTerm ℝ)}

theorem copiesOf_perm (perm : terms.Perm others) : (copiesOf terms).Perm (copiesOf others) :=
  perm.flatMap_right LocalTerm.copies

theorem average_perm (penalty : ℝ) (counts : Array Nat) (perm : terms.Perm others)
    (values : Array ℝ) :
    average penalty counts terms values = average penalty counts others values := by
  have sums : copySums penalty values.size terms = copySums penalty values.size others := by
    unfold copySums
    rw [← List.foldl_flatMap, ← List.foldl_flatMap]
    exact foldl_modify_perm (fun copy : Copy ℝ => copy.atom.index)
      (fun copy => copy.value + copy.price / penalty) (copiesOf_perm perm) _
  rw [average, sums, average]

theorem plan_perm (settings : ConsensusSettings ℝ) (tree otherTree : List (LocalTerm ℝ) → SumTree)
    (perm : terms.Perm others) (values : Array ℝ) :
    (ConsensusSolver.plan settings otherTree ⟨others, values⟩ : Plan ℝ ℝ) =
      { ConsensusSolver.plan settings tree ⟨terms, values⟩ with tree := otherTree } := by
  have counts : copyCounts ⟨terms, values⟩ = copyCounts ⟨others, values⟩ := by
    unfold copyCounts
    dsimp only
    rw [← List.foldl_flatMap, ← List.foldl_flatMap]
    exact foldl_modify_perm (fun copy : Copy ℝ => copy.atom.index) (fun _ => 1)
      (copiesOf_perm perm) _
  have length : (copies ⟨terms, values⟩).length = (copies ⟨others, values⟩).length :=
    (copiesOf_perm perm).length_eq
  simp only [ConsensusSolver.plan, counts, length]

end Perm

/-- States of two runs: the same has become of a term in both, wherever it stands, and the values of
the atoms are the same. -/
def Reordered (terms others : List (Term ℝ)) (first second : ConsensusState ℝ) : Prop :=
  first.values = second.values ∧ ∃ become : Term ℝ → LocalTerm ℝ,
    first.terms = terms.map become ∧ second.terms = others.map become

theorem reordered_start (terms others : List (Term ℝ)) {atoms rivals : AtomStore ℝ}
    (records : atoms.records = rivals.records) :
    Reordered terms others (start terms atoms) (start others rivals) :=
  ⟨congrArg (Array.map AtomRecord.value) records, LocalTerm.ofTerm atoms.records, rfl,
    by rw [records]; rfl⟩

variable {terms others : List (Term ℝ)} {first second : ConsensusState ℝ}

theorem Reordered.perm (reordered : Reordered terms others first second)
    (perm : terms.Perm others) : first.terms.Perm second.terms := by
  obtain ⟨-, become, here, there⟩ := reordered
  rw [here, there]
  exact perm.map become

/-- An iteration treats both states alike and finds the same residuals, however they are summed. -/
theorem Reordered.iterate (reordered : Reordered terms others first second)
    (perm : terms.Perm others) (plan : Plan ℝ ℝ) (tree : List (LocalTerm ℝ) → SumTree) :
    Reordered terms others (iterate plan first).1 (iterate { plan with tree } second).1 ∧
      (iterate plan first).2 = (iterate { plan with tree } second).2 := by
  obtain ⟨values, become, here, there⟩ := reordered
  obtain ⟨firstTerms, firstValues⟩ := first
  obtain ⟨secondTerms, secondValues⟩ := second
  dsimp only at values here there
  subst values here there
  unfold ConsensusState.iterate
  dsimp only
  generalize LocalTerm.minimize firstValues plan.penalty = minimize
  have minimized : ((terms.map become).map minimize).Perm ((others.map become).map minimize) :=
    (perm.map become).map minimize
  rw [average_perm plan.penalty plan.counts minimized firstValues]
  generalize average plan.penalty plan.counts ((others.map become).map minimize) firstValues = after
  generalize LocalTerm.raisePrices after plan.penalty = raise
  have squares (first second : SumTree) :
      first.total Sums.add Sums.zero (copySquares after)
        (((terms.map become).map minimize).map raise) =
      second.total (Sums.add : Sums ℝ → Sums ℝ → Sums ℝ) Sums.zero (copySquares after)
        (((others.map become).map minimize).map raise) :=
    SumTree.total_perm Sums.assoc Sums.comm Sums.zero_left _ first second (minimized.map raise)
  rw [squares _ (tree (((others.map become).map minimize).map raise))]
  refine ⟨⟨rfl, fun term => raise (minimize (become term)), ?_, ?_⟩, rfl⟩ <;>
    simp only [List.map_map, Function.comp_def]

theorem Reordered.run (reordered : Reordered terms others first second)
    (perm : terms.Perm others) (plan : Plan ℝ ℝ) (tree : List (LocalTerm ℝ) → SumTree)
    (count : Nat) :
    Reordered terms others (run plan first count) (run { plan with tree } second count) := by
  induction count with
  | zero => exact reordered
  | succ count inductionHypothesis =>
      rw [run_succ, run_succ]
      exact (inductionHypothesis.iterate perm plan tree).1

end ConsensusState

namespace ConsensusSolver

open ConsensusState

variable {terms others : List (Term ℝ)}

/-- Endings of two runs over the same terms in two orders. -/
structure SameEnding (terms others : List (Term ℝ)) (first second : Ending ℝ ℝ) : Prop where
  status : first.status = second.status
  iterations : first.iterations = second.iterations
  residuals : first.residuals = second.residuals
  state : Reordered terms others first.state second.state

variable {first second : Ending ℝ ℝ}

/-- Both loops stop after the same iteration. -/
theorem SameEnding.iterateUpTo (same : SameEnding terms others first second)
    (perm : terms.Perm others) (plan : Plan ℝ ℝ) (tree : List (LocalTerm ℝ) → SumTree)
    (cancelled : Nat → Bool) (left : Nat) :
    SameEnding terms others (iterateUpTo plan cancelled left first)
      (iterateUpTo { plan with tree } cancelled left second) := by
  induction left generalizing first second with
  | zero => exact same
  | succ left inductionHypothesis =>
      obtain ⟨states, residuals⟩ := same.state.iterate perm plan tree
      unfold ConsensusSolver.iterateUpTo
      dsimp only
      rw [← same.iterations, ← residuals]
      split
      · exact ⟨rfl, rfl, same.residuals, same.state⟩
      · split
        · exact ⟨rfl, rfl, rfl, states⟩
        · exact inductionHypothesis ⟨rfl, rfl, rfl, states⟩

/-- Both reports are the same. -/
theorem SameEnding.report_eq (same : SameEnding terms others first second)
    (perm : terms.Perm others) : report terms first = report others second := by
  have values := same.state.1
  have objective : terms.foldl (fun sum term =>
        sum + (widen (term.objective (valueAt second.state.values)) : ℝ)) 0 =
      others.foldl (fun sum term =>
        sum + (widen (term.objective (valueAt second.state.values)) : ℝ)) 0 := by
    refine perm.foldl_eq' (fun _ _ _ _ sum => ?_) 0
    exact add_right_comm sum _ _
  unfold report
  dsimp only
  rw [same.status, same.iterations, same.residuals, values, objective, perm.countP_eq]

/-- What a map keeps for a rule after some more terms. -/
theorem getElem?_foldl_rules (values : Array ℝ) (rule : RuleId) (terms : List (LocalTerm ℝ))
    (sums : Std.TreeMap RuleId (RuleDissatisfaction ℝ)) :
    (terms.foldl (fun sums term =>
        let known := sums.getD term.rule ⟨0, 0⟩
        sums.insert term.rule
          ⟨known.primal + widen (term.primalDissatisfaction values),
            known.dual + widen term.dualDissatisfaction⟩) sums)[rule]? =
      (terms.filter fun term => term.rule = rule).foldl (fun known term =>
        some ⟨(known.getD ⟨0, 0⟩).primal + widen (term.primalDissatisfaction values),
          (known.getD ⟨0, 0⟩).dual + widen term.dualDissatisfaction⟩) sums[rule]? := by
  induction terms generalizing sums with
  | nil => rfl
  | cons term later inductionHypothesis =>
      rw [List.foldl_cons, inductionHypothesis, Std.TreeMap.getElem?_insert, List.filter_cons]
      by_cases own : term.rule = rule
      · subst own
        rw [if_pos Std.ReflCmp.compare_self, if_pos (decide_eq_true rfl), List.foldl_cons,
          Std.TreeMap.getD_eq_getD_getElem?]
      · rw [if_neg (mt Std.LawfulEqCmp.compare_eq_iff_eq.mp own), if_neg (by simpa using own)]

/-- The readings of two solvers whose runs went over the same terms in two orders. What is read of a
term follows it to its place. -/
structure SameReadings (terms others : List (Term ℝ)) (first second : ConsensusSolver ℝ) :
    Prop where
  consensus : first.consensus = second.consensus
  primal : ∀ place other term, terms[place]? = some term → others[other]? = some term →
    first.primalDissatisfaction place = second.primalDissatisfaction other
  dual : ∀ place other term, terms[place]? = some term → others[other]? = some term →
    first.dualDissatisfaction place = second.dualDissatisfaction other
  outside : ∀ place, terms.length ≤ place →
    first.primalDissatisfaction place = second.primalDissatisfaction place ∧
      first.dualDissatisfaction place = second.dualDissatisfaction place
  lagrangian : (first.lagrangianPenalty : Except (SolverFault ℝ) ℝ) = second.lagrangianPenalty
  augmented : (first.augmentedPenalty : Except (SolverFault ℝ) ℝ) = second.augmentedPenalty
  byRule : ∃ sums otherSums : Std.TreeMap RuleId (RuleDissatisfaction ℝ),
    first.byRule = .ok sums ∧ second.byRule = .ok otherSums ∧
      ∀ rule : RuleId, sums[rule]? = otherSums[rule]?

theorem sameReadings {settings : ConsensusSettings ℝ} {first second : ConsensusState ℝ}
    (reordered : Reordered terms others first second) (perm : terms.Perm others)
    (tree otherTree : List (LocalTerm ℝ) → SumTree) :
    SameReadings terms others ⟨settings, some first, tree⟩
      ⟨settings, some second, otherTree⟩ := by
  have permuted := reordered.perm perm
  obtain ⟨values, become, here, there⟩ := reordered
  obtain ⟨firstTerms, firstValues⟩ := first
  obtain ⟨secondTerms, secondValues⟩ := second
  dsimp only at values here there permuted
  subst values
  have sums (summand : LocalTerm ℝ → ℝ) :
      (tree firstTerms).total (· + ·) 0 summand firstTerms =
        (otherTree secondTerms).total (· + ·) 0 summand secondTerms :=
    SumTree.total_perm add_assoc add_comm zero_add summand _ _ permuted
  have foundFirst {place : Nat} {term : Term ℝ} (found : terms[place]? = some term) :
      firstTerms[place]? = some (become term) := by
    rw [here, List.getElem?_map, found, Option.map_some]
  have foundSecond {place : Nat} {term : Term ℝ} (found : others[place]? = some term) :
      secondTerms[place]? = some (become term) := by
    rw [there, List.getElem?_map, found, Option.map_some]
  constructor
  · rfl
  · intro place other term found foundOther
    simp only [primalDissatisfaction, localTerm, lastState, foundFirst found,
      foundSecond foundOther, Except.map]
  · intro place other term found foundOther
    simp only [dualDissatisfaction, localTerm, lastState, foundFirst found,
      foundSecond foundOther, Except.map]
  · intro place outside
    have length : firstTerms.length = terms.length := by rw [here, List.length_map]
    have noneFirst : firstTerms[place]? = none :=
      List.getElem?_eq_none (length.trans_le outside)
    have noneSecond : secondTerms[place]? = none :=
      List.getElem?_eq_none (permuted.length_eq.symm.trans_le (length.trans_le outside))
    simp only [primalDissatisfaction, dualDissatisfaction, localTerm, lastState, noneFirst,
      noneSecond, permuted.length_eq, Except.map, and_self]
  · simp only [lagrangianPenalty, lastState, Except.map, sums]
  · simp only [augmentedPenalty, lastState, Except.map, sums]
  · refine ⟨_, _, rfl, rfl, fun rule => ?_⟩
    rw [getElem?_foldl_rules, getElem?_foldl_rules]
    refine (permuted.filter _).foldl_eq' (fun own _ other _ known => ?_) _
    simp only [Option.getD_some, add_right_comm]

/-- A run that succeeds has a positive penalty, and its terms have only atoms of the store. -/
theorem of_optimize_ok {solver : ConsensusSolver ℝ} {store : ResidentStore ℝ}
    {atoms : AtomStore ℝ} {cancelled : Nat → Bool} {report : RunReport ℝ}
    (answered : (solver.optimize store atoms cancelled).1 = .ok report) :
    0 < solver.settings.penalty ∧
      ∀ term ∈ store.terms.toList, ∀ atom ∈ term.atoms, atom.index < atoms.size := by
  unfold optimize at answered
  split at answered
  · cases answered
  · split at answered
    · cases answered
    · rename_i positive
      dsimp only at answered
      split at answered
      · cases answered
      · rename_i checked
        refine ⟨by simpa [Scalar.isPositive] using positive, fun term member => ?_⟩
        exact AtomStore.inRange_of_checkAll (AtomStore.of_forM_ok checked term member)

end ConsensusSolver

open ConsensusState
open ConsensusSolver (start SameEnding SameReadings)

end HingeLoss
