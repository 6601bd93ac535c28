import HingeLoss.Proofs.Consensus.Convergence
import HingeLoss.Proofs.Consensus.Optimality
import HingeLoss.Proofs.Rule.Truth

/-! The dissatisfaction of rules after a run is zero exactly where all their groundings hold. -/

namespace HingeLoss

/-- The sum of the measures that belong to a rule. -/
noncomputable def measureOf (rule : RuleId) (measures : List (RuleId × ℝ)) : ℝ :=
  ((measures.filter fun measure => measure.1 = rule).map Prod.snd).sum

theorem measureOf_append (rule : RuleId) (first second : List (RuleId × ℝ)) :
    measureOf rule (first ++ second) = measureOf rule first + measureOf rule second := by
  rw [measureOf, List.filter_append, List.map_append, List.sum_append]
  rfl

theorem measureOf_cons (rule : RuleId) (measure : RuleId × ℝ) (later : List (RuleId × ℝ)) :
    measureOf rule (measure :: later) =
      (if measure.1 = rule then measure.2 else 0) + measureOf rule later := by
  unfold measureOf
  rw [List.filter_cons]
  by_cases own : measure.1 = rule
  · rw [if_pos (decide_eq_true own), if_pos own, List.map_cons, List.sum_cons]
  · rw [if_neg (by simpa using own), if_neg own, zero_add]

theorem measureOf_perm (rule : RuleId) {first second : List (RuleId × ℝ)}
    (perm : first.Perm second) : measureOf rule first = measureOf rule second :=
  ((perm.filter _).map _).sum_eq

/-- What a term measures, by its rule. -/
noncomputable def Term.measure (valueOf : AtomId → ℝ) (term : Term ℝ) : RuleId × ℝ :=
  (term.rule, term.dissatisfaction valueOf)

namespace ConsensusState

open ConsensusSolver (start)

/-- What a local term measures at the values of the atoms. -/
noncomputable def measure (values : Array ℝ) (term : LocalTerm ℝ) : RuleId × ℝ :=
  (term.rule, term.primalDissatisfaction values)

theorem measure_frame (values : Array ℝ) (term : LocalTerm ℝ) :
    measure values term.frame = measure values term := by
  rw [measure, LocalTerm.primalDissatisfaction, LocalTerm.rawAt_frame]
  rfl

/-- States of one problem measure the same at values of the atoms. -/
theorem measures_congr {terms others : List (LocalTerm ℝ)} (same : frames terms = frames others)
    (values : Array ℝ) : terms.map (measure values) = others.map (measure values) := by
  have framed (terms : List (LocalTerm ℝ)) :
      terms.map (measure values) = (frames terms).map (measure values) := by
    rw [frames, List.map_map]
    exact List.map_congr_left fun term _ => (measure_frame values term).symm
  rw [framed, same, ← framed]

/-- At values that agree on the observed atoms, local terms measure what their terms measure. -/
theorem measures_start {terms : List (Term ℝ)} {atoms : AtomStore ℝ} {values : Array ℝ}
    (held : ∀ term ∈ terms, ∀ atom ∈ term.atoms, atom.index < atoms.size)
    (agrees : AgreesOn atoms (valueAt values)) :
    (start terms atoms).terms.map (measure values) =
      terms.map (Term.measure (valueAt values)) := by
  rw [start, List.map_map]
  refine List.map_congr_left fun term member => ?_
  rw [Function.comp_apply, measure, LocalTerm.primalDissatisfaction,
    LocalTerm.rawAt_ofTerm (held term member) agrees]
  rfl

end ConsensusState

namespace ConsensusSolver

open ConsensusState

variable {solver : ConsensusSolver ℝ} {store : ResidentStore ℝ} {atoms : AtomStore ℝ}

/-- The sums of the rules, taken term by term. -/
theorem primal_foldl (values : Array ℝ) (rule : RuleId) (terms : List (LocalTerm ℝ))
    (sums : Std.TreeMap RuleId (RuleDissatisfaction ℝ)) :
    ((terms.foldl (fun sums term =>
        let known := sums.getD term.rule ⟨0, 0⟩
        sums.insert term.rule
          ⟨known.primal + widen (term.primalDissatisfaction values),
            known.dual + widen term.dualDissatisfaction⟩) sums).getD rule ⟨0, 0⟩).primal =
      (sums.getD rule ⟨0, 0⟩).primal + measureOf rule (terms.map (measure values)) := by
  induction terms generalizing sums with
  | nil => simp [measureOf]
  | cons term later inductionHypothesis =>
      rw [List.foldl_cons, inductionHypothesis, Std.TreeMap.getD_insert, List.map_cons,
        measureOf_cons]
      have number : (measure values term).1 = term.rule := rfl
      by_cases own : term.rule = rule
      · subst own
        rw [if_pos Std.ReflCmp.compare_self, if_pos number]
        exact add_assoc _ _ _
      · rw [if_neg (mt Std.LawfulEqCmp.compare_eq_iff_eq.mp own), if_neg (number ▸ own), zero_add]

/-- However a run ends, its last state is a regular one. -/
theorem regular_iterateUpTo {settings : ConsensusSettings ℝ} {terms : List (Term ℝ)}
    (accepted : ∀ term ∈ terms, term.Accepted) (built : atoms.Built)
    (positive : 0 < settings.penalty) (tree : List (LocalTerm ℝ) → SumTree)
    (cancelled : Nat → Bool) (left : Nat) :
    let begun := start terms atoms
    let plan : Plan ℝ ℝ := ConsensusSolver.plan settings tree begun
    Regular plan begun
      (iterateUpTo plan cancelled left ⟨.maxIterationsReached, 0, none, begun⟩).state := by
  intro begun plan
  have initial : Initial plan begun := initial_start accepted built.inUnit rfl
  rw [state_iterateUpTo cancelled left (run_zero plan begun).symm]
  exact initial.run_regular positive _

/-- A run over exact numbers ends well, and the sums of its rules are what the terms of the store
measure at the consensus values. -/
theorem optimize_measures (ready : store.phase = .ready)
    (positive : 0 < solver.settings.penalty)
    (accepted : ∀ term ∈ store.terms.toList, term.Accepted) (built : atoms.Built)
    (held : ∀ term ∈ store.terms.toList, ∀ atom ∈ term.atoms, atom.index < atoms.size)
    (cancelled : Nat → Bool) :
    ∃ (report : RunReport ℝ) (left : ConsensusSolver ℝ) (after : AtomStore ℝ)
      (sums : Std.TreeMap RuleId (RuleDissatisfaction ℝ)) (values : Array ℝ),
      solver.optimize store atoms cancelled = (.ok report, left, after) ∧
        left.byRule = .ok sums ∧ left.consensus = .ok values ∧
        InUnitInterval (valueAt values) ∧ AgreesOn atoms (valueAt values) ∧
        ∀ rule, (sums.getD rule ⟨0, 0⟩).primal =
          measureOf rule (store.terms.toList.map (Term.measure (valueAt values))) := by
  have regular := regular_iterateUpTo accepted built positive solver.tree cancelled
    solver.settings.maxIterations
  dsimp only at regular
  generalize ends : iterateUpTo (ConsensusSolver.plan solver.settings solver.tree
    (start store.terms.toList atoms)) cancelled solver.settings.maxIterations
    ⟨.maxIterationsReached, 0, none, start store.terms.toList atoms⟩ = ending at regular
  have written := AtomStore.writeBackFrom_ok (List.range ending.state.values.size)
    (keepsUnnamed_run regular.toSteady rfl)
  refine ⟨_, _, _, _, _, optimize_eq solver ready positive held ends written, rfl, rfl,
    fun atom => regular.inUnit atom.index, regular.agreesOn rfl, fun rule => ?_⟩
  rw [primal_foldl, measures_congr regular.frames, measures_start held (regular.agreesOn rfl)]
  simp

end ConsensusSolver

/-- Whether terms are those of some groundings, each built with a rule. They may have been added in
any order, and may have got other weights since. -/
def Grounded (grounds : List (GroundRule ℝ × Rule ℝ)) (terms : List (Term ℝ)) : Prop :=
  ∃ (built : List (List (Term ℝ))) (added : List (Term ℝ)),
    List.Forall₂ (fun ground terms => ground.1.terms ground.2 = .ok terms) grounds built ∧
      added.Perm built.flatten ∧
      List.Forall₂ (fun held added => ∃ weight, held = { added with weight }) terms added

variable {valueOf : AtomId → ℝ}

/-- The weight does not matter for what a term measures. -/
theorem measures_of_held {terms added : List (Term ℝ)}
    (same : List.Forall₂ (fun held added => ∃ weight, held = { added with weight }) terms added) :
    terms.map (Term.measure valueOf) = added.map (Term.measure valueOf) := by
  induction same with
  | nil => rfl
  | cons held _ inductionHypothesis =>
      obtain ⟨weight, rfl⟩ := held
      rw [List.map_cons, List.map_cons, inductionHypothesis]
      rfl

theorem measureOf_terms {terms : List (Term ℝ)} {own : RuleId}
    (owned : ∀ term ∈ terms, term.rule = own) (rule : RuleId) :
    measureOf rule (terms.map (Term.measure valueOf)) =
      if own = rule then (terms.map fun term => term.dissatisfaction valueOf).sum else 0 := by
  induction terms with
  | nil => simp [measureOf]
  | cons term later inductionHypothesis =>
      rw [List.forall_mem_cons] at owned
      rw [List.map_cons, measureOf_cons, inductionHypothesis owned.2]
      have number : (term.measure valueOf).1 = own := owned.1
      by_cases same : own = rule
      · rw [if_pos same, if_pos same, if_pos (number.trans same), List.map_cons, List.sum_cons]
        rfl
      · rw [if_neg same, if_neg same, if_neg (number ▸ same), add_zero]

/-- The terms of groundings without a sign measure nothing together exactly where all of the
groundings hold. -/
theorem measureOf_built {grounds : List (GroundRule ℝ × Rule ℝ)} {built : List (List (Term ℝ))}
    (matched : List.Forall₂ (fun ground terms => ground.1.terms ground.2 = .ok terms) grounds built)
    (inUnit : InUnitInterval valueOf) {rule : RuleId}
    (unsigned : ∀ ground ∈ grounds, ground.1.rule = rule → ¬ ground.1.Signed ground.2) :
    0 ≤ measureOf rule (built.flatten.map (Term.measure valueOf)) ∧
      (measureOf rule (built.flatten.map (Term.measure valueOf)) = 0 ↔
        ∀ ground ∈ grounds, ground.1.rule = rule → ground.1.Holds valueOf) := by
  induction matched with
  | nil => simp [measureOf]
  | @cons ground terms grounds built made _ inductionHypothesis =>
      rw [List.forall_mem_cons] at unsigned ⊢
      obtain ⟨restNonnegative, restZero⟩ := inductionHypothesis unsigned.2
      have owned : ∀ term ∈ terms, term.rule = ground.1.rule := fun term member =>
        (GroundRule.terms_carried made term member).1
      rw [List.flatten_cons, List.map_append, measureOf_append, measureOf_terms owned]
      by_cases own : ground.1.rule = rule
      · obtain ⟨holds, nonnegative⟩ := GroundRule.faithful made inUnit
        have summands : ∀ summand ∈ terms.map fun term => term.dissatisfaction valueOf,
            0 ≤ summand :=
          List.forall_mem_map.mpr (nonnegative (unsigned.1 own))
        have headNonnegative := List.sum_nonneg summands
        have headZero : (terms.map fun term => term.dissatisfaction valueOf).sum = 0 ↔
            ground.1.Holds valueOf := by
          rw [← holds]
          constructor
          · intro zero term member
            exact List.all_zero_of_le_zero_le_of_sum_eq_zero summands zero
              (List.mem_map_of_mem member)
          · intro zeros
            exact List.sum_eq_zero (List.forall_mem_map.mpr zeros)
        rw [if_pos own, add_eq_zero_iff_of_nonneg headNonnegative restNonnegative, headZero,
          restZero]
        refine ⟨add_nonneg headNonnegative restNonnegative, ?_⟩
        exact and_congr_left fun _ => ⟨fun holds _ => holds, fun holds => holds own⟩
      · rw [if_neg own, zero_add, restZero]
        refine ⟨restNonnegative, ?_⟩
        exact ⟨fun rest => ⟨fun same => absurd same own, rest⟩, And.right⟩

/-- At values of the unit interval the terms of a grounding have no dissatisfaction exactly where it
holds, and never a negative one unless it is a hard equality. -/
theorem dissatisfaction_faithful (ground : GroundRule ℝ) (rule : Rule ℝ) (terms : List (Term ℝ))
    (built : ground.terms rule = .ok terms) :
    (∀ valueOf : AtomId → ℝ, InUnitInterval valueOf →
        ((∀ term ∈ terms, term.dissatisfaction valueOf = 0) ↔ ground.Holds valueOf) ∧
          (¬ ground.Signed rule → ∀ term ∈ terms, 0 ≤ term.dissatisfaction valueOf)) ∧
      (∀ comparison : Comparison ℝ, ground = .ofComparison comparison → ground.Signed rule →
        ∀ valueOf : AtomId → ℝ, terms.map (fun term => term.dissatisfaction valueOf) =
          [comparison.total valueOf - comparison.constant]) ∧
      ∀ (solver : ConsensusSolver ℝ) (store : ResidentStore ℝ) (atoms : AtomStore ℝ)
        (cancelled : Nat → Bool) (grounds : List (GroundRule ℝ × Rule ℝ)),
        store.phase = .ready → 0 < solver.settings.penalty → atoms.Built →
        (∀ term ∈ store.terms.toList, term.Accepted) →
        (∀ term ∈ store.terms.toList, ∀ atom ∈ term.atoms, atom.index < atoms.size) →
        Grounded grounds store.terms.toList →
        ∃ (report : RunReport ℝ) (left : ConsensusSolver ℝ) (after : AtomStore ℝ)
          (sums : Std.TreeMap RuleId (RuleDissatisfaction ℝ)) (values : Array ℝ),
          solver.optimize store atoms cancelled = (.ok report, left, after) ∧
            left.byRule = .ok sums ∧ left.consensus = .ok values ∧
            ∀ number : RuleId,
              (sums.getD number ⟨0, 0⟩).primal =
                  measureOf number (store.terms.toList.map (Term.measure (valueAt values))) ∧
                ((∀ ground ∈ grounds, ground.1.rule = number → ¬ ground.1.Signed ground.2) →
                  0 ≤ (sums.getD number ⟨0, 0⟩).primal ∧
                    ((sums.getD number ⟨0, 0⟩).primal = 0 ↔
                      ∀ ground ∈ grounds, ground.1.rule = number →
                        ground.1.Holds (valueAt values))) := by
  refine ⟨fun valueOf inUnit => GroundRule.faithful built inUnit, ?_, ?_⟩
  · rintro comparison rfl ⟨equal, hard⟩ valueOf
    obtain ⟨rfl, -⟩ := Comparison.terms_ok built
    obtain ⟨id, name, weight, squared⟩ := rule
    dsimp only at hard
    subst hard
    unfold Comparison.potentials
    rw [equal, List.map_singleton, Comparison.dissatisfaction_equality]
  · rintro solver store atoms cancelled grounds ready positive builtAtoms accepted held
      ⟨built, added, matched, order, same⟩
    obtain ⟨report, left, after, sums, values, ran, byRule, consensus, inUnit, -, measures⟩ :=
      ConsensusSolver.optimize_measures ready positive accepted builtAtoms held cancelled
    refine ⟨report, left, after, sums, values, ran, byRule, consensus, fun number => ?_⟩
    refine ⟨measures number, fun unsigned => ?_⟩
    rw [measures number, measures_of_held same, measureOf_perm number (order.map _)]
    exact measureOf_built matched inUnit unsigned

/-- A clause about a free and an observed atom, and its run. -/
theorem dissatisfaction_faithful_sample :
    let ground : GroundRule ℝ := .ofClause ⟨⟨0⟩, [⟨0⟩], [⟨1⟩]⟩
    let rule : Rule ℝ := ⟨⟨0⟩, "below", .soft 1, false⟩
    let solver : ConsensusSolver ℝ := .ofSettings .standard
    let store : ResidentStore ℝ := ⟨#[ConsensusState.sampleTerm], .empty, ∅, .ready⟩
    ground.terms rule = .ok [ConsensusState.sampleTerm] ∧
      0 ≤ ConsensusState.sampleTerm.dissatisfaction (fun _ => 1) ∧
      ∃ (report : RunReport ℝ) (left : ConsensusSolver ℝ) (after : AtomStore ℝ)
        (sums : Std.TreeMap RuleId (RuleDissatisfaction ℝ)) (values : Array ℝ),
        solver.optimize store ConsensusState.sampleAtoms (fun _ => false) =
            (.ok report, left, after) ∧
          left.byRule = .ok sums ∧
          ((sums.getD ⟨0⟩ ⟨0, 0⟩).primal = 0 ↔ ground.Holds (valueAt values)) := by
  intro ground rule solver store
  have built : ground.terms rule = .ok [ConsensusState.sampleTerm] := by
    simp [ground, rule, GroundRule.terms, Clause.term, Rule.term, Term.build, Clause.size,
      Shape.ofFlags, Term.maxArity, Scalar.isFinite, Scalar.isNonnegative, Except.map,
      Except.mapError, ConsensusState.sampleTerm]
  have unsigned : ¬ ground.Signed rule := id
  have grounded : Grounded [(ground, rule)] store.terms.toList :=
    ⟨[[ConsensusState.sampleTerm]], [ConsensusState.sampleTerm], .cons built .nil, .refl _,
      .cons ⟨.soft 1, rfl⟩ .nil⟩
  obtain ⟨faithful, -, sums⟩ := dissatisfaction_faithful ground rule _ built
  obtain ⟨report, left, after, sums, values, ran, byRule, -, each⟩ := sums solver store
    ConsensusState.sampleAtoms (fun _ => false) [(ground, rule)] rfl zero_lt_one
    ConsensusState.sampleAtoms_built ConsensusState.sampleTerm_accepted
    ConsensusState.sampleTerm_held grounded
  refine ⟨built, ?_, report, left, after, sums, values, ran, byRule, ?_⟩
  · exact (faithful (fun _ => 1) fun _ => ⟨zero_le_one, le_refl 1⟩).2 unsigned _
      List.mem_cons_self
  · have zero := ((each ⟨0⟩).2 (by simpa using fun _ => unsigned)).2
    simpa [ground, GroundRule.rule] using zero

/-- Two atoms that were observed at zero and at one. -/
noncomputable def observedEnds : AtomStore ℝ where
  records := #[⟨0, true⟩, ⟨1, true⟩]
  partition := Forest.empty.push.push
  sizesAgree := by rw [Forest.size_push, Forest.size_push]; rfl

/-- Hard equalities of one rule with the observed atoms, both of them violated. The one measures
less than zero, and the two of them cancel in the sum of their rule. -/
theorem hard_equalities_cancel :
    let rule : Rule ℝ := ⟨⟨0⟩, "other end", .hard, false⟩
    let equals (atom : AtomId) (value : ℝ) : Comparison ℝ := ⟨⟨0⟩, [atom], [1], .equal, value⟩
    let low := (equals ⟨0⟩ 1).excess .linear .hard
    let high := (equals ⟨1⟩ 0).excess .linear .hard
    let store : ResidentStore ℝ := ⟨#[low, high], .empty, ∅, .ready⟩
    let solver : ConsensusSolver ℝ := .ofSettings .standard
    (equals ⟨0⟩ 1).terms rule = .ok [low] ∧ (equals ⟨1⟩ 0).terms rule = .ok [high] ∧
      ∃ (report : RunReport ℝ) (left : ConsensusSolver ℝ) (after : AtomStore ℝ)
        (sums : Std.TreeMap RuleId (RuleDissatisfaction ℝ)) (values : Array ℝ),
        solver.optimize store observedEnds (fun _ => false) = (.ok report, left, after) ∧
          left.byRule = .ok sums ∧ left.consensus = .ok values ∧
          low.dissatisfaction (valueAt values) = -1 ∧
          ¬ (equals ⟨0⟩ 1).Holds (valueAt values) ∧ ¬ (equals ⟨1⟩ 0).Holds (valueAt values) ∧
          (sums.getD ⟨0⟩ ⟨0, 0⟩).primal = 0 := by
  intro rule equals low high store solver
  have built (atom : AtomId) (value : ℝ) :
      (equals atom value).terms rule = .ok [(equals atom value).excess .linear .hard] := by
    simp [equals, rule, Comparison.terms, Comparison.above, Comparison.excess, Rule.term,
      Term.build, Term.maxArity, Scalar.isFinite, Except.map, Except.mapError]
  have accepted : ∀ term ∈ store.terms.toList, term.Accepted := by
    simp [store, low, high, equals, Term.Accepted, Comparison.excess, Term.build, Term.maxArity,
      Scalar.isFinite]
  have held : ∀ term ∈ store.terms.toList, ∀ atom ∈ term.atoms,
      atom.index < observedEnds.size := by
    simp [store, low, high, equals, Comparison.excess, observedEnds, AtomStore.size, AtomId.index]
  have builtAtoms : observedEnds.Built :=
    (AtomStore.Built.empty.push ⟨le_refl 0, zero_le_one⟩).push ⟨zero_le_one, le_refl 1⟩
  obtain ⟨report, left, after, sums, values, ran, byRule, consensus, -, agrees, measures⟩ :=
    @ConsensusSolver.optimize_measures solver store observedEnds rfl zero_lt_one accepted
      builtAtoms held fun _ => false
  have atZero : valueAt values ⟨0⟩ = 0 := agrees ⟨0⟩ ⟨0, true⟩ rfl rfl
  have atOne : valueAt values ⟨1⟩ = 1 := agrees ⟨1⟩ ⟨1, true⟩ rfl rfl
  have total (atom : AtomId) (value : ℝ) :
      (equals atom value).total (valueAt values) = valueAt values atom := by
    simp [equals, Comparison.total]
  have measured (atom : AtomId) (value : ℝ) :
      ((equals atom value).excess .linear .hard).dissatisfaction (valueAt values) =
        valueAt values atom - value := by
    rw [Comparison.dissatisfaction_equality, total]
  have holds (atom : AtomId) (value : ℝ) :
      (equals atom value).Holds (valueAt values) ↔ valueAt values atom = value := by
    rw [← total atom value]
    exact Iff.rfl
  have lowMeasure : low.dissatisfaction (valueAt values) = -1 := by
    rw [measured, atZero, zero_sub]
  have highMeasure : high.dissatisfaction (valueAt values) = 1 := by
    rw [measured, atOne, sub_zero]
  refine ⟨built _ _, built _ _, report, left, after, sums, values, ran, byRule, consensus,
    lowMeasure, ?_, ?_, ?_⟩
  · rw [holds, atZero]
    exact zero_ne_one
  · rw [holds, atOne]
    exact one_ne_zero
  · have owned : ∀ term ∈ store.terms.toList, term.rule = ⟨0⟩ := by
      simp [store, low, high, equals, Comparison.excess]
    have both : (store.terms.toList.map fun term =>
        term.dissatisfaction (valueAt values)).sum = 0 := by
      simp only [store, List.map_cons, List.map_nil, List.sum_cons, List.sum_nil, lowMeasure,
        highMeasure, add_zero, neg_add_cancel]
    rw [measures ⟨0⟩, measureOf_terms owned, if_pos rfl, both]

end HingeLoss
