import HingeLoss.Proofs.Consensus.Copies
import HingeLoss.Proofs.Consensus.Reordered

/-! What can be read of the terms after a run is what they measure at the values of the atoms. -/

namespace HingeLoss

/-- The places of the terms of a rule, in order. -/
def placesOf {α : Type} (terms : List (Term α)) (rule : RuleId) : List TermId :=
  terms.findIdxs fun term => term.rule = rule

/-- Reading at all places of a kind of item gives what these items measure, in their order. -/
theorem mapM_findIdxs {γ δ ε : Type} {items : List γ} (kind : γ → Bool) {measure : γ → δ}
    {reading : Nat → Except ε δ} {first : Nat}
    (read : ∀ place item, items[place]? = some item →
      reading (first + place) = .ok (measure item)) :
    (items.findIdxs kind first).mapM reading = .ok ((items.filter kind).map measure) := by
  induction items generalizing first with
  | nil => rfl
  | cons item later inductionHypothesis =>
      have here : reading first = .ok (measure item) := read 0 item rfl
      have rest := @inductionHypothesis (first + 1) fun place other found => by
        rw [Nat.add_assoc, Nat.add_comm 1]
        exact read (place + 1) other found
      rw [List.findIdxs_cons, List.filter_cons]
      cases own : kind item with
      | true => simp only [if_true, List.mapM_cons, here, rest, List.map_cons]; rfl
      | false => exact rest

namespace ConsensusSolver

open ConsensusState

/-- The sums of a rule are those over its terms, and there are none where it has no term. -/
theorem foldl_rules_eq (primal dual : LocalTerm ℝ → ℝ) (terms : List (LocalTerm ℝ)) :
    terms.foldl (fun known term =>
        some ⟨(known.getD ⟨0, 0⟩).primal + primal term, (known.getD ⟨0, 0⟩).dual + dual term⟩)
        (none : Option (RuleDissatisfaction ℝ)) =
      if terms = [] then none else some ⟨(terms.map primal).sum, (terms.map dual).sum⟩ := by
  have more (known : RuleDissatisfaction ℝ) (terms : List (LocalTerm ℝ)) :
      terms.foldl (fun known term =>
          some ⟨(known.getD ⟨0, 0⟩).primal + primal term, (known.getD ⟨0, 0⟩).dual + dual term⟩)
          (some known) =
        some ⟨known.primal + (terms.map primal).sum, known.dual + (terms.map dual).sum⟩ := by
    induction terms generalizing known with
    | nil => simp
    | cons term later inductionHypothesis =>
        rw [List.foldl_cons, Option.getD_some, inductionHypothesis]
        simp only [List.map_cons, List.sum_cons, add_assoc]
  cases terms with
  | nil => rfl
  | cons term later =>
      rw [List.foldl_cons, Option.getD_none, more, if_neg (List.cons_ne_nil _ _)]
      simp only [zero_add, List.map_cons, List.sum_cons]

variable {tree : List (LocalTerm ℝ) → SumTree}

section Readings

variable (settings : ConsensusSettings ℝ) {state : ConsensusState ℝ} {place : TermId}

/-- Below the number of terms, both measures of a local term can be read, and not from there on. -/
theorem read_of_found {term : LocalTerm ℝ} (found : state.terms[place]? = some term) :
    (⟨settings, some state, tree⟩ : ConsensusSolver ℝ).primalDissatisfaction place =
        .ok (term.primalDissatisfaction state.values) ∧
      (⟨settings, some state, tree⟩ : ConsensusSolver ℝ).dualDissatisfaction place =
        .ok term.dualDissatisfaction := by
  simp only [primalDissatisfaction, dualDissatisfaction, localTerm, lastState, found, Except.map,
    and_self]

theorem read_of_outside (outside : state.terms.length ≤ place) :
    (⟨settings, some state, tree⟩ : ConsensusSolver ℝ).primalDissatisfaction place =
        .error (.stale (.noTerm place state.terms.length)) ∧
      (⟨settings, some state, tree⟩ : ConsensusSolver ℝ).dualDissatisfaction place =
        .error (.stale (.noTerm place state.terms.length)) := by
  simp only [primalDissatisfaction, dualDissatisfaction, localTerm, lastState,
    List.getElem?_eq_none outside, Except.map, and_self]

end Readings

/-- The rules that have sums are those of the terms, and each has the sums of what can be read at
the places of its terms. -/
def SumsUp (solver : ConsensusSolver ℝ) (terms : List (Term ℝ))
    (sums : Std.TreeMap RuleId (RuleDissatisfaction ℝ)) : Prop :=
  ∀ rule, (rule ∈ sums ↔ ∃ term ∈ terms, term.rule = rule) ∧
    ∀ entry, sums[rule]? = some entry → ∃ primals duals,
      (placesOf terms rule).mapM solver.primalDissatisfaction = .ok primals ∧
        (placesOf terms rule).mapM solver.dualDissatisfaction = .ok duals ∧
        entry.primal = primals.sum ∧ entry.dual = duals.sum

/-- What a solver lets read of terms is what they measure at values of the atoms. There is nothing
to read beyond the last term, and the rules have the sums of their terms. -/
structure Reads (solver : ConsensusSolver ℝ) (terms : List (Term ℝ)) (valueOf : AtomId → ℝ) :
    Prop where
  primal : ∀ place term, terms[place]? = some term →
    solver.primalDissatisfaction place = .ok (term.dissatisfaction valueOf)
  outside : ∀ place, terms.length ≤ place →
    solver.primalDissatisfaction place = .error (.stale (.noTerm place terms.length)) ∧
      solver.dualDissatisfaction place = .error (.stale (.noTerm place terms.length))
  byRule : ∃ sums : Std.TreeMap RuleId (RuleDissatisfaction ℝ), solver.byRule = .ok sums ∧
    solver.SumsUp terms sums

/-- What the sums of local terms hold for a rule. -/
theorem getElem?_rules {settings : ConsensusSettings ℝ} (state : ConsensusState ℝ) (rule : RuleId)
    {sums : Std.TreeMap RuleId (RuleDissatisfaction ℝ)}
    (summed : (⟨settings, some state, tree⟩ : ConsensusSolver ℝ).byRule = .ok sums) :
    let owned := state.terms.filter fun term => term.rule = rule
    sums[rule]? = if owned = [] then none else
      some ⟨(owned.map fun term => term.primalDissatisfaction state.values).sum,
        (owned.map LocalTerm.dualDissatisfaction).sum⟩ := by
  cases summed
  refine (getElem?_foldl_rules state.values rule state.terms ∅).trans ?_
  rw [Std.TreeMap.getElem?_emptyc]
  exact foldl_rules_eq (fun term => term.primalDissatisfaction state.values)
    LocalTerm.dualDissatisfaction _

theorem sumsUp_byRule {terms : List (Term ℝ)} {settings : ConsensusSettings ℝ}
    {state : ConsensusState ℝ} (rules : state.terms.map LocalTerm.rule = terms.map Term.rule)
    {sums : Std.TreeMap RuleId (RuleDissatisfaction ℝ)}
    (summed : (⟨settings, some state, tree⟩ : ConsensusSolver ℝ).byRule = .ok sums) :
    (⟨settings, some state, tree⟩ : ConsensusSolver ℝ).SumsUp terms sums := by
  intro rule
  let kind : LocalTerm ℝ → Bool := fun term => term.rule = rule
  have entries := getElem?_rules state rule summed
  dsimp only at entries
  constructor
  · have named : (∃ term ∈ terms, term.rule = rule) ↔ state.terms.filter kind ≠ [] := by
      rw [← List.mem_map, ← rules, List.mem_map, Ne, List.filter_eq_nil_iff]
      simp [kind]
    rw [named, Std.TreeMap.mem_iff_isSome_getElem?, entries]
    by_cases none : state.terms.filter kind = []
    · simp [kind, none]
    · simp [kind, none]
  · intro entry found
    have places : placesOf terms rule = state.terms.findIdxs kind := by
      have ruled := congrArg (List.findIdxs (· = rule)) rules
      rw [List.findIdxs_map, List.findIdxs_map] at ruled
      exact ruled.symm
    have primals : (state.terms.findIdxs kind).mapM
          (⟨settings, some state, tree⟩ : ConsensusSolver ℝ).primalDissatisfaction =
        .ok ((state.terms.filter kind).map fun term => term.primalDissatisfaction state.values) :=
      mapM_findIdxs kind fun place term here => by
        rw [Nat.zero_add]
        exact (read_of_found settings here).1
    have duals : (state.terms.findIdxs kind).mapM
          (⟨settings, some state, tree⟩ : ConsensusSolver ℝ).dualDissatisfaction =
        .ok ((state.terms.filter kind).map LocalTerm.dualDissatisfaction) :=
      mapM_findIdxs kind fun place term here => by
        rw [Nat.zero_add]
        exact (read_of_found settings here).2
    rw [entries] at found
    split at found
    · cases found
    · cases found
      rw [places]
      exact ⟨_, _, primals, duals, rfl, rfl⟩

/-- A solver whose local terms measure what the terms do. -/
theorem reads_of_measures {terms : List (Term ℝ)} {settings : ConsensusSettings ℝ}
    {state : ConsensusState ℝ} (measured : state.terms.map (measure state.values) =
      terms.map (Term.measure (valueAt state.values))) :
    (⟨settings, some state, tree⟩ : ConsensusSolver ℝ).Reads terms (valueAt state.values) := by
  have length : state.terms.length = terms.length := by
    simpa only [List.length_map] using congrArg List.length measured
  have rules : state.terms.map LocalTerm.rule = terms.map Term.rule := by
    have numbers := congrArg (List.map Prod.fst) measured
    rw [List.map_map, List.map_map] at numbers
    exact numbers
  constructor
  · intro place term found
    have both : (state.terms.map (measure state.values))[place]? =
        some (term.measure (valueAt state.values)) := by
      rw [measured, List.getElem?_map, found, Option.map_some]
    rw [List.getElem?_map, Option.map_eq_some_iff] at both
    obtain ⟨own, ownFound, same⟩ := both
    rw [(read_of_found settings ownFound).1]
    exact congrArg (fun measure : RuleId × ℝ => Except.ok measure.2) same
  · intro place outside
    rw [← length] at outside ⊢
    exact read_of_outside settings outside
  · exact ⟨_, rfl, sumsUp_byRule rules rfl⟩

end ConsensusSolver

namespace ConsensusState

/-- The observed atom and the free one in turn, each of them twice. -/
noncomputable def interleavedTerm : Term ℝ :=
  ⟨⟨1⟩, .squaredLinear, .soft 1, 0, [⟨1⟩, ⟨0⟩, ⟨1⟩, ⟨0⟩], [1, 1, -1, 1]⟩

end ConsensusState

end HingeLoss
