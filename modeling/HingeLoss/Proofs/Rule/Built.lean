import HingeLoss.Proofs.Term.Record
import HingeLoss.Rule.Ground

/-! What the builders of terms, clauses and comparisons build. -/

namespace HingeLoss

variable {α : Type}

/-- The linear form of the amount by which the sum exceeds the constant. -/
def Comparison.excess [Neg α] (comparison : Comparison α) (shape : Shape) (weight : Weight α) :
    Term α :=
  ⟨comparison.rule, shape, weight, -comparison.constant, comparison.atoms,
    comparison.coefficients⟩

/-- The linear form of the amount by which the sum falls short of the constant. -/
def Comparison.shortfall [Neg α] (comparison : Comparison α) (shape : Shape)
    (weight : Weight α) : Term α :=
  ⟨comparison.rule, shape, weight, comparison.constant, comparison.atoms,
    comparison.coefficients.map fun coefficient => -coefficient⟩

variable [Scalar α]

/-- The potential of a clause, as it is built with a weight. -/
def Clause.potential (clause : Clause) (squared : Bool) (weight : Weight α) : Term α :=
  ⟨clause.rule, Shape.ofFlags (1 < clause.size) squared, weight,
    1 - (clause.positive.length : α), clause.positive ++ clause.negative,
    clause.positive.map (fun _ => 1) ++ clause.negative.map (fun _ => -1)⟩

theorem Term.build_ok {rule : RuleId} {shape : Shape} {weight : Weight α} {atoms : List AtomId}
    {coefficients : List α} {constant : α} {term : Term α}
    (built : Term.build rule shape weight atoms coefficients constant = .ok term) :
    term = ⟨rule, shape, weight, constant, atoms, coefficients⟩ := by
  unfold Term.build at built
  split at built
  · cases built
  · split at built
    · cases built
    · split at built
      · cases built
      · split at built
        · cases built
        · cases weight with
          | hard => exact (Except.ok.inj built).symm
          | soft value =>
              dsimp only at built
              split at built
              · exact (Except.ok.inj built).symm
              · cases built

theorem Rule.term_ok {rule : RuleId} {shape : Shape} {weight : Weight α} {atoms : List AtomId}
    {coefficients : List α} {constant : α} {term : Term α}
    (built : Rule.term rule shape weight atoms coefficients constant = .ok term) :
    term = ⟨rule, shape, weight, constant, atoms, coefficients⟩ ∧ term.WellFormed := by
  unfold Rule.term at built
  cases outcome : Term.build rule shape weight atoms coefficients constant with
  | error fault =>
      rw [outcome] at built
      cases built
  | ok found =>
      rw [outcome] at built
      cases built
      exact ⟨Term.build_ok outcome, Term.build_wellFormed outcome⟩

/-- A clause is built with the rule of its own number only. -/
theorem Clause.term_ok {clause : Clause} {rule : Rule α} {term : Term α}
    (built : clause.term rule = .ok term) :
    rule.id = clause.rule ∧ term = clause.potential rule.squared rule.weight ∧
      term.WellFormed := by
  unfold Clause.term at built
  by_cases own : rule.id = clause.rule
  · rw [if_neg (not_not_intro own)] at built
    exact ⟨own, Rule.term_ok built⟩
  · rw [if_pos own] at built
    cases built

namespace Comparison

theorem above_ok {comparison : Comparison α} {shape : Shape} {weight : Weight α} {term : Term α}
    (built : comparison.above shape weight = .ok term) :
    term = comparison.excess shape weight ∧ term.WellFormed :=
  Rule.term_ok built

theorem below_ok {comparison : Comparison α} {shape : Shape} {weight : Weight α} {term : Term α}
    (built : comparison.below shape weight = .ok term) :
    term = comparison.shortfall shape weight ∧ term.WellFormed :=
  Rule.term_ok built

/-- Hard terms are not squared. -/
def hinged (rule : Rule α) : Shape :=
  match rule.weight with
  | .hard => .hinge
  | .soft _ => Shape.ofFlags true rule.squared

/-- The potentials of a comparison: one for each direction in which it can be violated. A hard
equality has the excess alone, without a hinge. -/
def potentials (comparison : Comparison α) (rule : Rule α) : List (Term α) :=
  match comparison.comparator, rule.weight with
  | .atMost, weight => [comparison.excess (hinged rule) weight]
  | .atLeast, weight => [comparison.shortfall (hinged rule) weight]
  | .equal, .hard => [comparison.excess .linear .hard]
  | .equal, .soft value =>
      [comparison.excess (hinged rule) (.soft value),
        comparison.shortfall (hinged rule) (.soft value)]

/-- The potentials carry the number of the comparison and the weight of the rule that was given. -/
theorem carried {comparison : Comparison α} {rule : Rule α} {term : Term α}
    (member : term ∈ comparison.potentials rule) :
    term.rule = comparison.rule ∧ term.weight = rule.weight := by
  obtain ⟨id, name, weight, squared⟩ := rule
  unfold potentials at member
  cases weight with
  | hard =>
      cases comparator : comparison.comparator <;> rw [comparator] at member <;>
        rw [List.mem_singleton.mp member] <;> exact ⟨rfl, rfl⟩
  | soft value =>
      cases comparator : comparison.comparator <;> rw [comparator] at member
      case atMost =>
        rw [List.mem_singleton.mp member]
        exact ⟨rfl, rfl⟩
      case atLeast =>
        rw [List.mem_singleton.mp member]
        exact ⟨rfl, rfl⟩
      case equal =>
        rcases List.mem_cons.mp member with rfl | member
        · exact ⟨rfl, rfl⟩
        · rw [List.mem_singleton.mp member]
          exact ⟨rfl, rfl⟩

omit [Scalar α] in
theorem single_ok {outcome : Except (StoreFault α) (Term α)} {expected : Term α}
    {terms : List (Term α)}
    (sound : ∀ {term}, outcome = .ok term → term = expected ∧ term.WellFormed)
    (built : outcome.map ([·]) = .ok terms) :
    terms = [expected] ∧ ∀ term ∈ terms, term.WellFormed := by
  cases outcome with
  | error fault => cases built
  | ok found =>
      cases built
      obtain ⟨rfl, wellFormed⟩ := sound rfl
      exact ⟨rfl, List.forall_mem_singleton.mpr wellFormed⟩

/-- The terms of a comparison are its potentials. -/
theorem terms_ok {comparison : Comparison α} {rule : Rule α} {terms : List (Term α)}
    (built : comparison.terms rule = .ok terms) :
    terms = comparison.potentials rule ∧ ∀ term ∈ terms, term.WellFormed := by
  obtain ⟨id, name, weight, squared⟩ := rule
  unfold Comparison.terms at built
  cases weight with
  | hard =>
      unfold potentials
      cases comparator : comparison.comparator <;> rw [comparator] at built
      case atMost => exact single_ok above_ok built
      case atLeast => exact single_ok below_ok built
      case equal => exact single_ok above_ok built
  | soft value =>
      unfold potentials
      cases comparator : comparison.comparator <;> rw [comparator] at built
      case atMost => exact single_ok above_ok built
      case atLeast => exact single_ok below_ok built
      case equal =>
        dsimp only at built
        cases upper : comparison.above (Shape.ofFlags true squared) (.soft value) with
        | error fault =>
            rw [upper] at built
            cases built
        | ok above =>
            cases lower : comparison.below (Shape.ofFlags true squared) (.soft value) with
            | error fault =>
                rw [upper, lower] at built
                cases built
            | ok below =>
                rw [upper, lower] at built
                cases built
                obtain ⟨rfl, upperFormed⟩ := above_ok upper
                obtain ⟨rfl, lowerFormed⟩ := below_ok lower
                exact ⟨rfl, by simp [upperFormed, lowerFormed]⟩

end Comparison

/-- A grounding of a rule. -/
inductive GroundRule (α : Type) where
  | ofClause (clause : Clause)
  | ofComparison (comparison : Comparison α)

namespace GroundRule

omit [Scalar α] in
/-- The number of the rule that is grounded. -/
def rule : GroundRule α → RuleId
  | ofClause clause => clause.rule
  | ofComparison comparison => comparison.rule

def terms (ground : GroundRule α) (rule : Rule α) : Except (StoreFault α) (List (Term α)) :=
  match ground with
  | ofClause clause => (clause.term rule).map ([·])
  | ofComparison comparison => comparison.terms rule

theorem terms_ofClause_ok {clause : Clause} {rule : Rule α} {terms : List (Term α)}
    (built : (ofClause clause).terms rule = .ok terms) :
    rule.id = clause.rule ∧ terms = [clause.potential rule.squared rule.weight] := by
  unfold GroundRule.terms at built
  dsimp only at built
  cases outcome : clause.term rule with
  | error fault =>
      rw [outcome] at built
      cases built
  | ok potential =>
      rw [outcome] at built
      cases built
      obtain ⟨own, rfl, -⟩ := Clause.term_ok outcome
      exact ⟨own, rfl⟩

/-- The terms of a grounding carry its number and the weight of the rule that was given. -/
theorem terms_carried {ground : GroundRule α} {rule : Rule α} {terms : List (Term α)}
    (built : ground.terms rule = .ok terms) :
    ∀ term ∈ terms, term.rule = ground.rule ∧ term.weight = rule.weight := by
  intro term member
  cases ground with
  | ofClause clause =>
      obtain ⟨-, rfl⟩ := terms_ofClause_ok built
      rw [List.mem_singleton.mp member]
      exact ⟨rfl, rfl⟩
  | ofComparison comparison =>
      obtain ⟨rfl, -⟩ := Comparison.terms_ok built
      exact Comparison.carried member

end GroundRule

end HingeLoss
