import HingeLoss.Proofs.Number.Exact
import HingeLoss.Proofs.Rule.Built
import Mathlib.Algebra.Order.BigOperators.Group.List

/-! What ground rules say, and what their terms measure. -/

namespace HingeLoss

/-- The Łukasiewicz disjunction of truth values. -/
noncomputable def anyOf (truths : List ℝ) : ℝ :=
  truths.foldr (fun truth others => min 1 (truth + others)) 0

/-- The disjunction of truth values is their sum, up to one. -/
theorem anyOf_eq {truths : List ℝ} (nonnegative : ∀ truth ∈ truths, 0 ≤ truth) :
    anyOf truths = min 1 truths.sum := by
  induction truths with
  | nil => simp [anyOf]
  | cons truth others inductionHypothesis =>
      rw [List.forall_mem_cons] at nonnegative
      have rest := inductionHypothesis nonnegative.2
      unfold anyOf at rest ⊢
      rw [List.foldr_cons, rest, List.sum_cons]
      rcases le_total 1 others.sum with large | small
      · rw [min_eq_left large, min_eq_left (by linarith), min_eq_left (by linarith)]
      · rw [min_eq_right small]

theorem anyOf_eq_one_iff {truths : List ℝ} (nonnegative : ∀ truth ∈ truths, 0 ≤ truth) :
    anyOf truths = 1 ↔ 1 ≤ truths.sum := by
  rw [anyOf_eq nonnegative, min_eq_left_iff]

/-- A shape is zero exactly where its raw value is not positive, if it is hinged or the raw value is
never negative. -/
theorem Shape.apply_faithful (shape : Shape) {raw : ℝ}
    (proper : shape.isHinged = true ∨ 0 ≤ raw) :
    0 ≤ shape.apply raw ∧ (shape.apply raw = 0 ↔ raw ≤ 0) := by
  have hinge : 0 ≤ max raw 0 ∧ (max raw 0 = 0 ↔ raw ≤ 0) := ⟨le_max_right _ _, max_eq_right_iff⟩
  cases shape with
  | linear =>
      have nonnegative : 0 ≤ raw := proper.resolve_left nofun
      exact ⟨nonnegative, fun zero => zero.le, fun below => le_antisymm below nonnegative⟩
  | hinge =>
      rw [apply_hinge]
      exact hinge
  | squaredLinear =>
      have nonnegative : 0 ≤ raw := proper.resolve_left nofun
      rw [apply_squaredLinear, sq_eq_zero_iff]
      exact ⟨sq_nonneg raw, fun zero => zero.le, fun below => le_antisymm below nonnegative⟩
  | squaredHinge =>
      rw [apply_squaredHinge, sq_eq_zero_iff]
      exact ⟨sq_nonneg _, hinge.2⟩

/-- The linear form as a sum. -/
theorem Term.raw_eq (term : Term ℝ) (valueOf : AtomId → ℝ) :
    term.raw valueOf =
      term.constant + (term.entries.map fun entry => entry.2 * valueOf entry.1).sum :=
  foldl_add_eq _ _ _

/-- Values of the unit interval. -/
def InUnitInterval (valueOf : AtomId → ℝ) : Prop := ∀ atom, 0 ≤ valueOf atom ∧ valueOf atom ≤ 1

namespace Clause

/-- The truth of the literals of the clause: those of its negation, negated back. -/
def literals (clause : Clause) (valueOf : AtomId → ℝ) : List ℝ :=
  clause.positive.map (fun atom => 1 - valueOf atom) ++ clause.negative.map valueOf

/-- A clause holds when the disjunction of its literals is true. -/
def Holds (clause : Clause) (valueOf : AtomId → ℝ) : Prop :=
  anyOf (clause.literals valueOf) = 1

theorem literals_nonnegative (clause : Clause) {valueOf : AtomId → ℝ}
    (inUnit : InUnitInterval valueOf) : ∀ truth ∈ clause.literals valueOf, 0 ≤ truth := by
  intro truth member
  rcases List.mem_append.mp member with negated | plain
  · obtain ⟨atom, -, rfl⟩ := List.mem_map.mp negated
    exact sub_nonneg.mpr (inUnit atom).2
  · obtain ⟨atom, -, rfl⟩ := List.mem_map.mp plain
    exact (inUnit atom).1

theorem holds_iff (clause : Clause) {valueOf : AtomId → ℝ} (inUnit : InUnitInterval valueOf) :
    clause.Holds valueOf ↔ 1 ≤ (clause.literals valueOf).sum :=
  anyOf_eq_one_iff (clause.literals_nonnegative inUnit)

theorem sum_signed (valueOf : AtomId → ℝ) (sign : ℝ) (atoms : List AtomId) :
    ((atoms.zip (atoms.map fun _ => sign)).map fun entry => entry.2 * valueOf entry.1).sum =
      sign * (atoms.map valueOf).sum := by
  induction atoms with
  | nil => simp
  | cons atom later inductionHypothesis =>
      simp only [List.map_cons, List.zip_cons_cons, List.sum_cons]
      rw [inductionHypothesis, mul_add]

theorem sum_complements (valueOf : AtomId → ℝ) (atoms : List AtomId) :
    (atoms.map fun atom => 1 - valueOf atom).sum = atoms.length - (atoms.map valueOf).sum := by
  induction atoms with
  | nil => simp
  | cons atom later inductionHypothesis =>
      simp only [List.map_cons, List.sum_cons, List.length_cons, Nat.cast_add, Nat.cast_one]
      rw [inductionHypothesis]
      ring

/-- The linear form of a clause is what its literals leave of one. -/
theorem raw_potential (clause : Clause) (squared : Bool) (weight : Weight ℝ)
    (valueOf : AtomId → ℝ) :
    (clause.potential squared weight).raw valueOf = 1 - (clause.literals valueOf).sum := by
  have entries : (clause.potential squared weight).entries =
      clause.positive.zip (clause.positive.map fun _ => (1 : ℝ)) ++
        clause.negative.zip (clause.negative.map fun _ => (-1 : ℝ)) :=
    List.zip_append (by rw [List.length_map])
  have constant : (clause.potential squared weight).constant =
      1 - (clause.positive.length : ℝ) := rfl
  rw [Term.raw_eq, entries, constant, List.map_append, List.sum_append, sum_signed, sum_signed,
    literals, List.sum_append, sum_complements]
  ring

/-- A clause without a hinge has one literal, whose truth is at most one. -/
theorem proper_potential (clause : Clause) (squared : Bool) (weight : Weight ℝ)
    {valueOf : AtomId → ℝ} (inUnit : InUnitInterval valueOf) :
    (clause.potential squared weight).shape.isHinged = true ∨
      0 ≤ (clause.potential squared weight).raw valueOf := by
  have shape : (clause.potential squared weight).shape =
      Shape.ofFlags (1 < clause.size) squared := rfl
  by_cases several : 1 < clause.size
  · left
    rw [shape, decide_eq_true several]
    cases squared <;> rfl
  · right
    have atMostOne : ∀ truth ∈ clause.literals valueOf, truth ≤ 1 := by
      intro truth member
      rcases List.mem_append.mp member with negated | plain
      · obtain ⟨atom, -, rfl⟩ := List.mem_map.mp negated
        exact sub_le_self 1 (inUnit atom).1
      · obtain ⟨atom, -, rfl⟩ := List.mem_map.mp plain
        exact (inUnit atom).2
    have length : (clause.literals valueOf).length = clause.size := by
      rw [literals, List.length_append, List.length_map, List.length_map, size]
    have bounded := List.sum_le_card_nsmul (clause.literals valueOf) 1 atMostOne
    have single : ((clause.literals valueOf).length : ℝ) ≤ 1 := by
      rw [length]
      exact_mod_cast not_lt.mp several
    rw [nsmul_eq_mul, mul_one] at bounded
    rw [raw_potential]
    linarith

/-- The potential of a clause is zero exactly where the clause holds, and never negative. -/
theorem potential_faithful (clause : Clause) (squared : Bool) (weight : Weight ℝ)
    {valueOf : AtomId → ℝ} (inUnit : InUnitInterval valueOf) :
    0 ≤ (clause.potential squared weight).dissatisfaction valueOf ∧
      ((clause.potential squared weight).dissatisfaction valueOf = 0 ↔ clause.Holds valueOf) := by
  obtain ⟨nonnegative, zero⟩ := Shape.apply_faithful (clause.potential squared weight).shape
    (clause.proper_potential squared weight inUnit)
  refine ⟨nonnegative, zero.trans ?_⟩
  rw [raw_potential, clause.holds_iff inUnit]
  exact sub_nonpos

end Clause

namespace Comparison

variable (comparison : Comparison ℝ) (valueOf : AtomId → ℝ)

/-- The left side of a comparison. -/
noncomputable def total : ℝ :=
  ((comparison.atoms.zip comparison.coefficients).map fun entry =>
    entry.2 * valueOf entry.1).sum

def Holds : Prop :=
  match comparison.comparator with
  | .atMost => comparison.total valueOf ≤ comparison.constant
  | .atLeast => comparison.constant ≤ comparison.total valueOf
  | .equal => comparison.total valueOf = comparison.constant

theorem raw_excess (shape : Shape) (weight : Weight ℝ) :
    (comparison.excess shape weight).raw valueOf =
      comparison.total valueOf - comparison.constant := by
  rw [Term.raw_eq]
  exact neg_add_eq_sub _ _

theorem raw_shortfall (shape : Shape) (weight : Weight ℝ) :
    (comparison.shortfall shape weight).raw valueOf =
      comparison.constant - comparison.total valueOf := by
  have negated : ((comparison.shortfall shape weight).entries.map fun entry =>
      entry.2 * valueOf entry.1).sum = -comparison.total valueOf := by
    have entries : (comparison.shortfall shape weight).entries =
        (comparison.atoms.zip comparison.coefficients).map fun entry => (entry.1, -entry.2) :=
      List.zip_map_right ..
    rw [entries, List.map_map, total, List.sum_neg, List.map_map]
    congr 1
    exact List.map_congr_left fun entry _ => neg_mul _ _
  rw [Term.raw_eq, negated]
  exact (sub_eq_add_neg _ _).symm

theorem isHinged_hinged (rule : Rule ℝ) : (hinged rule).isHinged = true := by
  unfold hinged
  cases rule.weight with
  | hard => rfl
  | soft value => cases rule.squared <;> rfl

variable {comparison valueOf}

/-- A hinged potential of one direction is zero exactly where this direction is not violated. -/
theorem excess_faithful {shape : Shape} (proper : shape.isHinged = true) (weight : Weight ℝ) :
    0 ≤ (comparison.excess shape weight).dissatisfaction valueOf ∧
      ((comparison.excess shape weight).dissatisfaction valueOf = 0 ↔
        comparison.total valueOf ≤ comparison.constant) := by
  obtain ⟨nonnegative, zero⟩ := Shape.apply_faithful shape (.inl proper)
  refine ⟨nonnegative, zero.trans ?_⟩
  rw [raw_excess]
  exact sub_nonpos

theorem shortfall_faithful {shape : Shape} (proper : shape.isHinged = true)
    (weight : Weight ℝ) :
    0 ≤ (comparison.shortfall shape weight).dissatisfaction valueOf ∧
      ((comparison.shortfall shape weight).dissatisfaction valueOf = 0 ↔
        comparison.constant ≤ comparison.total valueOf) := by
  obtain ⟨nonnegative, zero⟩ := Shape.apply_faithful shape (.inl proper)
  refine ⟨nonnegative, zero.trans ?_⟩
  rw [raw_shortfall]
  exact sub_nonpos

/-- The potential of a hard equality is the difference of its two sides, with its sign. -/
theorem dissatisfaction_equality (weight : Weight ℝ) :
    (comparison.excess .linear weight).dissatisfaction valueOf =
      comparison.total valueOf - comparison.constant :=
  comparison.raw_excess valueOf .linear weight

/-- The potentials of a comparison are zero exactly where it holds. Only the one of a hard equality
can be negative. -/
theorem potentials_faithful (comparison : Comparison ℝ) (rule : Rule ℝ)
    (valueOf : AtomId → ℝ) :
    ((∀ term ∈ comparison.potentials rule, term.dissatisfaction valueOf = 0) ↔
        comparison.Holds valueOf) ∧
      (¬ (comparison.comparator = .equal ∧ rule.weight = .hard) →
        ∀ term ∈ comparison.potentials rule, 0 ≤ term.dissatisfaction valueOf) := by
  obtain ⟨id, name, weight, squared⟩ := rule
  have upper := @excess_faithful comparison valueOf _ (isHinged_hinged ⟨id, name, weight, squared⟩)
    weight
  have lower := @shortfall_faithful comparison valueOf _
    (isHinged_hinged ⟨id, name, weight, squared⟩) weight
  unfold potentials Holds
  cases comparator : comparison.comparator with
  | atMost => simpa using upper.symm
  | atLeast => simpa using lower.symm
  | equal =>
      cases weight with
      | hard =>
          refine ⟨?_, fun notHard => absurd ⟨rfl, rfl⟩ notHard⟩
          rw [List.forall_mem_singleton, dissatisfaction_equality]
          exact sub_eq_zero
      | soft value =>
          dsimp only
          rw [List.forall_mem_cons, List.forall_mem_singleton, upper.2, lower.2]
          refine ⟨⟨fun both => le_antisymm both.1 both.2, fun same => ⟨same.le, same.ge⟩⟩, ?_⟩
          intro _
          rw [List.forall_mem_cons, List.forall_mem_singleton]
          exact ⟨upper.1, lower.1⟩

end Comparison

namespace GroundRule

def Holds (valueOf : AtomId → ℝ) : GroundRule ℝ → Prop
  | ofClause clause => clause.Holds valueOf
  | ofComparison comparison => comparison.Holds valueOf

/-- A hard equality, whose one potential has a sign. -/
def Signed (rule : Rule ℝ) : GroundRule ℝ → Prop
  | ofClause _ => False
  | ofComparison comparison => comparison.comparator = .equal ∧ rule.weight = .hard

/-- The terms of a grounding have no dissatisfaction exactly where it holds, and none of them has a
negative one unless it is a hard equality. -/
theorem faithful {ground : GroundRule ℝ} {rule : Rule ℝ} {terms : List (Term ℝ)}
    (built : ground.terms rule = .ok terms) {valueOf : AtomId → ℝ}
    (inUnit : InUnitInterval valueOf) :
    ((∀ term ∈ terms, term.dissatisfaction valueOf = 0) ↔ ground.Holds valueOf) ∧
      (¬ ground.Signed rule → ∀ term ∈ terms, 0 ≤ term.dissatisfaction valueOf) := by
  cases ground with
  | ofClause clause =>
      obtain ⟨-, rfl⟩ := terms_ofClause_ok built
      obtain ⟨nonnegative, zero⟩ := clause.potential_faithful rule.squared rule.weight inUnit
      rw [List.forall_mem_singleton, List.forall_mem_singleton]
      exact ⟨zero, fun _ => nonnegative⟩
  | ofComparison comparison =>
      obtain ⟨rfl, -⟩ := Comparison.terms_ok built
      exact comparison.potentials_faithful rule valueOf

end GroundRule

end HingeLoss
