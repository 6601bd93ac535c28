import HingeLoss.Proofs.Rule.Literal
import HingeLoss.Proofs.Rule.Registry
import HingeLoss.Proofs.Term.Built

/-! The term of a clause measures what the disjunction that its text shows lacks of being true. -/

namespace HingeLoss

@[simp] theorem Shape.isHinged_ofFlags (hinged squared : Bool) :
    (ofFlags hinged squared).isHinged = hinged := by
  cases hinged <;> cases squared <;> rfl

@[simp] theorem Shape.isSquared_ofFlags (hinged squared : Bool) :
    (ofFlags hinged squared).isSquared = squared := by
  cases hinged <;> cases squared <;> rfl

namespace Term

variable (term : Term ℝ) (valueOf : AtomId → ℝ)

/-- The linear form. A hinge cuts off what is below zero. -/
noncomputable def cutOff : ℝ :=
  if term.shape.isHinged then max (term.raw valueOf) 0 else term.raw valueOf

theorem dissatisfaction_eq :
    term.dissatisfaction valueOf =
      if term.shape.isSquared then term.cutOff valueOf ^ 2 else term.cutOff valueOf := by
  unfold dissatisfaction cutOff
  cases term.shape with
  | linear => rfl
  | hinge => exact Shape.apply_hinge _
  | squaredLinear => exact Shape.apply_squaredLinear _
  | squaredHinge => exact Shape.apply_squaredHinge _

/-- Without tolerance, a constraint holds exactly where nothing of its linear form is left. -/
theorem holdsWithin_zero_iff :
    term.holdsWithin valueOf 0 = true ↔ term.cutOff valueOf = 0 := by
  unfold holdsWithin cutOff
  dsimp only
  split
  · rw [decide_eq_true_iff, max_eq_right_iff]
  · rw [decide_eq_true_iff, Scalar.absolute_eq]
    exact abs_nonpos_iff

end Term

namespace RuleSet

variable {α : Type} [Scalar α] {set : RuleSet α}

/-- The sets that registrations and new weights lead to. -/
inductive Reached : RuleSet α → Prop where
  | empty : Reached .empty
  | register {set after : RuleSet α} {name : String} {weight : Weight α} {squared : Bool}
      {given : RuleId} (reached : Reached set)
      (registered : set.register name weight squared = .ok (given, after)) : Reached after
  | setWeight {set after : RuleSet α} {rule : RuleId} {weight : Weight α} (reached : Reached set)
      (reweighed : set.setWeight rule weight = .ok after) : Reached after

/-- Only valid weights are registered. -/
theorem isValid_of_register {after : RuleSet α} {name : String} {weight : Weight α}
    {squared : Bool} {given : RuleId}
    (registered : set.register name weight squared = .ok (given, after)) :
    weight.isValid = true := by
  unfold register at registered
  dsimp only at registered
  cases valid : weight.validate (RuleId.ofIndex set.size) with
  | error fault =>
      rw [valid] at registered
      cases registered
  | ok _ => exact (weight.validate_eq_ok_iff _).mp valid

/-- Every rule has the number of its place and a valid weight. -/
theorem Reached.filed (reached : set.Reached) {place : Nat} {found : Rule α}
    (filed : set.rules[place]? = some found) :
    found.id = .ofIndex place ∧ found.weight.isValid = true := by
  induction reached generalizing found with
  | empty => cases filed
  | register _ registered inductionHypothesis =>
      rw [register_ok registered, Array.getElem?_push] at filed
      split at filed
      · rename_i last
        cases filed
        exact ⟨congrArg RuleId.ofIndex last.symm, isValid_of_register registered⟩
      · exact inductionHypothesis filed
  | setWeight _ reweighed inductionHypothesis =>
      obtain ⟨valid, -, rules⟩ := setWeight_ok reweighed
      rw [rules, Array.getElem?_modify] at filed
      split at filed
      · obtain ⟨before, known, rfl⟩ := Option.map_eq_some_iff.mp filed
        exact ⟨(inductionHypothesis known).1, (Weight.validate_eq_ok_iff _ _).mp valid⟩
      · exact inductionHypothesis filed

theorem Reached.valid (reached : set.Reached) {found : Rule α} (member : found ∈ set.rules) :
    found.weight.isValid = true := by
  obtain ⟨place, filed⟩ := Array.mem_iff_getElem?.mp member
  exact (reached.filed filed).2

/-- The rule that is found by a number has this number. -/
theorem Reached.get (reached : set.Reached) {rule : RuleId} {found : Rule α}
    (known : set.get rule = .ok found) : found ∈ set.rules ∧ found.id = rule := by
  have filed := place_of_get known
  exact ⟨Array.mem_of_getElem? filed,
    (reached.filed filed).1.trans (congrArg RuleId.mk UInt32.ofNat_toNat)⟩

end RuleSet

namespace Clause

variable {clause : Clause} {valueOf : AtomId → ℝ}

/-- What is left of the linear form of a clause is the distance of the clause from being true. -/
theorem cutOff_potential (squared : Bool) (weight : Weight ℝ) (inUnit : InUnitInterval valueOf) :
    (clause.potential squared weight).cutOff valueOf =
      Literal.distance clause.disjuncts valueOf := by
  have distance : Literal.distance clause.disjuncts valueOf =
      max ((clause.potential squared weight).raw valueOf) 0 := by
    rw [clause.distance_disjuncts inUnit, raw_potential, literals, List.sum_append,
      ← max_sub_sub_left, sub_self, max_comm]
  rw [distance, Term.cutOff]
  split
  · rfl
  · rename_i linear
    have nonnegative := (clause.proper_potential squared weight inUnit).resolve_left linear
    exact (max_eq_left nonnegative).symm

/-- A clause that a record can hold is built with a valid rule of its number. -/
theorem term_eq_ok {rule : Rule ℝ} (own : rule.id = clause.rule)
    (valid : rule.weight.isValid = true) (some : 1 ≤ clause.size)
    (bounded : clause.size ≤ 65535) :
    clause.term rule = .ok (clause.potential rule.squared rule.weight) := by
  have arity : (clause.positive ++ clause.negative).length = clause.size := List.length_append
  have wellFormed : (clause.potential rule.squared rule.weight).WellFormed :=
    ⟨List.ne_nil_of_length_pos (arity ▸ some), by simp [potential], arity ▸ bounded⟩
  have built : (clause.potential rule.squared rule.weight).IsBuilt :=
    (Term.isBuilt_iff _).mpr ⟨wellFormed, ⟨rfl, fun _ _ => rfl⟩, valid⟩
  unfold Clause.term Rule.term
  rw [if_neg (not_not_intro own)]
  exact congrArg (Except.mapError _) built

end Clause

/-- At values of the unit interval the dissatisfaction of a clause is what the disjunction that its
text shows lacks of being true, or the square of it. -/
theorem clause_measured {set : RuleSet ℝ} (reached : set.Reached) (clause : Clause) {rule : Rule ℝ}
    (member : rule ∈ set.rules) (own : rule.id = clause.rule) (some : 1 ≤ clause.size)
    (bounded : clause.size ≤ 65535) :
    ∃ term, clause.term rule = .ok term ∧
      (∀ literals, Literal.disjunctionText literals = clause.text ↔
        literals = clause.disjuncts) ∧
      ∀ valueOf, InUnitInterval valueOf →
        let distance := 1 - min 1 ((clause.positive.map fun atom => 1 - valueOf atom).sum +
          (clause.negative.map valueOf).sum)
        Literal.distance clause.disjuncts valueOf = distance ∧
          term.dissatisfaction valueOf = (if rule.squared then distance ^ 2 else distance) ∧
          (term.holdsWithin valueOf 0 = true ↔ distance = 0) := by
  refine ⟨_, clause.term_eq_ok own (reached.valid member) some bounded,
    clause.disjunctionText_eq_text_iff, fun valueOf inUnit => ?_⟩
  intro distance
  have shown : Literal.distance clause.disjuncts valueOf = distance :=
    clause.distance_disjuncts inUnit
  have cutOff := (Clause.cutOff_potential rule.squared rule.weight inUnit).trans shown
  have shape : (clause.potential rule.squared rule.weight).shape.isSquared = rule.squared :=
    Shape.isSquared_ofFlags _ _
  refine ⟨shown, ?_, ?_⟩
  · rw [Term.dissatisfaction_eq, shape, cutOff]
  · rw [Term.holdsWithin_zero_iff, cutOff]

/-- A clause that says twice that the one atom is false, under the only rule of a set. -/
theorem clause_measured_sample :
    let rule : Rule ℝ := ⟨⟨0⟩, "rare", .soft 2, true⟩
    let clause : Clause := ⟨⟨0⟩, [⟨0⟩, ⟨0⟩], [⟨1⟩]⟩
    let valueOf (low : ℝ) (atom : AtomId) : ℝ := if atom = ⟨0⟩ then 1 - low else low
    RuleSet.empty.register "rare" (.soft (2 : ℝ)) true = .ok (⟨0⟩, ⟨#[rule]⟩) ∧
      ∃ term, clause.term rule = .ok term ∧
        ∀ low, 0 ≤ low → low + low + low ≤ 1 →
          term.dissatisfaction (valueOf low) = (1 - (low + low + low)) ^ 2 := by
  intro rule clause valueOf
  have registered : RuleSet.empty.register "rare" (.soft (2 : ℝ)) true =
      .ok (⟨0⟩, ⟨#[rule]⟩) := by
    simp [RuleSet.register, Weight.validate, Scalar.isNonnegative, Scalar.isFinite, Except.map,
      RuleSet.empty, RuleSet.size, RuleId.ofIndex, rule]
  have reached : (RuleSet.mk #[rule]).Reached := .register .empty registered
  have known : (RuleSet.mk #[rule]).get ⟨0⟩ = .ok rule := rfl
  obtain ⟨member, own⟩ := reached.get known
  obtain ⟨term, built, -, measured⟩ :=
    clause_measured reached clause member own (by decide) (by decide)
  refine ⟨registered, term, built, fun low nonnegative small => ?_⟩
  have inUnit : InUnitInterval (valueOf low) := by
    intro atom
    dsimp only [valueOf]
    split <;> constructor <;> linarith
  have first : valueOf low ⟨0⟩ = 1 - low := if_pos rfl
  have second : valueOf low ⟨1⟩ = low := if_neg (by decide)
  have literals : (clause.positive.map fun atom => 1 - valueOf low atom).sum +
      (clause.negative.map (valueOf low)).sum = low + low + low := by
    simp only [clause, List.map_cons, List.map_nil, List.sum_cons, List.sum_nil, first, second]
    ring
  rw [(measured (valueOf low) inUnit).2.1, literals, min_eq_right small]
  exact if_pos rfl

end HingeLoss
