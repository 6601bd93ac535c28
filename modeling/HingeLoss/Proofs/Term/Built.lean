import HingeLoss.Proofs.Term.Record
import HingeLoss.Store.Fault

/-! The terms that can be built from their own parts. -/

namespace HingeLoss

/-- A weight passes exactly if it is valid. -/
theorem Weight.validate_eq_ok_iff {α : Type} [Scalar α] (weight : Weight α) (rule : RuleId) :
    weight.validate rule = .ok () ↔ weight.isValid = true := by
  cases weight with
  | hard => exact ⟨fun _ => rfl, fun _ => rfl⟩
  | soft value =>
      unfold validate isValid
      dsimp only
      split
      · rename_i valid
        exact ⟨fun _ => valid, fun _ => rfl⟩
      · rename_i invalid
        exact ⟨nofun, fun valid => absurd valid invalid⟩

namespace Term

variable {α : Type} [Scalar α]

/-- A term that is built from its own parts. -/
def IsBuilt (term : Term α) : Prop :=
  build term.rule term.shape term.weight term.atoms term.coefficients term.constant = .ok term

/-- The constant and the coefficients are finite. -/
structure IsFinite (term : Term α) : Prop where
  constant : Scalar.isFinite term.constant = true
  coefficients : ∀ coefficient ∈ term.coefficients, Scalar.isFinite coefficient = true

theorem isFinite_iff (term : Term α) :
    (!Scalar.isFinite term.constant || term.coefficients.any (!Scalar.isFinite ·)) = false ↔
      term.IsFinite := by
  rw [Bool.or_eq_false_iff, Bool.not_eq_false', List.any_eq_false]
  simp only [Bool.not_eq_true, Bool.not_eq_false']
  exact ⟨fun both => ⟨both.1, both.2⟩, fun finite => ⟨finite.constant, finite.coefficients⟩⟩

/-- What the constructor asks of the parts of a term. -/
theorem isBuilt_iff (term : Term α) :
    term.IsBuilt ↔ term.WellFormed ∧ term.IsFinite ∧ term.weight.isValid = true := by
  constructor
  · intro built
    refine ⟨build_wellFormed built, ?_⟩
    unfold IsBuilt build at built
    split at built
    · cases built
    · split at built
      · cases built
      · split at built
        · cases built
        · split at built
          · cases built
          · rename_i finite
            refine ⟨term.isFinite_iff.mp (Bool.eq_false_iff.mpr finite), ?_⟩
            split at built
            · rename_i hard
              rw [hard]
              rfl
            · rename_i value soft
              split at built
              · rename_i nonnegative
                rw [soft]
                exact nonnegative
              · cases built
  · rintro ⟨wellFormed, finite, valid⟩
    obtain ⟨rule, shape, weight, constant, atoms, coefficients⟩ := term
    have someAtoms : ¬ atoms.isEmpty = true := by simpa using wellFormed.nonempty
    have bounded : ¬ maxArity < atoms.length := Nat.not_lt.mpr wellFormed.bounded
    have finiteParts := Bool.eq_false_iff.mp ((isFinite_iff _).mpr finite)
    unfold IsBuilt build
    rw [if_neg someAtoms, if_neg (not_not_intro wellFormed.paired), if_neg bounded,
      if_neg finiteParts]
    cases weight with
    | hard => rfl
    | soft value => exact if_pos valid

/-- A valid weight leaves a term that could have been built. -/
theorem IsBuilt.withWeight {term : Term α} (built : term.IsBuilt) {weight : Weight α}
    (valid : weight.isValid = true) : IsBuilt { term with weight } := by
  obtain ⟨wellFormed, finite, -⟩ := term.isBuilt_iff.mp built
  exact (isBuilt_iff _).mpr
    ⟨wellFormed.withWeight weight, ⟨finite.constant, finite.coefficients⟩, valid⟩

theorem IsBuilt.reweigh {term : Term α} (built : term.IsBuilt) {weight : Weight α}
    (valid : weight.isValid = true) (rule : RuleId) : (term.reweigh rule weight).IsBuilt := by
  unfold Term.reweigh
  split
  · exact built.withWeight valid
  · exact built

end Term

end HingeLoss
