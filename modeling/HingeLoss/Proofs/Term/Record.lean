import HingeLoss.Proofs.Term.Layout

/-! The record of a well-formed term reads back as the term, and has the announced length. -/

namespace HingeLoss

namespace Term

/-- A term has as many coefficients as atoms, at least one and no more than a record can count. -/
structure WellFormed {α : Type} (term : Term α) : Prop where
  nonempty : term.atoms ≠ []
  paired : term.atoms.length = term.coefficients.length
  bounded : term.atoms.length ≤ maxArity

instance {α : Type} (term : Term α) : Decidable term.WellFormed :=
  decidable_of_iff
    (term.atoms ≠ [] ∧ term.atoms.length = term.coefficients.length ∧
      term.atoms.length ≤ maxArity)
    ⟨fun ⟨nonempty, paired, bounded⟩ => ⟨nonempty, paired, bounded⟩,
      fun ⟨nonempty, paired, bounded⟩ => ⟨nonempty, paired, bounded⟩⟩

/-- The weight does not matter for the form of a term. -/
theorem WellFormed.withWeight {α : Type} {term : Term α} (wellFormed : term.WellFormed)
    (weight : Weight α) : WellFormed { term with weight } :=
  ⟨wellFormed.nonempty, wellFormed.paired, wellFormed.bounded⟩

/-- A new weight changes the weight alone. -/
theorem reweigh_eq {α : Type} (rule : RuleId) (weight : Weight α) (term : Term α) :
    term.reweigh rule weight =
      { term with weight := if term.rule = rule then weight else term.weight } := by
  unfold reweigh
  split <;> rfl

@[simp] theorem rule_reweigh {α : Type} (rule : RuleId) (weight : Weight α) (term : Term α) :
    (term.reweigh rule weight).rule = term.rule := by
  rw [reweigh_eq]

@[simp] theorem encodedLength_reweigh {α : Type} (rule : RuleId) (weight : Weight α)
    (term : Term α) : (term.reweigh rule weight).encodedLength = term.encodedLength := by
  rw [reweigh_eq]
  rfl

theorem WellFormed.reweigh {α : Type} {term : Term α} (wellFormed : term.WellFormed) (rule : RuleId)
    (weight : Weight α) : (term.reweigh rule weight).WellFormed := by
  rw [reweigh_eq]
  exact wellFormed.withWeight _

theorem build_wellFormed {α : Type} [Scalar α] {rule : RuleId} {shape : Shape} {weight : Weight α}
    {atoms : List AtomId} {coefficients : List α} {constant : α} {term : Term α}
    (built : build rule shape weight atoms coefficients constant = .ok term) :
    term.WellFormed := by
  unfold build at built
  split at built
  · cases built
  · rename_i someAtoms
    split at built
    · cases built
    · rename_i paired
      split at built
      · cases built
      · rename_i bounded
        have form (weight : Weight α) :
            WellFormed ⟨rule, shape, weight, constant, atoms, coefficients⟩ :=
          ⟨by simpa using someAtoms, Decidable.not_not.mp paired, Nat.le_of_not_lt bounded⟩
        split at built
        · cases built
        · cases weight with
          | hard =>
              cases built
              exact form .hard
          | soft value =>
              dsimp only at built
              split at built
              · cases built
                exact form (.soft value)
              · cases built

theorem WellFormed.length_entries {α : Type} {term : Term α} (wellFormed : term.WellFormed) :
    term.entries.length = term.arity := by
  simp only [entries, List.length_zip, arity, ← wellFormed.paired, Nat.min_self]

theorem WellFormed.map_fst_entries {α : Type} {term : Term α} (wellFormed : term.WellFormed) :
    term.entries.map Prod.fst = term.atoms :=
  List.map_fst_zip (Nat.le_of_eq wellFormed.paired)

theorem WellFormed.map_snd_entries {α : Type} {term : Term α} (wellFormed : term.WellFormed) :
    term.entries.map Prod.snd = term.coefficients :=
  List.map_snd_zip (Nat.le_of_eq wellFormed.paired.symm)

end Term

namespace TermRecord

/-- The fields that stand for a term. A hard one has the weight bytes zero. -/
def ofTerm (term : Term Single) : TermRecord where
  rule := term.rule
  tag := term.shape.tag
  flag := if term.isHard then 1 else 0
  weight := match term.weight with
    | .soft value => value
    | .hard => 0
  constant := term.constant
  entries := term.entries

theorem bytes_ofTerm {term : Term Single} (wellFormed : term.WellFormed) :
    (ofTerm term).bytes = term.encode := by
  obtain ⟨rule, shape, weight, constant, atoms, coefficients⟩ := term
  have counted := wellFormed.length_entries
  cases weight <;> simp only [bytes, ofTerm, counted] <;> rfl

theorem sound_ofTerm {term : Term Single} (wellFormed : term.WellFormed) :
    (ofTerm term).Sound where
  tag := by
    change term.shape.tag ≤ 3
    cases term.shape <;> decide
  flag := by
    change (if term.isHard then (1 : UInt8) else 0) ≤ 1
    cases term.isHard <;> decide
  someEntry := by
    change 1 ≤ term.entries.length
    rw [wellFormed.length_entries]
    exact List.length_pos_iff.mpr wellFormed.nonempty
  bounded := by
    change term.entries.length ≤ Term.maxArity
    rw [wellFormed.length_entries]
    exact wellFormed.bounded

theorem term_ofTerm {term : Term Single} (wellFormed : term.WellFormed) :
    (ofTerm term).term = term := by
  obtain ⟨rule, shape, weight, constant, atoms, coefficients⟩ := term
  have firsts := wellFormed.map_fst_entries
  have seconds := wellFormed.map_snd_entries
  cases shape <;> cases weight <;> simp only [TermRecord.term, ofTerm, firsts, seconds] <;> rfl

end TermRecord

namespace Term

/-- A record reads back as its term, whatever bytes follow. -/
theorem decode_encode_append {term : Term Single} (wellFormed : term.WellFormed) (rest : Bytes) :
    decode (term.encode ++ rest) = .ok (term, rest) := by
  have read := (TermRecord.sound_ofTerm wellFormed).decode_append rest
  rwa [TermRecord.bytes_ofTerm wellFormed, TermRecord.term_ofTerm wellFormed] at read

theorem length_encode {term : Term Single} (wellFormed : term.WellFormed) :
    term.encode.length = term.encodedLength := by
  rw [← TermRecord.bytes_ofTerm wellFormed, TermRecord.length_bytes, encodedLength,
    ← wellFormed.length_entries]
  rfl

end Term

end HingeLoss
