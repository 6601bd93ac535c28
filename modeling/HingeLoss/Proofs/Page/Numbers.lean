import HingeLoss.Proofs.Number.Same
import HingeLoss.Proofs.Page.Slot
import HingeLoss.Proofs.Term.Built

/-! The terms of a page could have been built if the words of their numbers are those of numbers. -/

namespace HingeLoss

/-- The words of finite numbers, which do not have all ones for an exponent. -/
def IsFiniteWord (word : UInt32) : Prop := word.toNat % 0x80000000 < 0x7f800000

/-- The words of finite numbers that are not negative. The negative zero is one of them. -/
def IsWeightWord (word : UInt32) : Prop := word.toNat < 0x7f800000 ∨ word.toNat = 0x80000000

instance (word : UInt32) : Decidable (IsFiniteWord word) := Nat.decLt _ _

instance (word : UInt32) : Decidable (IsWeightWord word) :=
  inferInstanceAs (Decidable (_ ∨ _))

namespace Single

theorem isFinite_iff (value : Single) : Scalar.isFinite value = true ↔ IsFiniteWord value.bits := by
  unfold IsFiniteWord
  rw [← magnitude_eq]
  exact decide_eq_true_iff.trans UInt32.lt_iff_toNat_lt

theorem isNaN_of_isFinite {value : Single} (finite : IsFiniteWord value.bits) :
    value.isNaN = false := by
  unfold IsFiniteWord at finite
  rw [← magnitude_eq] at finite
  exact decide_eq_false fun above => absurd (UInt32.lt_iff_toNat_lt.mp above) (Nat.lt_asymm finite)

theorem isNonnegative_iff (value : Single) :
    Scalar.isNonnegative value = true ↔ IsWeightWord value.bits := by
  have size := value.bits.toNat_lt
  have rank : (0 : Single).rank ≤ value.rank ↔
      value.bits.toNat < 0x80000000 ∨ value.bits.toNat = 0x80000000 := by
    have zero : (0 : Single).rank = 0 := rfl
    rw [zero, rank_eq, rankOfWord]
    split <;> omega
  rw [Scalar.isNonnegative, Bool.and_eq_true, isFinite_iff, decide_eq_true_iff]
  constructor
  · rintro ⟨finite, -, -, ordered⟩
    unfold IsFiniteWord IsWeightWord at *
    have := rank.mp ordered
    omega
  · intro weight
    have finite : IsFiniteWord value.bits := by
      unfold IsFiniteWord IsWeightWord at *
      omega
    refine ⟨finite, rfl, isNaN_of_isFinite finite, rank.mpr ?_⟩
    unfold IsWeightWord at weight
    omega

end Single

namespace TermRecord

/-- The words of a record are those of numbers that a term can be built with. -/
structure IsNumeric (record : TermRecord) : Prop where
  constant : IsFiniteWord record.constant.bits
  coefficients : ∀ entry ∈ record.entries, IsFiniteWord entry.2.bits
  weight : record.flag = 1 ∨ IsWeightWord record.weight.bits

theorem isFinite_term_iff (record : TermRecord) :
    record.term.IsFinite ↔ IsFiniteWord record.constant.bits ∧
      ∀ entry ∈ record.entries, IsFiniteWord entry.2.bits := by
  have coefficients : (∀ coefficient ∈ record.term.coefficients,
      Scalar.isFinite coefficient = true) ↔
        ∀ entry ∈ record.entries, IsFiniteWord entry.2.bits := by
    simp only [term, List.forall_mem_map, Single.isFinite_iff]
  rw [← coefficients, ← Single.isFinite_iff]
  exact ⟨fun finite => ⟨finite.constant, finite.coefficients⟩, fun both => ⟨both.1, both.2⟩⟩

theorem isValid_weight_iff (record : TermRecord) :
    record.term.weight.isValid = true ↔ record.flag = 1 ∨ IsWeightWord record.weight.bits := by
  unfold term
  dsimp only
  split
  · rename_i hard
    exact ⟨fun _ => .inl hard, fun _ => rfl⟩
  · rename_i soft
    exact (Single.isNonnegative_iff _).trans (or_iff_right soft).symm

/-- The term of a sound record could have been built exactly if the words of the record are those of
numbers. -/
theorem Sound.isBuilt_term_iff {record : TermRecord} (sound : record.Sound) :
    record.term.IsBuilt ↔ record.IsNumeric := by
  rw [Term.isBuilt_iff, isFinite_term_iff, isValid_weight_iff]
  exact ⟨fun ⟨_, finite, weight⟩ => ⟨finite.1, finite.2, weight⟩,
    fun numeric => ⟨sound.wellFormed_term, ⟨numeric.constant, numeric.coefficients⟩,
      numeric.weight⟩⟩

end TermRecord

namespace Page

/-- The records of an image are numeric. Bytes that are no image have none. -/
def HoldsNumbers (image : Bytes) : Prop :=
  ∀ records, IsImage image records → ∀ record ∈ records, record.IsNumeric

/-- The terms of an image could all have been built exactly if the image holds numbers. -/
theorem IsImage.holdsNumbers_iff {image : Bytes} {records : List TermRecord}
    (isImage : IsImage image records) :
    HoldsNumbers image ↔ ∀ term ∈ records.map TermRecord.term, term.IsBuilt := by
  constructor
  · intro numbers
    exact List.forall_mem_map.mpr fun record member =>
      (isImage.sound record member).isBuilt_term_iff.mpr (numbers records isImage record member)
  · intro built others other record member
    rw [isImage.map_term_unique other] at built
    exact (other.sound record member).isBuilt_term_iff.mp
      (built _ (List.mem_map_of_mem member))

/-- A page that is saved with terms that were built holds numbers. -/
theorem holdsNumbers_encode {terms : List (Term Single)} (built : ∀ term ∈ terms, term.IsBuilt)
    (fits : fitsHeader (body terms).length terms.length = true) : HoldsNumbers (encode terms) := by
  have wellFormed : ∀ term ∈ terms, term.WellFormed := fun term member =>
    ((Term.isBuilt_iff term).mp (built term member)).1
  refine (isImage_encode wellFormed fits).holdsNumbers_iff.mpr ?_
  rw [map_term_ofTerm wellFormed]
  exact built

end Page

end HingeLoss
