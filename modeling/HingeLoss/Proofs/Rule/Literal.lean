import HingeLoss.Proofs.Atom.Store
import HingeLoss.Proofs.Rule.Truth

/-! The text of a clause shows its literals in order, and they can be read off it. -/

namespace HingeLoss

/-- A literal of a clause: an atom or its negation. -/
structure Literal where
  atom : AtomId
  negated : Bool

namespace Literal

def text (literal : Literal) : String :=
  if literal.negated then "!" ++ literal.atom.label else literal.atom.label

/-- The disjunction of literals as it is written. -/
def disjunctionText (literals : List Literal) : String := " | ".intercalate (literals.map text)

noncomputable def truth (valueOf : AtomId → ℝ) (literal : Literal) : ℝ :=
  if literal.negated then 1 - valueOf literal.atom else valueOf literal.atom

/-- What the disjunction of literals lacks of being true. -/
noncomputable def distance (literals : List Literal) (valueOf : AtomId → ℝ) : ℝ :=
  1 - anyOf (literals.map (truth valueOf))

theorem toList_label (atom : AtomId) :
    atom.label.toList = "atom:".toList ++ Nat.toDigits 10 atom.index := by
  simp only [AtomId.label, String.toList_append, Nat.toString_eq_ofList_toDigits,
    String.toList_ofList]

/-- A literal can be read off its text. -/
theorem text_injective : Function.Injective text := by
  have labels {first second : AtomId}
      (same : first.label.toList = second.label.toList) : first = second := by
    rw [toList_label, toList_label, List.append_cancel_left_eq] at same
    apply AtomId.index_injective
    rw [← @Nat.ofDigitChars_ten_toDigits first.index, same, Nat.ofDigitChars_ten_toDigits]
  intro first second same
  obtain ⟨firstAtom, firstNegated⟩ := first
  obtain ⟨secondAtom, secondNegated⟩ := second
  have characters := congrArg String.toList same
  cases firstNegated <;> cases secondNegated <;>
    simp only [text, Bool.false_eq_true, if_false, if_true, String.toList_append] at characters
  · rw [labels characters]
  · simp [toList_label] at characters
  · simp [toList_label] at characters
  · rw [labels (List.append_cancel_left characters)]

/-- A word is not empty and holds neither a space nor the sign that stands between words. -/
def IsWord (word : List Char) : Prop := word ≠ [] ∧ ' ' ∉ word ∧ '|' ∉ word

theorem isWord_text (literal : Literal) : IsWord literal.text.toList := by
  have digits {character : Char} (other : character.isDigit = false) :
      character ∉ Nat.toDigits 10 literal.atom.index := by
    intro member
    exact absurd (Nat.isDigit_of_mem_toDigits (by decide) (by decide) member)
      (Bool.eq_false_iff.mp other)
  have space := @digits ' ' (by decide)
  have sign := @digits '|' (by decide)
  unfold text IsWord
  split <;> simp [toList_label, space, sign]

/-- Without the spaces, the sign alone stands between the words. -/
theorem filter_join {words : List (List Char)} (clean : ∀ word ∈ words, IsWord word) :
    (" | ".toList.intercalate words).filter (· ≠ ' ') = ['|'].intercalate words := by
  have kept {word : List Char} (isWord : IsWord word) : word.filter (· ≠ ' ') = word :=
    List.filter_eq_self.mpr fun character member =>
      decide_eq_true fun space => isWord.2.1 (space ▸ member)
  induction words with
  | nil => rfl
  | cons word later inductionHypothesis =>
      rw [List.forall_mem_cons] at clean
      cases later with
      | nil => rw [List.intercalate_singleton, List.intercalate_singleton, kept clean.1]
      | cons next rest =>
          rw [List.intercalate_cons_cons, List.intercalate_cons_cons, List.filter_append,
            List.filter_append, kept clean.1, inductionHypothesis clean.2]
          rfl

/-- What stands between the signs are the words that were joined. -/
theorem splitOn_join {words : List (List Char)} (clean : ∀ word ∈ words, IsWord word) :
    (((" | ".toList.intercalate words).filter (· ≠ ' ')).splitOn '|').filter (· ≠ []) =
      words := by
  rw [filter_join clean]
  cases words with
  | nil => rfl
  | cons word later =>
      rw [List.splitOn_intercalate '|' (fun word member => (clean word member).2.2)
        (List.cons_ne_nil word later)]
      exact List.filter_eq_self.mpr fun word member => decide_eq_true (clean word member).1

/-- A disjunction can be read off its text. -/
theorem disjunctionText_injective : Function.Injective disjunctionText := by
  intro first second same
  have words (literals : List Literal) :
      ∀ word ∈ literals.map (String.toList ∘ text), IsWord word := by
    intro word member
    obtain ⟨literal, -, rfl⟩ := List.mem_map.mp member
    exact literal.isWord_text
  have characters := congrArg String.toList same
  rw [disjunctionText, disjunctionText, String.toList_intercalate, String.toList_intercalate,
    List.map_map, List.map_map] at characters
  have read := splitOn_join (words first)
  rw [characters, splitOn_join (words second)] at read
  have each : Function.Injective (String.toList ∘ text) :=
    fun _ _ same => text_injective (String.toList_injective same)
  exact (List.map_injective_iff.mpr each read).symm

end Literal

namespace Clause

/-- The literals that a clause says one of which is true: those of its negation, negated back. -/
def disjuncts (clause : Clause) : List Literal :=
  clause.positive.map (⟨·, true⟩) ++ clause.negative.map (⟨·, false⟩)

theorem disjunctionText_disjuncts (clause : Clause) :
    Literal.disjunctionText clause.disjuncts = clause.text := by
  unfold Literal.disjunctionText disjuncts text
  rw [List.map_append, List.map_map, List.map_map]
  rfl

/-- The text of a clause shows its literals and no others. -/
theorem disjunctionText_eq_text_iff (clause : Clause) (literals : List Literal) :
    Literal.disjunctionText literals = clause.text ↔ literals = clause.disjuncts := by
  rw [← disjunctionText_disjuncts]
  exact Literal.disjunctionText_injective.eq_iff

theorem literals_eq (clause : Clause) (valueOf : AtomId → ℝ) :
    clause.literals valueOf = clause.disjuncts.map (Literal.truth valueOf) := by
  unfold literals disjuncts
  rw [List.map_append, List.map_map, List.map_map]
  rfl

/-- The distance of a clause, by the values of its atoms. -/
theorem distance_disjuncts (clause : Clause) {valueOf : AtomId → ℝ}
    (inUnit : InUnitInterval valueOf) :
    Literal.distance clause.disjuncts valueOf =
      1 - min 1 ((clause.positive.map fun atom => 1 - valueOf atom).sum +
        (clause.negative.map valueOf).sum) := by
  unfold Literal.distance
  rw [← literals_eq, anyOf_eq (clause.literals_nonnegative inUnit), literals, List.sum_append]

end Clause

end HingeLoss
