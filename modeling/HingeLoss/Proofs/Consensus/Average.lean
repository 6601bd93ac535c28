import Mathlib.Algebra.BigOperators.Group.Finset.Piecewise
import HingeLoss.Consensus.Iteration
import HingeLoss.Proofs.Atom.Store
import HingeLoss.Proofs.Consensus.Local

/-! The clipped mean of the copies of an atom favours the prices over the whole unit interval. -/

namespace HingeLoss

theorem AtomId.ofIndex_index (atom : AtomId) : AtomId.ofIndex atom.index = atom :=
  AtomId.index_injective (AtomId.index_ofIndex atom.number.toNat_lt_size)

/-- The items of a place, summed into an array. -/
theorem getD_foldl_modify {γ M : Type} [AddCommMonoid M] (place : γ → Nat) (amount : γ → M)
    (items : List γ) (sums : Array M) {index : Nat} (inRange : index < sums.size) :
    (items.foldl (fun sums item => sums.modify (place item) (· + amount item)) sums).getD index 0 =
      sums.getD index 0 + ((items.filter fun item => place item = index).map amount).sum := by
  induction items generalizing sums with
  | nil => simp
  | cons item later inductionHypothesis =>
      rw [List.foldl_cons, inductionHypothesis _ (by rw [Array.size_modify]; exact inRange)]
      simp only [Array.getD_eq_getD_getElem?, Array.getElem?_modify,
        Array.getElem?_eq_getElem inRange, List.filter_cons]
      by_cases here : place item = index
      · simp [here, add_assoc]
      · simp [here]

/-- A sum over items is the sum over the places of what lies there. -/
theorem sum_eq_sum_places {γ : Type} (place : γ → Nat) (summand : γ → ℝ) {items : List γ}
    {size : Nat} (inRange : ∀ item ∈ items, place item < size) :
    (items.map summand).sum =
      ∑ index ∈ Finset.range size,
        ((items.filter fun item => place item = index).map summand).sum := by
  induction items with
  | nil => simp
  | cons item later inductionHypothesis =>
      have here := inRange item List.mem_cons_self
      rw [List.map_cons, List.sum_cons,
        inductionHypothesis fun other member => inRange other (List.mem_cons_of_mem _ member)]
      have split (index : Nat) :
          (((item :: later).filter fun item => place item = index).map summand).sum =
            (if place item = index then summand item else 0) +
              ((later.filter fun item => place item = index).map summand).sum := by
        by_cases same : place item = index <;> simp [same]
      simp only [split, Finset.sum_add_distrib, Finset.sum_ite_eq, Finset.mem_range, here, if_true]

/-- The nearest point of the unit interval separates it from the point. -/
theorem clamp_separates (mean : ℝ) {other : ℝ} (nonnegative : 0 ≤ other) (atMostOne : other ≤ 1) :
    (mean - max 0 (min 1 mean)) * (other - max 0 (min 1 mean)) ≤ 0 := by
  rcases le_total mean 0 with below | aboveZero
  · rw [min_eq_right (by linarith), max_eq_left below]
    exact mul_nonpos_of_nonpos_of_nonneg (by linarith) (by linarith)
  · rcases le_total mean 1 with belowOne | above
    · rw [min_eq_right belowOne, max_eq_right aboveZero, sub_self, zero_mul]
    · rw [min_eq_left above, max_eq_right zero_le_one]
      exact mul_nonpos_of_nonneg_of_nonpos (by linarith) (by linarith)

namespace ConsensusState

/-- The copies of a list of terms. -/
def copiesOf (terms : List (LocalTerm ℝ)) : List (Copy ℝ) := terms.flatMap LocalTerm.copies

/-- The copies of the atom of an index. -/
def copiesAt (terms : List (LocalTerm ℝ)) (index : Nat) : List (Copy ℝ) :=
  (copiesOf terms).filter fun copy => copy.atom.index = index

theorem getD_copySums (penalty : ℝ) {size index : Nat} (terms : List (LocalTerm ℝ))
    (inRange : index < size) :
    (copySums penalty size terms).getD index 0 =
      ((copiesAt terms index).map fun copy => copy.value + copy.price / penalty).sum := by
  have inside : index < (Array.replicate size (0 : ℝ)).size := by simpa using inRange
  have sums := getD_foldl_modify (fun copy : Copy ℝ => copy.atom.index)
    (fun copy => copy.value + copy.price / penalty) (copiesOf terms) _ inside
  rw [copiesOf, List.foldl_flatMap] at sums
  refine Eq.trans sums ?_
  simp [inRange, copiesAt, copiesOf]

theorem getD_copyCounts (state : ConsensusState ℝ) {index : Nat}
    (inRange : index < state.values.size) :
    state.copyCounts.getD index 0 = (copiesAt state.terms index).length := by
  have inside : index < (Array.replicate state.values.size 0).size := by simpa using inRange
  have sums := getD_foldl_modify (fun copy : Copy ℝ => copy.atom.index) (fun _ => 1)
    (copiesOf state.terms) _ inside
  rw [copiesOf, List.foldl_flatMap] at sums
  refine Eq.trans sums ?_
  simp [inRange, copiesAt, copiesOf]

theorem getD_average (penalty : ℝ) (counts : Array Nat) (terms : List (LocalTerm ℝ))
    (values : Array ℝ) {index : Nat} (inRange : index < values.size) :
    (average penalty counts terms values).getD index 0 =
      if counts.getD index 0 = 0 then values.getD index 0
      else max 0 (min 1 (((copiesAt terms index).map fun copy =>
        copy.value + copy.price / penalty).sum / counts.getD index 0)) := by
  unfold average
  rw [Array.getD_eq_getD_getElem?, Array.getElem?_mapIdx, Array.getElem?_eq_getElem inRange]
  simp only [Option.map_some, Option.getD_some, getD_copySums penalty terms inRange]
  cases counts.getD index 0 with
  | zero => simp [Array.getD_eq_getD_getElem?, Array.getElem?_eq_getElem inRange]
  | succ count => simpa using Scalar.clampUnit_eq _

theorem size_average (penalty : ℝ) (counts : Array Nat) (terms : List (LocalTerm ℝ))
    (values : Array ℝ) : (average penalty counts terms values).size = values.size :=
  Array.size_mapIdx

/-- Atoms without copies keep their values. -/
theorem getD_average_of_no_copies (penalty : ℝ) {counts : Array Nat} (terms : List (LocalTerm ℝ))
    (values : Array ℝ) {index : Nat} (none : counts.getD index 0 = 0) :
    (average penalty counts terms values).getD index 0 = values.getD index 0 := by
  by_cases inRange : index < values.size
  · rw [getD_average penalty counts terms values inRange, if_pos none]
  · have outside : ¬ index < (average penalty counts terms values).size := by
      rw [size_average]
      exact inRange
    rw [Array.getD_eq_getD_getElem?, Array.getElem?_eq_none (not_lt.mp outside),
      Array.getD_eq_getD_getElem?, Array.getElem?_eq_none (not_lt.mp inRange)]

/-- Values in the unit interval stay there. -/
theorem average_inUnit (penalty : ℝ) (counts : Array Nat) (terms : List (LocalTerm ℝ))
    {values : Array ℝ} (inUnit : ∀ index, 0 ≤ values.getD index 0 ∧ values.getD index 0 ≤ 1)
    (index : Nat) :
    0 ≤ (average penalty counts terms values).getD index 0 ∧
      (average penalty counts terms values).getD index 0 ≤ 1 := by
  by_cases none : counts.getD index 0 = 0
  · rw [getD_average_of_no_copies penalty terms values none]
    exact inUnit index
  · by_cases inRange : index < values.size
    · rw [getD_average penalty counts terms values inRange, if_neg none]
      exact ⟨le_max_left _ _, max_le zero_le_one (min_le_left _ _)⟩
    · have outside : (average penalty counts terms values).size ≤ index := by
        rw [size_average]
        exact not_lt.mp inRange
      rw [Array.getD_eq_getD_getElem?, Array.getElem?_eq_none outside]
      exact ⟨le_refl _, zero_le_one⟩

/-- The sum over the copies of one atom, which all have the same distance to go. -/
theorem sum_prices_at {penalty : ℝ} (positive : 0 < penalty) (terms : List (LocalTerm ℝ))
    (after : Array ℝ) (valueOf : AtomId → ℝ) (index : Nat) :
    ((copiesAt terms index).map fun copy =>
      (copy.price + penalty * (copy.value - valueAt after copy.atom)) *
        (valueOf copy.atom - valueAt after copy.atom)).sum =
      penalty * (valueOf (.ofIndex index) - after.getD index 0) *
        (((copiesAt terms index).map fun copy => copy.value + copy.price / penalty).sum -
          (copiesAt terms index).length * after.getD index 0) := by
  have summands : ((copiesAt terms index).map fun copy =>
      (copy.price + penalty * (copy.value - valueAt after copy.atom)) *
        (valueOf copy.atom - valueAt after copy.atom)) =
      (copiesAt terms index).map fun copy =>
        penalty * (valueOf (.ofIndex index) - after.getD index 0) *
          ((copy.value + copy.price / penalty) + -after.getD index 0) := by
    refine List.map_congr_left fun copy here => ?_
    obtain rfl : copy.atom.index = index := of_decide_eq_true (List.mem_filter.mp here).2
    rw [AtomId.ofIndex_index, valueAt]
    field_simp
    ring
  rw [summands, List.sum_map_mul_left, List.sum_map_add, List.map_const', List.sum_replicate,
    nsmul_eq_mul]
  ring

/-- With the prices of an iteration, no assignment of the unit interval has a higher sum of prices
times values over the copies than the new values of the atoms. -/
theorem average_optimal {penalty : ℝ} (positive : 0 < penalty) {counts : Array Nat}
    {terms : List (LocalTerm ℝ)} {values : Array ℝ}
    (inRange : ∀ copy ∈ copiesOf terms, copy.atom.index < values.size)
    (counted : ∀ index < values.size, counts.getD index 0 = (copiesAt terms index).length)
    {valueOf : AtomId → ℝ} (inUnit : ∀ atom, 0 ≤ valueOf atom ∧ valueOf atom ≤ 1) :
    let after := average penalty counts terms values
    ((copiesOf terms).map fun copy =>
      (copy.price + penalty * (copy.value - valueAt after copy.atom)) *
        (valueOf copy.atom - valueAt after copy.atom)).sum ≤ 0 := by
  intro after
  rw [sum_eq_sum_places (fun copy => copy.atom.index) _ inRange]
  refine Finset.sum_nonpos fun index member => ?_
  have inside := Finset.mem_range.mp member
  change ((copiesAt terms index).map _).sum ≤ 0
  rw [sum_prices_at positive]
  have value := getD_average penalty counts terms values inside
  rw [counted index inside] at value
  by_cases none : (copiesAt terms index).length = 0
  · rw [List.length_eq_zero_iff.mp none]
    simp
  · rw [if_neg none] at value
    have separated := clamp_separates (((copiesAt terms index).map fun copy =>
      copy.value + copy.price / penalty).sum / (copiesAt terms index).length)
      (inUnit (.ofIndex index)).1 (inUnit (.ofIndex index)).2
    rw [← value] at separated
    have several : (0 : ℝ) < (copiesAt terms index).length := by
      exact_mod_cast Nat.pos_of_ne_zero none
    have scaled := mul_nonpos_of_nonneg_of_nonpos (mul_pos positive several).le separated
    refine le_of_eq_of_le ?_ scaled
    change _ = penalty * _ * ((_ - after.getD index 0) * (_ - after.getD index 0))
    field_simp

end ConsensusState

end HingeLoss
