import HingeLoss.Proofs.Consensus.Iteration

/-! The energy of a state, its distance to a saddle point, falls in every iteration. -/

namespace HingeLoss

namespace LocalTerm

/-- All copies take the values of their atoms. -/
def settle (valueOf : AtomId → ℝ) (term : LocalTerm ℝ) : LocalTerm ℝ :=
  { term with copies := term.copies.map fun copy => { copy with value := valueOf copy.atom } }

theorem copies_settle (valueOf : AtomId → ℝ) (term : LocalTerm ℝ) :
    (term.settle valueOf).copies =
      term.copies.map fun copy => { copy with value := valueOf copy.atom } := rfl

theorem rawAt_settle (valueOf : AtomId → ℝ) (term : LocalTerm ℝ) :
    (term.settle valueOf).rawAt Copy.value = term.rawAt fun copy => valueOf copy.atom := by
  rw [rawAt_eq, rawAt_eq, copies_settle, List.map_map]
  rfl

end LocalTerm

namespace ConsensusState

/-- The copies of a list of terms under the number of the term and the place in it. -/
def slots (terms : List (LocalTerm ℝ)) : List ((Nat × Nat) × Copy ℝ) :=
  terms.zipIdx.flatMap fun entry => entry.1.copies.zipIdx.map fun place =>
    ((entry.2, place.2), place.1)

theorem map_snd_slots (terms : List (LocalTerm ℝ)) :
    (slots terms).map Prod.snd = copiesOf terms := by
  have places (copies : List (Copy ℝ)) (number : Nat) :
      (copies.zipIdx.map fun place => ((number, place.2), place.1)).map Prod.snd = copies := by
    rw [List.map_map]
    exact List.zipIdx_map_fst 0 copies
  simp only [slots, List.map_flatMap, places]
  rw [← List.flatMap_map, List.zipIdx_map_fst]
  rfl

/-- A sum over slots that reads the copies alone is a sum over copies. -/
theorem sum_slots (terms : List (LocalTerm ℝ)) (summand : Copy ℝ → ℝ) :
    ((copiesOf terms).map summand).sum =
      ((slots terms).map fun slot => summand slot.2).sum := by
  rw [← map_snd_slots, List.map_map]
  rfl

/-- Slots stay where they are when copies change. -/
theorem map_slots_map {β : Type} (terms : List (LocalTerm ℝ))
    {change : LocalTerm ℝ → LocalTerm ℝ} {changeCopy : LocalTerm ℝ → Copy ℝ → Copy ℝ}
    (copies : ∀ term, (change term).copies = term.copies.map (changeCopy term))
    {after before : (Nat × Nat) × Copy ℝ → β}
    (same : ∀ term place copy, after (place, changeCopy term copy) = before (place, copy)) :
    (slots (terms.map change)).map after = (slots terms).map before := by
  simp only [slots, List.zipIdx_map, List.flatMap_map, List.map_flatMap, Prod.map_fst,
    Prod.map_snd, copies, List.map_map, id_eq]
  congr 1
  funext entry
  refine List.map_congr_left fun place _ => ?_
  exact same entry.1 _ place.1

/-- The costs of the copies with the prices of their distances from the atoms. -/
noncomputable def lagrangian (prices : Nat × Nat → ℝ) (point : ConsensusState ℝ) : ℝ :=
  (point.terms.map LocalTerm.ownCost).sum + ((slots point.terms).map fun slot =>
    prices slot.1 * (slot.2.value - valueAt point.values slot.2.atom)).sum

/-- A point at which every copy and every atom takes the value of the atom. -/
noncomputable def settledAt (problem : List (LocalTerm ℝ)) (valueOf : AtomId → ℝ) :
    ConsensusState ℝ where
  terms := problem.map (LocalTerm.settle valueOf)
  values := Array.ofFn fun index : Fin UInt32.size => valueOf (.ofIndex index)

theorem valueAt_settledAt (problem : List (LocalTerm ℝ)) (valueOf : AtomId → ℝ) (atom : AtomId) :
    valueAt (settledAt problem valueOf).values atom = valueOf atom := by
  have named : atom.index < UInt32.size := atom.number.toNat_lt_size
  rw [valueAt, settledAt, Array.getD_eq_getD_getElem?, Array.getElem?_ofFn, dif_pos named,
    Option.getD_some, AtomId.ofIndex_index]

/-- Where copies and atoms agree, the Lagrangian is the sum of the costs under all prices. -/
theorem lagrangian_settledAt (prices : Nat × Nat → ℝ) (problem : List (LocalTerm ℝ))
    (valueOf : AtomId → ℝ) :
    lagrangian prices (settledAt problem valueOf) =
      (problem.map fun term => term.costAt valueOf).sum := by
  have priced : ((slots (settledAt problem valueOf).terms).map fun slot =>
      prices slot.1 *
        (slot.2.value - valueAt (settledAt problem valueOf).values slot.2.atom)) =
      (slots problem).map fun _ => 0 :=
    map_slots_map problem (LocalTerm.copies_settle valueOf) fun term place copy => by
      rw [valueAt_settledAt, sub_self, mul_zero]
  rw [lagrangian, priced, List.sum_map_zero, add_zero, settledAt, List.map_map]
  congr 1
  refine List.map_congr_left fun term _ => ?_
  rw [Function.comp_apply, LocalTerm.ownCost, LocalTerm.rawAt_settle]
  rfl

/-- Values of the atoms that satisfy every constraint, and prices under which no admissible point
has a smaller Lagrangian. -/
structure SaddlePoint (problem : List (LocalTerm ℝ)) (star : AtomId → ℝ)
    (prices : Nat × Nat → ℝ) : Prop where
  inUnit : ∀ atom, 0 ≤ star atom ∧ star atom ≤ 1
  admitted : ∀ term ∈ problem, term.AdmitsAt star
  minimal : ∀ point : ConsensusState ℝ, frames point.terms = frames problem →
    (∀ atom, 0 ≤ valueAt point.values atom ∧ valueAt point.values atom ≤ 1) →
    (∀ term ∈ point.terms, term.Holds) →
    lagrangian prices (settledAt problem star) ≤ lagrangian prices point

/-- The values of a saddle point cost least among all that satisfy every constraint. -/
theorem SaddlePoint.optimal {problem : List (LocalTerm ℝ)} {star valueOf : AtomId → ℝ}
    {prices : Nat × Nat → ℝ} (saddle : SaddlePoint problem star prices)
    (inUnit : ∀ atom, 0 ≤ valueOf atom ∧ valueOf atom ≤ 1)
    (admitted : ∀ term ∈ problem, term.AdmitsAt valueOf) :
    (problem.map fun term => term.costAt star).sum ≤
      (problem.map fun term => term.costAt valueOf).sum := by
  have minimal := saddle.minimal (settledAt problem valueOf)
    (frames_map fun term => term.frame_with_copies fun _ => ⟨rfl, rfl⟩)
    (fun atom => by rw [valueAt_settledAt]; exact inUnit atom) ?_
  · rwa [lagrangian_settledAt, lagrangian_settledAt] at minimal
  · intro term member
    obtain ⟨origin, originMember, rfl⟩ := List.mem_map.mp member
    rw [LocalTerm.Holds, LocalTerm.rawAt_settle]
    exact admitted origin originMember

/-- The distance to a saddle point, in values times the penalty and in prices over it. -/
noncomputable def energy (penalty : ℝ) (star : AtomId → ℝ) (prices : Nat × Nat → ℝ)
    (state : ConsensusState ℝ) : ℝ :=
  penalty * ((slots state.terms).map fun slot =>
      (valueAt state.values slot.2.atom - star slot.2.atom) ^ 2).sum +
    1 / penalty * ((slots state.terms).map fun slot => (slot.2.price - prices slot.1) ^ 2).sum

/-- The squares of what is left between copies and atoms. -/
noncomputable def disagreement (state : ConsensusState ℝ) : ℝ :=
  (state.copies.map fun copy => (copy.value - valueAt state.values copy.atom) ^ 2).sum

/-- The squares of what the atoms have moved, once per copy. -/
noncomputable def movement (before : Array ℝ) (state : ConsensusState ℝ) : ℝ :=
  (state.copies.map fun copy =>
    (valueAt state.values copy.atom - valueAt before copy.atom) ^ 2).sum

variable {plan : Plan ℝ ℝ} {begun state : ConsensusState ℝ} {star : AtomId → ℝ}
  {prices : Nat × Nat → ℝ}

/-- A sum over the copies before an iteration, read off the copies after it. -/
theorem map_slots_before (plan : Plan ℝ ℝ) (state : ConsensusState ℝ)
    (summand : (Nat × Nat) → AtomId → ℝ → ℝ) :
    let next := (iterate plan state).1
    ((slots state.terms).map fun slot => summand slot.1 slot.2.atom slot.2.price) =
      (slots next.terms).map fun slot => summand slot.1 slot.2.atom
        (slot.2.price - plan.penalty * (slot.2.value - valueAt next.values slot.2.atom)) := by
  intro next
  have terms : next.terms =
      state.terms.map (LocalTerm.update state.values next.values plan.penalty) :=
    terms_iterate plan state
  rw [terms]
  refine (map_slots_map state.terms (LocalTerm.copies_update _ _ _) fun term place copy => ?_).symm
  simp only [LocalTerm.updateCopy, add_sub_cancel_right]

/-- The fall of the energy as a sum of what the terms, the saddle point and the atoms contribute. -/
theorem sum_descent {γ : Type} {penalty : ℝ} (positive : 0 < penalty) (items : List γ)
    (value before after target price multiplier : γ → ℝ) :
    penalty * (items.map fun item => (after item - target item) ^ 2).sum +
        1 / penalty * (items.map fun item => (price item - multiplier item) ^ 2).sum +
        penalty * ((items.map fun item => (value item - after item) ^ 2).sum +
          (items.map fun item => (after item - before item) ^ 2).sum) =
      penalty * (items.map fun item => (before item - target item) ^ 2).sum +
        1 / penalty * (items.map fun item =>
          (price item - penalty * (value item - after item) - multiplier item) ^ 2).sum +
        2 * ((items.map fun item =>
            (penalty * (before item - after item) - price item) * (target item - value item)).sum -
          (items.map fun item => multiplier item * (value item - after item)).sum +
          (items.map fun item => price item * (target item - after item)).sum +
          (items.map fun item => price item * (before item - after item)).sum +
          (items.map fun item => (price item - penalty * (value item - after item)) *
            (after item - before item)).sum) := by
  induction items with
  | nil => simp
  | cons item later inductionHypothesis =>
      have here : 1 / penalty * (price item - multiplier item) ^ 2 =
          1 / penalty * (price item - penalty * (value item - after item) - multiplier item) ^ 2 +
            2 * (value item - after item) * (price item - multiplier item) -
            penalty * (value item - after item) ^ 2 := by
        field_simp
        ring
      simp only [List.map_cons, List.sum_cons]
      linear_combination inductionHypothesis + here

/-- An iteration lowers the energy by the penalty times the disagreement and the movement. -/
theorem Regular.energy_iterate (regular : Regular plan begun state) (initial : Initial plan begun)
    (positive : 0 < plan.penalty) (saddle : SaddlePoint begun.terms star prices) :
    let next := (ConsensusState.iterate plan state).1
    energy plan.penalty star prices next +
        plan.penalty * (disagreement next + movement state.values next) ≤
      energy plan.penalty star prices state := by
  intro next
  have nextRegular : Regular plan begun next := regular.iterate initial positive
  obtain ⟨holds, supports⟩ := regular.iterate_supports initial positive saddle.admitted
  have minimal := saddle.minimal next nextRegular.frames (fun atom => nextRegular.inUnit _) holds
  have towardsStar := nextRegular.favoured star saddle.inUnit
  have backwards := nextRegular.favoured (valueAt state.values) fun atom => regular.inUnit _
  have forwards := regular.favoured (valueAt next.values) fun atom => nextRegular.inUnit _
  rw [lagrangian_settledAt, lagrangian] at minimal
  change (next.terms.map LocalTerm.ownCost).sum + ((copiesOf next.terms).map _).sum ≤ _ at supports
  rw [sum_slots] at supports towardsStar backwards forwards
  rw [map_slots_before plan state fun _ atom price =>
    price * (valueAt next.values atom - valueAt state.values atom)] at forwards
  have valuesBefore := map_slots_before plan state fun _ atom _ =>
    (valueAt state.values atom - star atom) ^ 2
  have pricesBefore := map_slots_before plan state fun slot _ price => (price - prices slot) ^ 2
  simp only [energy, disagreement, movement]
  rw [valuesBefore, pricesBefore]
  change _ + plan.penalty * (((copiesOf next.terms).map _).sum +
    ((copiesOf next.terms).map _).sum) ≤ _
  rw [sum_slots, sum_slots]
  have descent := sum_descent positive (slots next.terms) (fun slot => slot.2.value)
    (fun slot => valueAt state.values slot.2.atom) (fun slot => valueAt next.values slot.2.atom)
    (fun slot => star slot.2.atom) (fun slot => slot.2.price) fun slot => prices slot.1
  rw [descent]
  linarith [supports, minimal, towardsStar, backwards, forwards]

end ConsensusState

end HingeLoss
