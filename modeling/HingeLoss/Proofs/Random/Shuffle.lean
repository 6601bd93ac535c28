import HingeLoss.Random.Shuffle

/-! A look at all items in a drawn order permutes them, and one seed swaps two items. -/

namespace HingeLoss

theorem filterMap_getElem?_range {α : Type} (items : List α) :
    (List.range items.length).filterMap (items[·]?) = items := by
  induction items with
  | nil => rfl
  | cons first rest inductionHypothesis =>
      rw [List.length_cons, List.range_succ_eq_map, List.filterMap_cons, List.filterMap_map]
      simpa [Function.comp_def] using inductionHypothesis

/-- Items that are looked up in a drawn order of their positions are permuted. -/
theorem filterMap_getElem?_perm {α : Type} {items : List α} {positions : List Nat}
    (drawn : positions.Perm (List.range items.length)) :
    (positions.filterMap (items[·]?)).Perm items :=
  (drawn.filterMap _).trans (.of_eq (filterMap_getElem?_range items))

namespace Generator

/-- The first word that a key gives. -/
theorem next_ofKey (key : Vector UInt32 8) : (ofKey key).next.1 =
    (Nat.repeat doubleRound 6 (initialBlock key 0)).get 0 + (initialBlock key 0).get 0 :=
  Vector.getElem_zipWith _

/-- One draw decides on the order of two items, unless its word is rejected. -/
theorem shuffle_pair {α : Type} (generator : Generator) (first second : α)
    (accepted : (generator.next.1.toUInt64 * 2).toUInt32 ≤ zone 2) :
    (generator.shuffle #[first, second]).1 =
      #[first, second].swapIfInBounds 1 (generator.next.1.toNat * 2 / UInt32.size) := by
  have drawn : (generator.below 2).1 = generator.next.1.toNat * 2 / UInt32.size := by
    rw [below, draw]
    exact congrArg Prod.fst (if_pos accepted)
  rw [← drawn]
  rfl

/-- The first word of this seed swaps two items. -/
theorem shuffle_pair_ofSeed_two :
    ((Generator.ofSeed 2).shuffle (Array.range 2)).1 = #[1, 0] := by
  have word : (Generator.ofSeed 2).next.1 = 348700191 := by
    rw [ofSeed, next_ofKey]
    decide +kernel
  have accepted : ((Generator.ofSeed 2).next.1.toUInt64 * 2).toUInt32 ≤ zone 2 := by
    rw [word]
    decide
  refine (shuffle_pair (Generator.ofSeed 2) 0 1 accepted).trans ?_
  rw [word]
  rfl

end Generator

end HingeLoss
