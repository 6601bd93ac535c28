import HingeLoss.Random.ChaCha

/-! Uniform draws below a bound, and the shuffle built from them. -/

namespace HingeLoss

namespace Generator

/-- Words up to this one are accepted, which leaves the same number of words for every result. -/
def zone (bound : UInt32) : UInt32 :=
  (bound <<< (31 - bound.toNat.log2).toUInt32) - 1

/-- A draw below a positive bound by multiplication. A product whose low word is above the zone is
rejected, and the last attempt is always accepted. -/
def draw (bound : UInt32) : Nat → Generator → Nat × Generator
  | 0, generator =>
      let (word, generator) := generator.next
      (word.toNat * bound.toNat / UInt32.size, generator)
  | attempts + 1, generator =>
      let (word, generator) := generator.next
      let product := word.toUInt64 * bound.toUInt64
      if product.toUInt32 ≤ zone bound then (word.toNat * bound.toNat / UInt32.size, generator)
      else draw bound attempts generator

/-- Each attempt is rejected with a probability of at most one half. -/
def below (bound : Nat) (generator : Generator) : Nat × Generator :=
  generator.draw bound.toUInt32 1024

/-- The positions below the count are swapped from the last one down. -/
def shuffleBelow {α : Type} : Nat → Array α → Generator → Array α × Generator
  | 0, items, generator => (items, generator)
  | 1, items, generator => (items, generator)
  | count + 2, items, generator =>
      let (chosen, generator) := generator.below (count + 2)
      shuffleBelow (count + 1) (items.swapIfInBounds (count + 1) chosen) generator

/-- The items in a drawn order, and the state after the draws. -/
def shuffle {α : Type} (generator : Generator) (items : Array α) : Array α × Generator :=
  shuffleBelow items.size items generator

theorem swapIfInBounds_perm {α : Type} (items : Array α) (first second : Nat) :
    (items.swapIfInBounds first second).Perm items := by
  unfold Array.swapIfInBounds
  split
  · split
    · exact Array.swap_perm _ _
    · exact .refl items
  · exact .refl items

theorem shuffleBelow_perm {α : Type} (count : Nat) (items : Array α) (generator : Generator) :
    (shuffleBelow count items generator).1.Perm items := by
  fun_induction shuffleBelow count items generator with
  | case1 items generator => exact .refl items
  | case2 items generator => exact .refl items
  | case3 count items generator chosen drawn drawing inductionHypothesis =>
      exact inductionHypothesis.trans (swapIfInBounds_perm items (count + 1) chosen)

theorem shuffle_perm {α : Type} (generator : Generator) (items : Array α) :
    (generator.shuffle items).1.Perm items :=
  shuffleBelow_perm items.size items generator

end Generator

/-- A seeded shuffle: what a seed begins with, and how numbers are permuted from there on. -/
structure Shuffle where
  start : UInt64 → Generator
  run : Generator → Array Nat → Array Nat × Generator
  run_perm : ∀ generator items, (run generator items).1.Perm items

/-- The shuffle that draws with twelve rounds. -/
def Shuffle.chaCha : Shuffle where
  start := .ofSeed
  run := Generator.shuffle
  run_perm := Generator.shuffle_perm

end HingeLoss
