import Mathlib.Data.Nat.Log
import HingeLoss.Proofs.Atom.Partition

/-! No element of a forest is further from its root than the logarithm of the size of its set. -/

namespace HingeLoss

namespace Forest

/-- The number of steps from an element up to its root. -/
def depth (forest : Forest) (element : Nat) : Nat :=
  if forest.parent element = element then 0
  else forest.depth (forest.parent element) + 1
termination_by forest.totalWeight - forest.weight element
decreasing_by
  rename_i notRoot
  have rises : forest.weight element < forest.weight (forest.parent element) :=
    forest.weightRises element notRoot
  have bound := forest.weight_le_totalWeight (forest.parent element)
  omega

theorem depth_of_root {forest : Forest} {element : Nat}
    (isRoot : forest.parent element = element) : forest.depth element = 0 := by
  rw [depth, if_pos isRoot]

theorem depth_of_not_root {forest : Forest} {element : Nat}
    (notRoot : forest.parent element ≠ element) :
    forest.depth element = forest.depth (forest.parent element) + 1 := by
  rw [depth, if_neg notRoot]

theorem root_parent (forest : Forest) (element : Nat) :
    forest.root (forest.parent element) = forest.root element := by
  by_cases isRoot : forest.parent element = element
  · rw [isRoot]
  · exact (LeadsTo.above isRoot (forest.leadsTo_root _)).root_eq.symm

/-- As many steps as the depth says lead to the root. -/
theorem iterate_parent_depth (forest : Forest) (element : Nat) :
    forest.parent^[forest.depth element] element = forest.root element := by
  induction element using depth.induct forest with
  | case1 element isRoot =>
      rw [depth_of_root isRoot, root_of_parent isRoot]
      rfl
  | case2 element notRoot inductionHypothesis =>
      rw [depth_of_not_root notRoot, Function.iterate_succ_apply, inductionHypothesis, root_parent]

/-- Fewer steps lead to no root. -/
theorem depth_le_of_iterate {forest : Forest} {element steps : Nat}
    (isRoot : forest.parent (forest.parent^[steps] element) = forest.parent^[steps] element) :
    forest.depth element ≤ steps := by
  induction steps generalizing element with
  | zero => exact Nat.le_of_eq (depth_of_root isRoot)
  | succ steps inductionHypothesis =>
      have above := @inductionHypothesis (forest.parent element) isRoot
      by_cases same : forest.parent element = element
      · rw [depth_of_root same]
        exact Nat.zero_le _
      · rw [depth_of_not_root same]
        exact Nat.succ_le_succ above

/-- Only the parents count. -/
theorem depth_congr {forest other : Forest}
    (same : ∀ element, other.parent element = forest.parent element) (element : Nat) :
    other.depth element = forest.depth element := by
  induction element using depth.induct forest with
  | case1 element isRoot => rw [depth_of_root isRoot, depth_of_root ((same _).trans isRoot)]
  | case2 element notRoot inductionHypothesis =>
      have otherNotRoot : other.parent element ≠ element := by
        rw [same]
        exact notRoot
      rw [depth_of_not_root notRoot, depth_of_not_root otherNotRoot, same, inductionHypothesis]

/-- The parent's parent is no further from the root than the parent. -/
theorem depth_parent_le (forest : Forest) (element : Nat) :
    forest.depth (forest.parent element) ≤ forest.depth element := by
  by_cases isRoot : forest.parent element = element
  · rw [isRoot]
  · rw [depth_of_not_root isRoot]
    exact Nat.le_succ _

/-- No chain gets longer when an element skips its parent, whether it passes through the element or
not. -/
theorem depth_halve_le (forest : Forest) (halved element : Nat) :
    (forest.halve halved).depth element ≤ forest.depth element := by
  -- The skipped parent is two steps away, so the induction is over all shorter chains.
  induction long : forest.depth element using Nat.strong_induction_on generalizing element with
  | _ length inductionHypothesis =>
      subst long
      by_cases isRoot : forest.parent element = element
      · have stillRoot : (forest.halve halved).parent element = element := by
          rw [parent_halve]
          split
          · rename_i same
            rw [← same, isRoot, isRoot]
          · exact isRoot
        rw [depth_of_root stillRoot]
        exact Nat.zero_le _
      · have oneMore := depth_of_not_root isRoot
        have shorter (higher : Nat) (closer : forest.depth higher < forest.depth element) :
            (forest.halve halved).depth higher ≤ forest.depth higher :=
          inductionHypothesis _ closer higher rfl
        by_cases moved : (forest.halve halved).parent element = element
        · rw [depth_of_root moved]
          exact Nat.zero_le _
        · rw [depth_of_not_root moved, oneMore]
          apply Nat.succ_le_succ
          rw [parent_halve]
          split
          · rename_i same
            subst same
            have grandparent := forest.depth_parent_le (forest.parent element)
            exact (shorter _ (by omega)).trans grandparent
          · exact shorter _ (by omega)

/-- A walk makes no chain longer. -/
theorem depth_find_le (forest : Forest) (walked element : Nat) :
    (forest.find walked).2.depth element ≤ forest.depth element := by
  induction forest, walked using find.induct with
  | case1 forest walked isRoot => rw [find, if_pos isRoot]
  | case2 forest walked notRoot inductionHypothesis =>
      rw [find, if_neg notRoot]
      exact inductionHypothesis.trans (forest.depth_halve_le walked element)

section

variable (forest : Forest) {left right root child : Nat} (rootInRange : root < forest.nodes.size)
  (childInRange : child < forest.nodes.size) (rootIsRoot : forest.parent root = root)

/-- The elements under the child are one step further from their new root, and no others are. -/
theorem depth_attach (childIsRoot : forest.parent child = child) (different : root ≠ child)
    (element : Nat) :
    (forest.attach root child rootInRange childInRange rootIsRoot).depth element =
      forest.depth element + if forest.root element = child then 1 else 0 := by
  have parents := forest.parent_attach rootInRange childInRange rootIsRoot
  have topDepth : (forest.attach root child rootInRange childInRange rootIsRoot).depth root = 0 :=
    depth_of_root (by rw [parents, if_pos rfl])
  induction element using depth.induct forest with
  | case1 element isRoot =>
      rw [depth_of_root isRoot, root_of_parent isRoot, Nat.zero_add]
      by_cases same : element = child
      · subst same
        have moved := parents element
        rw [if_neg different.symm, if_pos rfl] at moved
        rw [if_pos rfl, depth_of_not_root (by rw [moved]; exact different), moved, topDepth]
      · rw [if_neg same]
        apply depth_of_root
        rw [parents, if_neg same, isRoot]
        split
        · rename_i here
          exact here.symm
        · rfl
  | case2 element notRoot inductionHypothesis =>
      have kept : (forest.attach root child rootInRange childInRange rootIsRoot).parent element =
          forest.parent element := by
        have notTop : element ≠ root := fun same => notRoot (same ▸ rootIsRoot)
        have notChild : element ≠ child := fun same => notRoot (same ▸ childIsRoot)
        rw [parents, if_neg notTop, if_neg notChild]
      rw [depth_of_not_root (kept ▸ notRoot), kept, inductionHypothesis, depth_of_not_root notRoot,
        root_parent]
      exact Nat.add_right_comm _ _ _

variable (leftIsRoot : forest.parent left = left) (rightIsRoot : forest.parent right = right)

/-- The chains of the set whose root does not stay get longer by one. -/
theorem depth_link (leftInRange : left < forest.size) (rightInRange : right < forest.size)
    (element : Nat) :
    (forest.link left right leftIsRoot rightIsRoot).2.depth element = forest.depth element +
      if left ≠ right ∧ (forest.root element = left ∨ forest.root element = right) ∧
          forest.root element ≠ (forest.link left right leftIsRoot rightIsRoot).1 then 1
      else 0 := by
  unfold link
  by_cases same : left = right
  · simp [same]
  · have inRange : left < forest.nodes.size ∧ right < forest.nodes.size :=
      ⟨leftInRange, rightInRange⟩
    rw [if_neg same, dif_pos inRange]
    split
    · rw [depth_attach forest _ _ _ rightIsRoot same]
      grind
    · rw [depth_attach forest _ _ _ leftIsRoot (Ne.symm same)]
      grind

end

/-- A union of two sets makes the chains of one set longer, by one at most: of the set whose root
it does not answer with. -/
theorem depth_union_le (forest : Forest) {first second : Nat} (firstInRange : first < forest.size)
    (secondInRange : second < forest.size) (element : Nat) :
    (forest.union first second).2.depth element ≤ forest.depth element +
      if forest.root first ≠ forest.root second ∧
          (forest.root element = forest.root first ∨ forest.root element = forest.root second) ∧
          forest.root element ≠ (forest.union first second).1 then 1
      else 0 := by
  have rightRoot : ((forest.find first).2.find second).1 = forest.root second :=
    root_find forest first second
  have leftInRange : (forest.find first).1 < ((forest.find first).2.find second).2.size := by
    rw [size_find, size_find]
    exact forest.root_lt_size firstInRange
  have rightInRange :
      ((forest.find first).2.find second).1 < ((forest.find first).2.find second).2.size := by
    rw [size_find, size_find, rightRoot]
    exact forest.root_lt_size secondInRange
  have walked : ((forest.find first).2.find second).2.depth element ≤ forest.depth element :=
    (depth_find_le _ _ _).trans (forest.depth_find_le first element)
  have linked := depth_link _ (forest.parent_first first second)
    ((forest.find first).2.parent_find second) leftInRange rightInRange element
  rw [root_find, root_find] at linked
  rw [← rightRoot]
  exact linked.trans_le (Nat.add_le_add_right walked _)

/-- A set has at least twice as many members for every step that one of them is away from its root.
-/
def Shallow (forest : Forest) : Prop :=
  ∀ element, element < forest.size →
    2 ^ forest.depth element ≤ (forest.count (forest.root element)).toNat

variable {forest : Forest} {unions : List (Nat × Nat)}

theorem shallow_singletons {count : Nat} (fits : count < UInt32.size) :
    (singletons count).Shallow := by
  intro element inRange
  rw [size_singletons] at inRange
  have isRoot := parent_singletons count (Nat.lt_trans inRange fits)
  rw [depth_of_root isRoot, root_of_parent isRoot, count_singletons inRange]
  exact Nat.le_refl _

theorem depth_push (forest : Forest) (room : forest.size < UInt32.size) (element : Nat) :
    forest.push.depth element = forest.depth element := by
  refine depth_congr (fun other => ?_) element
  by_cases word : other < UInt32.size
  · exact forest.parent_push word
  · rw [parent_of_outside, parent_of_outside]
    · omega
    · rw [size_push]
      omega

theorem Shallow.push (shallow : forest.Shallow) (room : forest.size < UInt32.size) :
    forest.push.Shallow := by
  intro element inRange
  rw [size_push] at inRange
  rw [forest.depth_push room, forest.root_push_of_room room, count_push]
  rcases Nat.lt_succ_iff_lt_or_eq.mp inRange with old | rfl
  · rw [if_neg (Nat.ne_of_lt (forest.root_lt_size old))]
    exact shallow element old
  · have isRoot := forest.parent_of_outside (Nat.lt_irrefl forest.size)
    rw [depth_of_root isRoot, root_of_parent isRoot, if_pos rfl]
    exact Nat.le_refl _

theorem Shallow.find (shallow : forest.Shallow) (walked : Nat) :
    (forest.find walked).2.Shallow := by
  intro element inRange
  rw [size_find] at inRange
  rw [root_find, count_find]
  exact (Nat.pow_le_pow_right (by decide) (forest.depth_find_le walked element)).trans
    (shallow element inRange)

/-- The members of the smaller set are one step further away and in a set of twice the size. -/
theorem Shallow.union (shallow : forest.Shallow) (reflects : forest.Reflects unions)
    (fits : forest.size < UInt32.size) {first second : Nat} (firstInRange : first < forest.size)
    (secondInRange : second < forest.size) : (forest.union first second).2.Shallow := by
  intro element inRange
  rw [size_union] at inRange
  obtain ⟨-, roots⟩ := forest.root_union first second firstInRange secondInRange
  obtain ⟨answer, counts⟩ := forest.count_union firstInRange secondInRange
  have before := shallow element inRange
  have deeper := forest.depth_union_le firstInRange secondInRange element
  rw [roots element, counts]
  by_cases apart : forest.root first ≠ forest.root second ∧
      (forest.root element = forest.root first ∨ forest.root element = forest.root second)
  · obtain ⟨different, joined⟩ := apart
    obtain ⟨sum, -⟩ := reflects.count_add fits firstInRange secondInRange different
    rw [if_pos joined, if_pos ⟨different, rfl⟩, sum]
    by_cases moved : forest.root element ≠ (forest.union first second).1
    · rw [if_pos ⟨different, joined, moved⟩] at deeper
      have doubled : 2 * (forest.count (forest.root element)).toNat ≤
          (forest.count (forest.root first)).toNat +
            (forest.count (forest.root second)).toNat := by
        have larger := @UInt32.le_iff_toNat_le (forest.count (forest.root second))
          (forest.count (forest.root first))
        grind
      calc 2 ^ (forest.union first second).2.depth element
          ≤ 2 ^ (forest.depth element + 1) := Nat.pow_le_pow_right (by decide) deeper
        _ = 2 * 2 ^ forest.depth element := Nat.pow_succ'
        _ ≤ 2 * (forest.count (forest.root element)).toNat := Nat.mul_le_mul_left 2 before
        _ ≤ _ := doubled
    · rw [if_neg fun all => moved all.2.2, Nat.add_zero] at deeper
      have whole : (forest.count (forest.root element)).toNat ≤
          (forest.count (forest.root first)).toNat +
            (forest.count (forest.root second)).toNat := by
        grind
      exact (Nat.pow_le_pow_right (by decide) deeper).trans (before.trans whole)
  · rw [if_neg fun all => apart ⟨all.1, all.2.1⟩, Nat.add_zero] at deeper
    have same : (if forest.root element = forest.root first ∨
        forest.root element = forest.root second then (forest.union first second).1
        else forest.root element) = forest.root element := by
      grind
    rw [same, if_neg ?_]
    · exact (Nat.pow_le_pow_right (by decide) deeper).trans before
    · grind

/-- Every call keeps the forest shallow. -/
theorem Grown.shallow (grown : Grown forest unions) : forest.Shallow := by
  induction grown with
  | ofCount fits => exact ofCount_eq fits ▸ shallow_singletons fits
  | push grown _ inductionHypothesis => exact inductionHypothesis.push grown.fits
  | find _ _ inductionHypothesis => exact inductionHypothesis.find _
  | union grown firstInRange secondInRange inductionHypothesis =>
      exact inductionHypothesis.union grown.reflects grown.fits firstInRange secondInRange
  | setSize _ _ inductionHypothesis => exact inductionHypothesis.find _
  | reset grown _ => exact shallow_singletons grown.fits

/-- The smaller one of the sets of two elements, the second one on a tie. -/
def smallerSet (unions : List (Nat × Nat)) (first second : Nat) : Set Nat :=
  if (linkedTo unions second).ncard ≤ (linkedTo unions first).ncard then linkedTo unions second
  else linkedTo unions first

/-- The steps from an element to its root are at most the logarithm of the size of its set, and a
union lengthens only chains of the smaller set, by one at most. -/
theorem chains_stay_short (grown : Grown forest unions) :
    (∀ element, element < forest.size →
      forest.parent^[forest.depth element] element = (forest.find element).1 ∧
        (∀ steps, forest.parent^[steps] element = (forest.find element).1 →
          forest.depth element ≤ steps) ∧
        (forest.setSize element).1 = (linkedTo unions element).ncard ∧
        2 ^ forest.depth element ≤ (forest.setSize element).1 ∧
        forest.depth element ≤ Nat.log 2 (forest.setSize element).1) ∧
    (∀ walked other, (forest.find walked).2.depth other ≤ forest.depth other ∧
      (forest.setSize walked).2.depth other ≤ forest.depth other) ∧
    ∀ first second, first < forest.size → second < forest.size → ∀ other,
      (forest.union first second).2.depth other ≤ forest.depth other + 1 ∧
        (other ∉ smallerSet unions first second ∨ second ∈ linkedTo unions first →
          (forest.union first second).2.depth other ≤ forest.depth other) := by
  have reflects := grown.reflects
  refine ⟨fun element inRange => ?_,
    fun walked other => ⟨forest.depth_find_le walked other, forest.depth_find_le walked other⟩,
    fun first second firstInRange secondInRange other => ?_⟩
  · have size : (forest.setSize element).1 = (forest.count (forest.root element)).toNat :=
      congrArg UInt32.toNat (forest.count_find element _)
    have short := size ▸ grown.shallow element inRange
    refine ⟨forest.iterate_parent_depth element, fun steps reached => ?_,
      size.trans (reflects.count_root inRange), short, Nat.le_log_of_pow_le (by decide) short⟩
    apply depth_le_of_iterate
    rw [reached]
    exact forest.parent_root element
  · have deeper := forest.depth_union_le firstInRange secondInRange other
    have answer := reflects.union_answer firstInRange secondInRange
    refine ⟨deeper.trans (Nat.add_le_add_left (by split <;> decide) _), fun spared => ?_⟩
    rw [if_neg ?_, Nat.add_zero] at deeper
    · exact deeper
    · rintro ⟨different, joined, moved⟩
      rcases spared with larger | together
      · rw [answer] at moved
        rw [smallerSet] at larger
        split at larger
        · rename_i heavier
          rw [if_pos heavier] at moved
          exact larger ((reflects.linked _ _).mp (joined.resolve_left moved).symm)
        · rename_i lighter
          rw [if_neg lighter] at moved
          exact larger ((reflects.linked _ _).mp (joined.resolve_right moved).symm)
      · exact different ((reflects.linked _ _).mpr together)

/-- Two pairs become one set of four, whose last element is two steps from its root. A walk from
there halves the chain, and a union with a single element leaves it. -/
theorem chains_stay_short_sample :
    let forest := ((((ofCount 5).union 0 1).2.union 2 3).2.union 0 2).2
    Grown forest [(0, 2), (2, 3), (0, 1)] ∧ forest.depth 3 = 2 ∧
      2 ^ forest.depth 3 ≤ (forest.setSize 3).1 ∧ forest.depth 3 ≤ Nat.log 2 4 ∧
      (forest.find 3).2.depth 3 = 1 ∧ (forest.find 3).2.depth 3 ≤ forest.depth 3 ∧
      (forest.union 4 3).2.depth 4 ≤ forest.depth 4 + 1 := by
  intro forest
  have grown : Grown forest [(0, 2), (2, 3), (0, 1)] :=
    (((@Grown.ofCount 5 (by decide)).union (by decide) (by decide)).union (by decide +kernel)
      (by decide +kernel)).union (by decide +kernel) (by decide +kernel)
  have size : forest.size = 5 := by decide +kernel
  have four : (forest.setSize 3).1 = 4 := by decide +kernel
  obtain ⟨short, walks, unions⟩ := chains_stay_short grown
  obtain ⟨-, -, -, bound, logarithm⟩ := short 3 (by omega)
  exact ⟨grown, by decide +kernel, bound, four ▸ logarithm, by decide +kernel, (walks 3 3).1,
    (unions 4 3 (by omega) (by omega) 4).1⟩

end Forest

end HingeLoss
