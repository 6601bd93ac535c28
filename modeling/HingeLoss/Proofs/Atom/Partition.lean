import Mathlib.Data.Set.Card
import Mathlib.Logic.Relation
import HingeLoss.Proofs.Atom.Forest

/-! A forest computes the equivalence that its unions generate, and the sizes of its classes. -/

namespace HingeLoss

namespace Forest

/-- A walk from an element to a root, parent by parent, where each parent that is read is there. The
path is halved on the way. -/
inductive Walk : Array ForestNode → Nat → Nat → Array ForestNode → Prop where
  | stay {nodes : Array ForestNode} {root : Nat} {node : ForestNode}
      (read : nodes[root]? = some node) (isRoot : node.parent.toNat = root) :
      Walk nodes root root nodes
  | climb {nodes after : Array ForestNode} {element root : Nat} {node above : ForestNode}
      (read : nodes[element]? = some node) (notRoot : node.parent.toNat ≠ element)
      (readAbove : nodes[node.parent.toNat]? = some above)
      (rest : Walk (nodes.setIfInBounds element { node with parent := above.parent })
        above.parent.toNat root after) : Walk nodes element root after

/-- The forests that calls on their own elements lead to, with the unions since the last reset. A
word can count all elements of a forest. -/
inductive Grown : Forest → List (Nat × Nat) → Prop where
  | ofCount {count : Nat} (fits : count < UInt32.size) : Grown (ofCount count) []
  | push {forest : Forest} {unions : List (Nat × Nat)} (grown : Grown forest unions)
      (room : forest.size + 1 < UInt32.size) : Grown forest.push unions
  | find {forest : Forest} {unions : List (Nat × Nat)} {element : Nat}
      (grown : Grown forest unions) (inRange : element < forest.size) :
      Grown (forest.find element).2 unions
  | union {forest : Forest} {unions : List (Nat × Nat)} {first second : Nat}
      (grown : Grown forest unions) (firstInRange : first < forest.size)
      (secondInRange : second < forest.size) :
      Grown (forest.union first second).2 ((first, second) :: unions)
  | setSize {forest : Forest} {unions : List (Nat × Nat)} {element : Nat}
      (grown : Grown forest unions) (inRange : element < forest.size) :
      Grown (forest.setSize element).2 unions
  | reset {forest : Forest} {unions : List (Nat × Nat)} (grown : Grown forest unions) :
      Grown forest.reset []

/-- The elements that a chain of unions links to an element, and the element itself. -/
def linkedTo (unions : List (Nat × Nat)) (element : Nat) : Set Nat :=
  { other | Relation.EqvGen (fun first second => (first, second) ∈ unions) element other }

/-- The elements under the root of an element. -/
def members (forest : Forest) (element : Nat) : Finset Nat :=
  (Finset.range forest.size).filter fun other => forest.root other = forest.root element

theorem mem_members (forest : Forest) (element other : Nat) :
    other ∈ forest.members element ↔
      other < forest.size ∧ forest.root other = forest.root element := by
  rw [members, Finset.mem_filter, Finset.mem_range]

/-- Sets with the same elements under the same roots have the same members. -/
theorem members_congr {forest other : Forest} (size : other.size = forest.size)
    (roots : ∀ element, other.root element = forest.root element) (element : Nat) :
    other.members element = forest.members element := by
  simp only [members, size, roots]

/-- The node of an element that is there holds its parent. -/
theorem exists_node (forest : Forest) {element : Nat} (inRange : element < forest.size) :
    ∃ node, forest.nodes[element]? = some node ∧ node.parent.toNat = forest.parent element := by
  have inside : element < forest.nodes.size := inRange
  refine ⟨forest.nodes[element], Array.getElem?_eq_getElem inside, ?_⟩
  rw [parent, ForestNode.parentIn, dif_pos inside]

theorem nodes_halve (forest : Forest) {element : Nat} {node above : ForestNode}
    (read : forest.nodes[element]? = some node)
    (grandparent : above.parent.toNat = forest.parent (forest.parent element)) :
    (forest.halve element).nodes =
      forest.nodes.setIfInBounds element { node with parent := above.parent } := by
  obtain ⟨inRange, rfl⟩ := Array.getElem?_eq_some_iff.mp read
  have named : (forest.parent (forest.parent element)).toUInt32 = above.parent := by
    rw [← grandparent]
    exact UInt32.ofNat_toNat
  rw [halve, dif_pos inRange, Array.setIfInBounds, dif_pos inRange]
  simp only [named]

/-- The walk from an element of the forest reads nothing outside, and ends at the root. -/
theorem walk_find (forest : Forest) {element : Nat} (inRange : element < forest.size) :
    Walk forest.nodes element (forest.find element).1 (forest.find element).2.nodes := by
  induction forest, element using find.induct with
  | case1 forest element isRoot =>
      obtain ⟨node, read, parent⟩ := forest.exists_node inRange
      rw [find, if_pos isRoot]
      exact .stay read (parent.trans isRoot)
  | case2 forest element notRoot inductionHypothesis =>
      obtain ⟨node, read, parent⟩ := forest.exists_node inRange
      have parentInRange : forest.parent element < forest.size :=
        forest.parentInRange element inRange
      obtain ⟨above, readAbove, grandparent⟩ := forest.exists_node parentInRange
      rw [← parent] at readAbove
      have rest := inductionHypothesis
        ((forest.size_halve element).symm ▸ forest.parentInRange _ parentInRange)
      rw [forest.nodes_halve read grandparent, ← grandparent] at rest
      rw [find, if_neg notRoot, ← grandparent]
      exact .climb read (parent ▸ notRoot) readAbove rest

theorem root_of_outside (forest : Forest) {element : Nat} (outside : ¬ element < forest.size) :
    forest.root element = element :=
  root_of_parent (forest.parent_of_outside outside)

theorem root_singletons {count : Nat} (fits : count < UInt32.size) (element : Nat) :
    (singletons count).root element = element := by
  by_cases inRange : element < count
  · exact root_of_parent (parent_singletons count (Nat.lt_trans inRange fits))
  · exact root_of_outside _ (by rwa [size_singletons])

/-- As long as a word names the new element, every root stays. -/
theorem root_push_of_room (forest : Forest) (room : forest.size < UInt32.size) (element : Nat) :
    forest.push.root element = forest.root element := by
  by_cases word : element < UInt32.size
  · exact forest.root_push word
  · have outside : ¬ element < forest.push.size := by
      rw [size_push]
      omega
    rw [root_of_outside _ outside, root_of_outside]
    omega

theorem count_singletons {count element : Nat} (inRange : element < count) :
    (singletons count).count element = 1 := by
  simp [Forest.count, singletons, ForestNode.countIn, ForestNode.alone, inRange]

theorem count_push (forest : Forest) (element : Nat) :
    forest.push.count element = if element = forest.size then 1 else forest.count element :=
  ForestNode.countIn_push _ _ _

theorem count_attach (forest : Forest) {root child : Nat} (element : Nat)
    (rootInRange : root < forest.nodes.size) (childInRange : child < forest.nodes.size)
    (isRoot : forest.parent root = root) :
    (forest.attach root child rootInRange childInRange isRoot).count element =
      if element = root then forest.count root + forest.count child
      else forest.count element := by
  have rootCount : forest.count root = forest.nodes[root].count := dif_pos rootInRange
  have childCount : forest.count child = forest.nodes[child].count := dif_pos childInRange
  simp only [count, attach, ForestNode.countIn_set] at rootCount childCount ⊢
  split
  · rw [rootCount, childCount]
  · split
    · rename_i here
      rw [here, childCount]
    · rfl

/-- The root with the larger count stays, the first one on a tie. If the roots were two, it counts
as much as both. -/
theorem count_link (forest : Forest) {left right : Nat} (leftIsRoot : forest.parent left = left)
    (rightIsRoot : forest.parent right = right) (leftInRange : left < forest.size)
    (rightInRange : right < forest.size) :
    (forest.link left right leftIsRoot rightIsRoot).1 =
        (if forest.count right ≤ forest.count left then left else right) ∧
      ∀ element, (forest.link left right leftIsRoot rightIsRoot).2.count element =
        if left ≠ right ∧ element = (forest.link left right leftIsRoot rightIsRoot).1 then
          forest.count left + forest.count right
        else forest.count element := by
  unfold link
  by_cases same : left = right
  · simp [same]
  · have inRange : left < forest.nodes.size ∧ right < forest.nodes.size :=
      ⟨leftInRange, rightInRange⟩
    rw [if_neg same, dif_pos inRange]
    by_cases larger : forest.count right ≤ forest.count left
    · simp only [if_pos larger, count_attach, ne_eq, same, not_false_eq_true, true_and,
        implies_true]
    · simp only [if_neg larger, count_attach, ne_eq, same, not_false_eq_true, true_and]
      intro element
      rw [UInt32.add_comm]

theorem count_union (forest : Forest) {first second : Nat} (firstInRange : first < forest.size)
    (secondInRange : second < forest.size) :
    (forest.union first second).1 =
        (if forest.count (forest.root second) ≤ forest.count (forest.root first) then
          forest.root first
        else forest.root second) ∧
      ∀ element, (forest.union first second).2.count element =
        if forest.root first ≠ forest.root second ∧ element = (forest.union first second).1 then
          forest.count (forest.root first) + forest.count (forest.root second)
        else forest.count element := by
  have counts (element : Nat) :
      ((forest.find first).2.find second).2.count element = forest.count element := by
    rw [count_find, count_find]
  have rightRoot : ((forest.find first).2.find second).1 = forest.root second :=
    root_find forest first second
  have leftInRange : (forest.find first).1 < ((forest.find first).2.find second).2.size := by
    rw [size_find, size_find]
    exact forest.root_lt_size firstInRange
  have rightInRange :
      ((forest.find first).2.find second).1 < ((forest.find first).2.find second).2.size := by
    rw [size_find, size_find, rightRoot]
    exact forest.root_lt_size secondInRange
  have linked := count_link _ (forest.parent_first first second)
    ((forest.find first).2.parent_find second) leftInRange rightInRange
  simp only [counts] at linked
  rw [← rightRoot]
  exact linked

/-- Whatever both ends of each union share, linked elements share. -/
theorem eq_of_mem_linkedTo {β : Type} {unions : List (Nat × Nat)} {value : Nat → β}
    (agree : ∀ first second, (first, second) ∈ unions → value first = value second)
    {element other : Nat} (linked : other ∈ linkedTo unions element) :
    value element = value other := by
  induction linked with
  | rel first second united => exact agree first second united
  | refl element => rfl
  | symm first second _ same => exact same.symm
  | trans first second third _ _ same later => exact same.trans later

theorem linkedTo_cons {unions : List (Nat × Nat)} {union : Nat × Nat} {element other : Nat}
    (linked : other ∈ linkedTo unions element) : other ∈ linkedTo (union :: unions) element :=
  linked.mono fun _ _ united => List.mem_cons_of_mem _ united

/-- The roots tell what the unions link, and a root counts its members. -/
structure Reflects (forest : Forest) (unions : List (Nat × Nat)) : Prop where
  linked : ∀ element other,
    forest.root element = forest.root other ↔ other ∈ linkedTo unions element
  counted : ∀ element, element < forest.size →
    (forest.count (forest.root element)).toNat = (forest.members element).card

theorem reflects_singletons {count : Nat} (fits : count < UInt32.size) :
    (singletons count).Reflects [] := by
  have alone := root_singletons fits
  refine ⟨fun element other => ?_, fun element inRange => ?_⟩
  · rw [alone, alone]
    constructor
    · rintro rfl
      exact .refl element
    · intro linked
      exact @eq_of_mem_linkedTo Nat [] id (fun _ _ united => absurd united List.not_mem_nil) _ _
        linked
  · have single : (singletons count).members element = {element} := by
      ext other
      rw [mem_members, alone, alone, Finset.mem_singleton]
      exact ⟨fun both => both.2, fun same => ⟨same ▸ inRange, same⟩⟩
    rw [size_singletons] at inRange
    rw [single, Finset.card_singleton, alone, count_singletons inRange]
    rfl

variable {forest : Forest} {unions : List (Nat × Nat)}

/-- Nothing matters but the roots and their counts. -/
theorem Reflects.congr {after : Forest} (reflects : forest.Reflects unions)
    (size : after.size = forest.size) (roots : ∀ element, after.root element = forest.root element)
    (counts : ∀ element, after.count element = forest.count element) :
    after.Reflects unions where
  linked element other := by
    rw [roots, roots]
    exact reflects.linked element other
  counted element inRange := by
    rw [roots, counts, members_congr size roots]
    exact reflects.counted element (size ▸ inRange)

theorem Reflects.find (reflects : forest.Reflects unions) (element : Nat) :
    (forest.find element).2.Reflects unions :=
  reflects.congr (forest.size_find element) (forest.root_find element)
    (forest.count_find element)

theorem Reflects.push (reflects : forest.Reflects unions) (room : forest.size < UInt32.size) :
    forest.push.Reflects unions where
  linked element other := by
    rw [root_push_of_room forest room, root_push_of_room forest room]
    exact reflects.linked element other
  counted element inRange := by
    have lastRoot : forest.root forest.size = forest.size :=
      forest.root_of_outside (Nat.lt_irrefl _)
    have other_ne (other : Nat) (inside : other < forest.size) : forest.root other ≠ forest.size :=
      Nat.ne_of_lt (forest.root_lt_size inside)
    have roots := forest.root_push_of_room room
    rw [size_push] at inRange
    rw [roots, count_push]
    rcases Nat.lt_succ_iff_lt_or_eq.mp inRange with old | rfl
    · have same : forest.push.members element = forest.members element := by
        ext other
        rw [mem_members, mem_members, size_push, roots, roots]
        constructor
        · rintro ⟨otherInRange, together⟩
          refine ⟨(Nat.lt_succ_iff_lt_or_eq.mp otherInRange).resolve_right ?_, together⟩
          rintro rfl
          exact other_ne element old (together.symm.trans lastRoot)
        · rintro ⟨otherInRange, together⟩
          exact ⟨Nat.lt_succ_of_lt otherInRange, together⟩
      rw [if_neg (other_ne element old), same]
      exact reflects.counted element old
    · have single : forest.push.members forest.size = {forest.size} := by
        ext other
        rw [mem_members, size_push, roots, roots, lastRoot, Finset.mem_singleton]
        constructor
        · rintro ⟨otherInRange, together⟩
          exact (Nat.lt_succ_iff_lt_or_eq.mp otherInRange).resolve_left fun inside =>
            other_ne other inside together
        · rintro rfl
          exact ⟨Nat.lt_succ_self _, lastRoot⟩
      rw [lastRoot, if_pos rfl, single, Finset.card_singleton]
      rfl

/-- Two sets have no more members than there are elements, so a word holds the sum of their
counts. -/
theorem Reflects.count_add (reflects : forest.Reflects unions) (fits : forest.size < UInt32.size)
    {first second : Nat} (firstInRange : first < forest.size) (secondInRange : second < forest.size)
    (different : forest.root first ≠ forest.root second) :
    (forest.count (forest.root first) + forest.count (forest.root second)).toNat =
        (forest.count (forest.root first)).toNat + (forest.count (forest.root second)).toNat ∧
      (forest.members first ∪ forest.members second).card =
        (forest.count (forest.root first)).toNat + (forest.count (forest.root second)).toNat := by
  have apart : Disjoint (forest.members first) (forest.members second) := by
    rw [Finset.disjoint_left]
    intro other left right
    rw [mem_members] at left right
    exact different (left.2.symm.trans right.2)
  have both : (forest.members first ∪ forest.members second).card =
      (forest.count (forest.root first)).toNat + (forest.count (forest.root second)).toNat := by
    rw [Finset.card_union_of_disjoint apart, reflects.counted first firstInRange,
      reflects.counted second secondInRange]
  have some : forest.members first ∪ forest.members second ⊆ Finset.range forest.size :=
    Finset.union_subset (Finset.filter_subset _ _) (Finset.filter_subset _ _)
  have few : (forest.members first ∪ forest.members second).card ≤ forest.size :=
    (Finset.card_le_card some).trans_eq (Finset.card_range _)
  refine ⟨?_, both⟩
  rw [UInt32.toNat_add, Nat.mod_eq_of_lt]
  exact both ▸ Nat.lt_of_le_of_lt few fits

/-- The members of a union are those of both sets. -/
theorem members_union {first second : Nat} (firstInRange : first < forest.size)
    (secondInRange : second < forest.size) (element : Nat) :
    (forest.union first second).2.members element =
      if forest.root element = forest.root first ∨ forest.root element = forest.root second then
        forest.members first ∪ forest.members second
      else forest.members element := by
  obtain ⟨answer, roots⟩ := forest.root_union first second firstInRange secondInRange
  have inside (other : Nat) : other ∈ (forest.union first second).2.members element ↔
      other < forest.size ∧ (forest.union first second).2.root other =
        (forest.union first second).2.root element := by
    rw [mem_members, size_union]
  by_cases joined : forest.root element = forest.root first ∨
      forest.root element = forest.root second
  · rw [if_pos joined]
    ext other
    rw [inside, roots element, if_pos joined, roots, Finset.mem_union, mem_members, mem_members]
    grind
  · rw [if_neg joined]
    ext other
    rw [inside, roots element, if_neg joined, roots, mem_members]
    grind

theorem Reflects.union (reflects : forest.Reflects unions) (fits : forest.size < UInt32.size)
    {first second : Nat} (firstInRange : first < forest.size)
    (secondInRange : second < forest.size) :
    (forest.union first second).2.Reflects ((first, second) :: unions) where
  linked element other := by
    obtain ⟨answer, roots⟩ := forest.root_union first second firstInRange secondInRange
    have older {left right : Nat} (same : forest.root left = forest.root right) :
        right ∈ linkedTo ((first, second) :: unions) left :=
      linkedTo_cons ((reflects.linked left right).mp same)
    have united : second ∈ linkedTo ((first, second) :: unions) first :=
      .rel first second List.mem_cons_self
    have reaches (element : Nat) (joined : forest.root element = forest.root first ∨
        forest.root element = forest.root second) :
        first ∈ linkedTo ((first, second) :: unions) element := by
      rcases joined with under | under
      · exact older under
      · exact .trans _ second _ (older under) (.symm _ _ united)
    constructor
    · intro same
      rw [roots, roots] at same
      by_cases joined : forest.root element = forest.root first ∨
          forest.root element = forest.root second
      · have otherJoined : forest.root other = forest.root first ∨
            forest.root other = forest.root second := by
          grind
        exact .trans _ first _ (reaches element joined) (.symm _ _ (reaches other otherJoined))
      · have together : forest.root element = forest.root other := by
          grind
        exact older together
    · refine eq_of_mem_linkedTo fun left right member => ?_
      rcases List.mem_cons.mp member with same | earlier
      · obtain ⟨rfl, rfl⟩ := Prod.mk.inj same
        rw [roots, roots, if_pos (.inl rfl), if_pos (.inr rfl)]
      · rw [roots, roots, (reflects.linked left right).mpr (.rel left right earlier)]
  counted element inRange := by
    obtain ⟨answer, roots⟩ := forest.root_union first second firstInRange secondInRange
    obtain ⟨-, counts⟩ := forest.count_union firstInRange secondInRange
    rw [size_union] at inRange
    rw [members_union firstInRange secondInRange, roots, counts]
    by_cases joined : forest.root element = forest.root first ∨
        forest.root element = forest.root second
    · rw [if_pos joined, if_pos joined]
      by_cases same : forest.root first = forest.root second
      · have members : forest.members second = forest.members first := by
          rw [Forest.members, Forest.members, same]
        have answered : (forest.union first second).1 = forest.root first :=
          answer.elim id fun right => right.trans same.symm
        rw [if_neg fun both => both.1 same, members, Finset.union_self, answered]
        exact reflects.counted first firstInRange
      · obtain ⟨sum, both⟩ := reflects.count_add fits firstInRange secondInRange same
        rw [if_pos ⟨same, rfl⟩, sum, both]
    · have other : forest.root element ≠ (forest.union first second).1 := by
        grind
      rw [if_neg joined, if_neg joined, if_neg fun both => other both.2]
      exact reflects.counted element inRange

theorem ofCount_eq {count : Nat} (fits : count < UInt32.size) :
    ofCount count = singletons count := by
  rw [ofCount, ForestNode.toNat_toUInt32 fits]

/-- A word can count the elements of every forest that calls lead to. -/
theorem Grown.fits (grown : Grown forest unions) : forest.size < UInt32.size := by
  induction grown with
  | ofCount fits => rwa [ofCount_eq fits, size_singletons]
  | push _ room _ => rwa [size_push]
  | find _ _ inductionHypothesis => rwa [size_find]
  | union _ _ _ inductionHypothesis => rwa [size_union]
  | setSize _ _ inductionHypothesis => exact (size_find _ _).symm ▸ inductionHypothesis
  | reset _ inductionHypothesis => rwa [size_reset]

/-- Every call keeps the forest and the history of unions together. -/
theorem Grown.reflects (grown : Grown forest unions) : forest.Reflects unions := by
  induction grown with
  | ofCount fits => exact ofCount_eq fits ▸ reflects_singletons fits
  | push grown _ inductionHypothesis => exact inductionHypothesis.push grown.fits
  | find _ _ inductionHypothesis => exact inductionHypothesis.find _
  | union grown firstInRange secondInRange inductionHypothesis =>
      exact inductionHypothesis.union grown.fits firstInRange secondInRange
  | setSize _ _ inductionHypothesis => exact inductionHypothesis.find _
  | reset grown _ => exact reflects_singletons grown.fits

/-- An element has as many members as elements are linked to it. -/
theorem Reflects.card_members (reflects : forest.Reflects unions) {element : Nat}
    (inRange : element < forest.size) :
    (forest.members element).card = (linkedTo unions element).ncard := by
  have same : linkedTo unions element = ↑(forest.members element) := by
    ext other
    rw [Finset.mem_coe, mem_members, ← reflects.linked]
    constructor
    · intro together
      refine ⟨?_, together.symm⟩
      by_contra outside
      rw [forest.root_of_outside outside] at together
      exact outside (together ▸ forest.root_lt_size inRange)
    · exact fun both => both.2.symm
  rw [same, Set.ncard_coe_finset]

/-- The count at a root is the number of elements that are linked to one of its set. -/
theorem Reflects.count_root (reflects : forest.Reflects unions) {element : Nat}
    (inRange : element < forest.size) :
    (forest.count (forest.root element)).toNat = (linkedTo unions element).ncard :=
  (reflects.counted element inRange).trans (reflects.card_members inRange)

/-- A union answers with the root of the larger set, of the first one on a tie. -/
theorem Reflects.union_answer (reflects : forest.Reflects unions) {first second : Nat}
    (firstInRange : first < forest.size) (secondInRange : second < forest.size) :
    (forest.union first second).1 =
      if (linkedTo unions second).ncard ≤ (linkedTo unions first).ncard then forest.root first
      else forest.root second := by
  rw [(forest.count_union firstInRange secondInRange).1, ← reflects.count_root firstInRange,
    ← reflects.count_root secondInRange]
  rfl

/-- A forest computes the equivalence that its unions since the last reset generate, with the sizes
of its classes, and its walks end, stay inside and change no root. -/
theorem grown_partitions (grown : Grown forest unions) :
    (∀ element, element < forest.size →
      Walk forest.nodes element (forest.find element).1 (forest.find element).2.nodes ∧
        (forest.find element).1 < forest.size ∧
        (forest.find element).1 ∈ linkedTo unions element ∧
        ∀ other, ((forest.find element).2.find other).1 = (forest.find other).1) ∧
    (∀ first second, first < forest.size → second < forest.size →
      ((forest.find first).1 = (forest.find second).1 ↔ second ∈ linkedTo unions first)) ∧
    (∀ first second, first < forest.size → second < forest.size →
      (forest.union first second).1 =
          (if (linkedTo unions second).ncard ≤ (linkedTo unions first).ncard then
            (forest.find first).1
          else (forest.find second).1) ∧
        ∀ other, (other ∈ linkedTo unions first ∨ other ∈ linkedTo unions second →
            ((forest.union first second).2.find other).1 = (forest.union first second).1) ∧
          (¬ (other ∈ linkedTo unions first ∨ other ∈ linkedTo unions second) →
            ((forest.union first second).2.find other).1 = (forest.find other).1)) ∧
    ∀ element, element < forest.size →
      (forest.setSize element).1 = (linkedTo unions element).ncard ∧
        ∀ other, ((forest.setSize element).2.find other).1 = (forest.find other).1 := by
  have reflects := grown.reflects
  refine ⟨fun element inRange => ⟨forest.walk_find inRange, forest.root_lt_size inRange, ?_,
    forest.root_find element⟩, fun first second _ _ => reflects.linked first second, ?_, ?_⟩
  · exact (reflects.linked element _).mp (forest.root_root element).symm
  · intro first second firstInRange secondInRange
    obtain ⟨-, roots⟩ := forest.root_union first second firstInRange secondInRange
    refine ⟨reflects.union_answer firstInRange secondInRange, fun other => ?_⟩
    rw [← reflects.linked, ← reflects.linked, eq_comm, @eq_comm _ (forest.root second)]
    exact ⟨fun joined => (roots other).trans (if_pos joined),
      fun apart => (roots other).trans (if_neg apart)⟩
  · intro element inRange
    refine ⟨?_, forest.root_find element⟩
    exact (congrArg UInt32.toNat (forest.count_find element _)).trans (reflects.count_root inRange)

/-- Three of five elements become one set, and a fourth one joins it under the root that it has. -/
theorem grown_partitions_sample :
    let forest := (((ofCount 4).union 0 1).2.union 2 1).2.push
    Grown forest [(2, 1), (0, 1)] ∧ (forest.find 0).1 = (forest.find 2).1 ∧
      (linkedTo [(2, 1), (0, 1)] 2).ncard = 3 ∧
        (linkedTo [(2, 1), (0, 1)] 4).ncard = 1 ∧
          (forest.union 4 2).1 = (forest.find 2).1 := by
  intro forest
  have grown : Grown forest [(2, 1), (0, 1)] :=
    (((@Grown.ofCount 4 (by decide)).union (by decide) (by decide)).union (by decide +kernel)
      (by decide +kernel)).push (by decide +kernel)
  have size : forest.size = 5 := by decide +kernel
  obtain ⟨-, linked, unions, sizes⟩ := grown_partitions grown
  have three : (linkedTo [(2, 1), (0, 1)] 2).ncard = 3 :=
    (sizes 2 (by omega)).1.symm.trans (by decide +kernel)
  have one : (linkedTo [(2, 1), (0, 1)] 4).ncard = 1 :=
    (sizes 4 (by omega)).1.symm.trans (by decide +kernel)
  have chain : 2 ∈ linkedTo [(2, 1), (0, 1)] 0 :=
    .trans 0 1 2 (.rel 0 1 (by decide)) (.symm 2 1 (.rel 2 1 (by decide)))
  refine ⟨grown, (linked 0 2 (by omega) (by omega)).mpr chain, three, one, ?_⟩
  rw [(unions 4 2 (by omega) (by omega)).1, three, one, if_neg (by decide)]

end Forest

end HingeLoss
