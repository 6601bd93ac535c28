import HingeLoss.Atom.Forest

/-! Walks and new elements keep the root of every element, and a union gives two sets one root. -/

namespace HingeLoss

namespace Forest

/-- The walk over parents from an element ends in a root. -/
inductive LeadsTo (forest : Forest) : Nat → Nat → Prop where
  | here {root : Nat} (isRoot : forest.parent root = root) : LeadsTo forest root root
  | above {element root : Nat} (notRoot : forest.parent element ≠ element)
      (rest : LeadsTo forest (forest.parent element) root) : LeadsTo forest element root

/-- The root that a walk finds. -/
def root (forest : Forest) (element : Nat) : Nat := (forest.find element).1

theorem LeadsTo.unique {forest : Forest} {element first second : Nat}
    (leads : forest.LeadsTo element first) (other : forest.LeadsTo element second) :
    first = second := by
  induction leads with
  | here isRoot =>
      cases other with
      | here _ => rfl
      | above notRoot _ => exact absurd isRoot notRoot
  | above notRoot _ inductionHypothesis =>
      cases other with
      | here isRoot => exact absurd isRoot notRoot
      | above _ rest => exact inductionHypothesis rest

theorem LeadsTo.isRoot {forest : Forest} {element root : Nat}
    (leads : forest.LeadsTo element root) : forest.parent root = root := by
  induction leads with
  | here isRoot => exact isRoot
  | above _ _ inductionHypothesis => exact inductionHypothesis

theorem parent_of_outside (forest : Forest) {element : Nat} (outside : ¬ element < forest.size) :
    forest.parent element = element := by
  simp only [parent, ForestNode.parentIn]
  exact dif_neg outside

/-- A walk that starts inside the forest ends inside. -/
theorem LeadsTo.inRange {forest : Forest} {element root : Nat}
    (leads : forest.LeadsTo element root) (inRange : element < forest.size) :
    root < forest.size := by
  induction leads with
  | here _ => exact inRange
  | above _ _ inductionHypothesis =>
      exact inductionHypothesis (forest.parentInRange _ inRange)

/-- Weights rise on the way and are bounded, so every walk ends. -/
theorem exists_leadsTo (forest : Forest) (element : Nat) :
    ∃ root, forest.LeadsTo element root := by
  by_cases isRoot : forest.parent element = element
  · exact ⟨element, .here isRoot⟩
  · have rises : forest.weight element < forest.weight (forest.parent element) :=
      forest.weightRises element isRoot
    have bound := forest.weight_le_totalWeight (forest.parent element)
    obtain ⟨root, rest⟩ := exists_leadsTo forest (forest.parent element)
    exact ⟨root, .above isRoot rest⟩
termination_by forest.totalWeight - forest.weight element

/-- A halved path is shorter and ends in the same root. -/
theorem LeadsTo.halve {forest : Forest} {element root : Nat}
    (leads : forest.LeadsTo element root) (halved : Nat) :
    (forest.halve halved).LeadsTo element root := by
  induction leads with
  | @here root isRoot =>
      apply LeadsTo.here
      rw [parent_halve]
      split
      · rename_i same
        rw [← same, isRoot, isRoot]
      · exact isRoot
  | @above element root notRoot _ inductionHypothesis =>
      by_cases here : element = halved
      · subst here
        have skipped : (forest.halve element).parent element =
            forest.parent (forest.parent element) := by
          rw [parent_halve, if_pos rfl]
        have higher : forest.parent (forest.parent element) ≠ element := by
          intro same
          have rises := forest.weight_lt_weight_parent element notRoot
          rw [same] at rises
          exact Nat.lt_irrefl _ rises
        apply LeadsTo.above (by rw [skipped]; exact higher)
        rw [skipped]
        cases inductionHypothesis with
        | here isRoot =>
            rw [parent_halve, if_neg notRoot] at isRoot
            rw [isRoot]
            exact .here (by rw [parent_halve, if_neg notRoot, isRoot])
        | above _ rest =>
            rw [parent_halve, if_neg notRoot] at rest
            exact rest
      · have kept : (forest.halve halved).parent element = forest.parent element := by
          rw [parent_halve, if_neg here]
        exact .above (by rw [kept]; exact notRoot) (by rw [kept]; exact inductionHypothesis)

theorem LeadsTo.of_halve {forest : Forest} {element root : Nat} (halved : Nat)
    (leads : (forest.halve halved).LeadsTo element root) : forest.LeadsTo element root := by
  obtain ⟨final, before⟩ := forest.exists_leadsTo element
  rw [leads.unique (before.halve halved)]
  exact before

theorem leadsTo_root (forest : Forest) (element : Nat) :
    forest.LeadsTo element (forest.root element) := by
  unfold root
  induction forest, element using find.induct with
  | case1 forest element isRoot =>
      rw [find]
      simp only [isRoot, if_true]
      exact .here isRoot
  | case2 forest element notRoot inductionHypothesis =>
      rw [find]
      simp only [notRoot, if_false]
      -- The walk goes on from the grandparent, which is the parent once the path is halved.
      apply LeadsTo.of_halve element
      have skipped : (forest.halve element).parent element =
          forest.parent (forest.parent element) := by
        rw [parent_halve, if_pos rfl]
      apply LeadsTo.above
      · rw [skipped]
        intro same
        have rises := forest.weight_lt_weight_parent element notRoot
        rw [same] at rises
        exact Nat.lt_irrefl _ rises
      · rw [skipped]
        exact inductionHypothesis

theorem LeadsTo.root_eq {forest : Forest} {element root : Nat}
    (leads : forest.LeadsTo element root) : forest.root element = root :=
  (forest.leadsTo_root element).unique leads

theorem parent_root (forest : Forest) (element : Nat) :
    forest.parent (forest.root element) = forest.root element :=
  (forest.leadsTo_root element).isRoot

theorem root_of_parent {forest : Forest} {element : Nat}
    (isRoot : forest.parent element = element) : forest.root element = element :=
  (LeadsTo.here isRoot).root_eq

@[simp] theorem root_root (forest : Forest) (element : Nat) :
    forest.root (forest.root element) = forest.root element :=
  root_of_parent (forest.parent_root element)

theorem root_lt_size (forest : Forest) {element : Nat} (inRange : element < forest.size) :
    forest.root element < forest.size :=
  (forest.leadsTo_root element).inRange inRange

theorem root_halve (forest : Forest) (halved element : Nat) :
    (forest.halve halved).root element = forest.root element :=
  ((forest.leadsTo_root element).halve halved).root_eq

/-- A walk changes no root. -/
@[simp] theorem root_find (forest : Forest) (walked element : Nat) :
    (forest.find walked).2.root element = forest.root element := by
  induction forest, walked using find.induct with
  | case1 forest walked isRoot =>
      rw [find]
      simp only [isRoot, if_true]
  | case2 forest walked notRoot inductionHypothesis =>
      rw [find]
      simp only [notRoot, if_false]
      rw [inductionHypothesis, root_halve]

theorem parent_lt_word (forest : Forest) {element : Nat} (word : element < UInt32.size) :
    forest.parent element < UInt32.size := by
  by_cases inRange : element < forest.size
  · exact ForestNode.parentIn_lt inRange
  · rwa [forest.parent_of_outside inRange]

/-- A word is the root of a word. -/
theorem root_lt_word (forest : Forest) {element : Nat} (word : element < UInt32.size) :
    forest.root element < UInt32.size := by
  generalize reached : forest.root element = root
  have leads := reached ▸ forest.leadsTo_root element
  clear reached
  induction leads with
  | here _ => exact word
  | above _ _ inductionHypothesis => exact inductionHypothesis (forest.parent_lt_word word)

theorem LeadsTo.congr {forest other : Forest} {element root : Nat}
    (leads : forest.LeadsTo element root) (word : element < UInt32.size)
    (same : ∀ element, element < UInt32.size → other.parent element = forest.parent element) :
    other.LeadsTo element root := by
  induction leads with
  | here isRoot => exact .here ((same _ word).trans isRoot)
  | above notRoot _ inductionHypothesis =>
      have kept := same _ word
      exact .above (by rw [kept]; exact notRoot)
        (by rw [kept]; exact inductionHypothesis (forest.parent_lt_word word))

/-- Forests in which words have the same parents have the same roots of words. -/
theorem root_congr {forest other : Forest}
    (same : ∀ element, element < UInt32.size → other.parent element = forest.parent element)
    {element : Nat} (word : element < UInt32.size) : other.root element = forest.root element :=
  ((forest.leadsTo_root element).congr word same).root_eq

theorem parent_singletons (count : Nat) {element : Nat} (word : element < UInt32.size) :
    (singletons count).parent element = element := by
  simp only [parent, singletons, ForestNode.parentIn, Array.size_ofFn, Array.getElem_ofFn]
  split
  · exact ForestNode.toNat_toUInt32 word
  · rfl

theorem parent_push (forest : Forest) {element : Nat} (word : element < UInt32.size) :
    forest.push.parent element = forest.parent element := by
  simp only [parent, push, ForestNode.parentIn_push]
  split
  · rename_i last
    subst last
    exact (ForestNode.toNat_toUInt32 word).trans
      (forest.parent_of_outside (Nat.lt_irrefl _)).symm
  · rfl

@[simp] theorem root_push (forest : Forest) {element : Nat} (word : element < UInt32.size) :
    forest.push.root element = forest.root element :=
  root_congr (fun _ word => forest.parent_push word) word

section

variable (forest : Forest) {left right root child : Nat} (rootInRange : root < forest.nodes.size)
  (childInRange : child < forest.nodes.size) (rootIsRoot : forest.parent root = root)

theorem parent_attach (element : Nat) :
    (forest.attach root child rootInRange childInRange rootIsRoot).parent element =
      if element = root then root else if element = child then root else forest.parent element := by
  have rootNamed : forest.nodes[root].parent.toNat = root := by
    simpa [parent, ForestNode.parentIn, rootInRange] using rootIsRoot
  have named : root.toUInt32.toNat = root :=
    ForestNode.toNat_toUInt32 (rootNamed ▸ UInt32.toNat_lt_size _)
  simp only [parent, attach, ForestNode.parentIn_set, named, rootNamed]

variable {forest} in
theorem LeadsTo.attach {element top : Nat} (leads : forest.LeadsTo element top)
    (childIsRoot : forest.parent child = child) (different : root ≠ child) :
    (forest.attach root child rootInRange childInRange rootIsRoot).LeadsTo element
      (if top = child then root else top) := by
  have parents := forest.parent_attach rootInRange childInRange rootIsRoot
  have reached : (forest.attach root child rootInRange childInRange rootIsRoot).LeadsTo root root :=
    .here (by rw [parents, if_pos rfl])
  induction leads with
  | @here top isRoot =>
      by_cases same : top = child
      · subst same
        have moved := parents top
        rw [if_neg different.symm, if_pos rfl] at moved
        rw [if_pos rfl]
        exact .above (by rw [moved]; exact different) (by rw [moved]; exact reached)
      · rw [if_neg same]
        apply LeadsTo.here
        rw [parents, if_neg same, isRoot]
        split
        · rename_i here
          exact here.symm
        · rfl
  | @above element top notRoot _ inductionHypothesis =>
      have kept : (forest.attach root child rootInRange childInRange rootIsRoot).parent element =
          forest.parent element := by
        have notTop : element ≠ root := fun same => notRoot (same ▸ rootIsRoot)
        have notChild : element ≠ child := fun same => notRoot (same ▸ childIsRoot)
        rw [parents, if_neg notTop, if_neg notChild]
      exact .above (by rw [kept]; exact notRoot) (by rw [kept]; exact inductionHypothesis)

/-- The elements under the child come under the root. -/
theorem root_attach (childIsRoot : forest.parent child = child) (different : root ≠ child)
    (element : Nat) :
    (forest.attach root child rootInRange childInRange rootIsRoot).root element =
      if forest.root element = child then root else forest.root element :=
  ((forest.leadsTo_root element).attach rootInRange childInRange rootIsRoot childIsRoot
    different).root_eq

variable (leftIsRoot : forest.parent left = left) (rightIsRoot : forest.parent right = right)

theorem link_answer :
    (forest.link left right leftIsRoot rightIsRoot).1 = left ∨
      (forest.link left right leftIsRoot rightIsRoot).1 = right := by
  unfold link
  repeat' split
  all_goals simp

/-- All elements under two roots come under the one that stays. -/
theorem root_link (leftInRange : left < forest.size) (rightInRange : right < forest.size)
    (element : Nat) :
    (forest.link left right leftIsRoot rightIsRoot).2.root element =
      if forest.root element = left ∨ forest.root element = right then
        (forest.link left right leftIsRoot rightIsRoot).1
      else forest.root element := by
  unfold link
  by_cases same : left = right
  · simp only [same, if_true, or_self]
    split
    · assumption
    · rfl
  · have inRange : left < forest.nodes.size ∧ right < forest.nodes.size :=
      ⟨leftInRange, rightInRange⟩
    rw [if_neg same, dif_pos inRange]
    split
    · rw [root_attach forest _ _ _ rightIsRoot same]
      grind
    · rw [root_attach forest _ _ _ leftIsRoot (Ne.symm same)]
      grind

end

/-- A union answers with one of the two roots, and gives it to all elements of both sets. -/
theorem root_union (forest : Forest) (first second : Nat) (firstInRange : first < forest.size)
    (secondInRange : second < forest.size) :
    ((forest.union first second).1 = forest.root first ∨
        (forest.union first second).1 = forest.root second) ∧
      ∀ element, (forest.union first second).2.root element =
        if forest.root element = forest.root first ∨ forest.root element = forest.root second then
          (forest.union first second).1
        else forest.root element := by
  have rightRoot : ((forest.find first).2.find second).1 = forest.root second :=
    root_find forest first second
  constructor
  · rw [← rightRoot]
    exact link_answer _ _ _
  · intro element
    have leftInRange : (forest.find first).1 < ((forest.find first).2.find second).2.size := by
      rw [size_find, size_find]
      exact forest.root_lt_size firstInRange
    have rightInRange :
        ((forest.find first).2.find second).1 < ((forest.find first).2.find second).2.size := by
      rw [size_find, size_find, rightRoot]
      exact forest.root_lt_size secondInRange
    have joined := root_link _ (forest.parent_first first second)
      ((forest.find first).2.parent_find second) leftInRange rightInRange element
    rw [root_find, root_find] at joined
    rw [← rightRoot]
    exact joined

end Forest

end HingeLoss
