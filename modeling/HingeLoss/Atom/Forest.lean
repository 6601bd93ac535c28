/-! A disjoint-set forest over dense numbers, whose nodes are words. -/

namespace HingeLoss

/-- A node points to its parent, and a root counts the elements under it. The weight is that count
without a bound; it rises on the way to a root, so a walk ends. -/
structure ForestNode where
  parent : UInt32
  count : UInt32
  weight : Nat
deriving Inhabited

namespace ForestNode

/-- An element in a set of its own. One that no word can name weighs nothing. -/
def alone (element : Nat) : ForestNode where
  parent := element.toUInt32
  count := 1
  weight := if element < UInt32.size then 1 else 0

def parentIn (nodes : Array ForestNode) (element : Nat) : Nat :=
  if inRange : element < nodes.size then nodes[element].parent.toNat else element

def countIn (nodes : Array ForestNode) (element : Nat) : UInt32 :=
  if inRange : element < nodes.size then nodes[element].count else 0

def weightIn (nodes : Array ForestNode) (element : Nat) : Nat :=
  if inRange : element < nodes.size then nodes[element].weight else 0

theorem toNat_toUInt32 {element : Nat} (word : element < UInt32.size) :
    element.toUInt32.toNat = element := UInt32.toNat_ofNat_of_lt' word

theorem toNat_toUInt32_le (element : Nat) : element.toUInt32.toNat ≤ element := by
  rw [Nat.toUInt32_eq, UInt32.toNat_ofNat']
  exact Nat.mod_le _ _

/-- Every parent is a word. -/
theorem parentIn_lt {nodes : Array ForestNode} {element : Nat} (inRange : element < nodes.size) :
    parentIn nodes element < UInt32.size := by
  rw [parentIn, dif_pos inRange]
  exact UInt32.toNat_lt_size _

theorem parentIn_set (nodes : Array ForestNode) (element other : Nat) (node : ForestNode)
    (inRange : element < nodes.size) :
    parentIn (nodes.set element node) other =
      if other = element then node.parent.toNat else parentIn nodes other := by
  simp only [parentIn, Array.size_set, Array.getElem_set]
  split <;> split <;> grind

theorem countIn_set (nodes : Array ForestNode) (element other : Nat) (node : ForestNode)
    (inRange : element < nodes.size) :
    countIn (nodes.set element node) other =
      if other = element then node.count else countIn nodes other := by
  simp only [countIn, Array.size_set, Array.getElem_set]
  split <;> split <;> grind

theorem weightIn_set (nodes : Array ForestNode) (element other : Nat) (node : ForestNode)
    (inRange : element < nodes.size) :
    weightIn (nodes.set element node) other =
      if other = element then node.weight else weightIn nodes other := by
  simp only [weightIn, Array.size_set, Array.getElem_set]
  split <;> split <;> grind

theorem parentIn_push (nodes : Array ForestNode) (other : Nat) (node : ForestNode) :
    parentIn (nodes.push node) other =
      if other = nodes.size then node.parent.toNat else parentIn nodes other := by
  simp only [parentIn, Array.size_push, Array.getElem_push]
  split <;> split <;> grind

theorem countIn_push (nodes : Array ForestNode) (other : Nat) (node : ForestNode) :
    countIn (nodes.push node) other =
      if other = nodes.size then node.count else countIn nodes other := by
  simp only [countIn, Array.size_push, Array.getElem_push]
  split <;> split <;> grind

theorem weightIn_push (nodes : Array ForestNode) (other : Nat) (node : ForestNode) :
    weightIn (nodes.push node) other =
      if other = nodes.size then node.weight else weightIn nodes other := by
  simp only [weightIn, Array.size_push, Array.getElem_push]
  split <;> split <;> grind

end ForestNode

open ForestNode

structure Forest where
  nodes : Array ForestNode
  parentInRange : ∀ element, element < nodes.size → parentIn nodes element < nodes.size
  weightPositive : ∀ element, element < nodes.size → element < UInt32.size →
    0 < weightIn nodes element
  weightRises : ∀ element, parentIn nodes element ≠ element →
    weightIn nodes element < weightIn nodes (parentIn nodes element)

namespace Forest

def size (forest : Forest) : Nat := forest.nodes.size

def parent (forest : Forest) (element : Nat) : Nat := parentIn forest.nodes element

def count (forest : Forest) (element : Nat) : UInt32 := countIn forest.nodes element

def weight (forest : Forest) (element : Nat) : Nat := weightIn forest.nodes element

def empty : Forest where
  nodes := #[]
  parentInRange := by simp
  weightPositive := by simp
  weightRises := by simp [parentIn]

instance : Inhabited Forest := ⟨empty⟩

/-- The forest of singletons. -/
def singletons (count : Nat) : Forest where
  nodes := Array.ofFn fun element : Fin count => .alone element
  parentInRange := by
    intro element inRange
    rw [Array.size_ofFn] at inRange ⊢
    simp only [parentIn, Array.size_ofFn, Array.getElem_ofFn, inRange, dite_true, alone]
    exact Nat.lt_of_le_of_lt (toNat_toUInt32_le element) inRange
  weightPositive := by
    intro element inRange word
    rw [Array.size_ofFn] at inRange
    simp [weightIn, alone, inRange, word]
  weightRises := by
    intro element notRoot
    by_cases inRange : element < count
    · have below := Nat.lt_of_le_of_lt (toNat_toUInt32_le element) inRange
      have word := UInt32.toNat_lt_size element.toUInt32
      have nameless : ¬ element < UInt32.size := fun named => notRoot (by
        simpa [parentIn, alone, inRange] using toNat_toUInt32 named)
      simp only [parentIn, weightIn, Array.size_ofFn, Array.getElem_ofFn, inRange, dite_true, alone,
        below, word, nameless, if_true, if_false]
      exact Nat.one_pos
    · exact absurd (by simp [parentIn, inRange]) notRoot

/-- So many singletons, counted by a word. -/
def ofCount (count : Nat) : Forest := singletons count.toUInt32.toNat

/-- A new singleton at the end. -/
def push (forest : Forest) : Forest where
  nodes := forest.nodes.push (.alone forest.nodes.size)
  parentInRange := by
    intro element inRange
    rw [Array.size_push] at inRange ⊢
    rw [parentIn_push]
    split
    · exact Nat.lt_succ_of_le (toNat_toUInt32_le _)
    · exact Nat.lt_succ_of_lt (forest.parentInRange element (by omega))
  weightPositive := by
    intro element inRange word
    rw [Array.size_push] at inRange
    rw [weightIn_push]
    split
    · rename_i last
      subst last
      simp [alone, word]
    · exact forest.weightPositive element (by omega) word
  weightRises := by
    intro element notRoot
    rw [parentIn_push] at notRoot ⊢
    split at notRoot
    · rename_i last
      subst last
      -- The last element is no root only if a word cannot name it, and then an older one has its
      -- name.
      have nameless : ¬ forest.nodes.size < UInt32.size := fun named =>
        notRoot (toNat_toUInt32 named)
      have word : (alone forest.nodes.size).parent.toNat < UInt32.size := UInt32.toNat_lt_size _
      have older : (alone forest.nodes.size).parent.toNat < forest.nodes.size := by omega
      rw [if_pos rfl, weightIn_push, weightIn_push, if_pos rfl, if_neg (Nat.ne_of_lt older)]
      have positive := forest.weightPositive _ older word
      simpa only [alone, nameless, if_false] using positive
    · rename_i early
      have inside : element < forest.nodes.size := by
        by_cases inRange : element < forest.nodes.size
        · exact inRange
        · exact absurd (by simp [parentIn, inRange]) notRoot
      have above := forest.parentInRange element inside
      rw [if_neg early, weightIn_push, weightIn_push, if_neg early, if_neg (Nat.ne_of_lt above)]
      exact forest.weightRises element notRoot

/-- Every element becomes a singleton again. -/
def reset (forest : Forest) : Forest := singletons forest.size

/-- The sum of all weights bounds each of them. -/
def totalWeight (forest : Forest) : Nat :=
  (forest.nodes.map ForestNode.weight).foldr (· + ·) 0

theorem weight_le_totalWeight (forest : Forest) (element : Nat) :
    forest.weight element ≤ forest.totalWeight := by
  unfold weight weightIn totalWeight
  split
  · rename_i inRange
    rw [← Array.foldr_toList, Array.toList_map]
    have member : forest.nodes[element].weight ∈ forest.nodes.toList.map ForestNode.weight :=
      List.mem_map_of_mem (by simp)
    generalize forest.nodes.toList.map ForestNode.weight = weights at member
    induction weights with
    | nil => simp at member
    | cons first rest inductionHypothesis =>
        rcases List.mem_cons.mp member with same | later
        · simp [same]
        · have := inductionHypothesis later
          simp only [List.foldr_cons]
          omega
  · exact Nat.zero_le _

/-- The parent's parent of an element that is there is a word. -/
theorem parent_parent_lt (forest : Forest) {element : Nat} (inRange : element < forest.nodes.size) :
    forest.parent (forest.parent element) < UInt32.size :=
  parentIn_lt (forest.parentInRange element inRange)

/-- An element points to its parent's parent from now on. -/
def halve (forest : Forest) (element : Nat) : Forest :=
  if inRange : element < forest.nodes.size then
    let higher := forest.parent (forest.parent element)
    have named : higher.toUInt32.toNat = higher := toNat_toUInt32 (forest.parent_parent_lt inRange)
    { nodes := forest.nodes.set element { forest.nodes[element] with parent := higher.toUInt32 }
      parentInRange := by
        intro other otherInRange
        have step := forest.parentInRange
        rw [Array.size_set] at otherInRange ⊢
        rw [parentIn_set, named]
        split
        · exact step _ (step _ inRange)
        · exact step _ otherInRange
      weightPositive := by
        intro other otherInRange word
        rw [Array.size_set] at otherInRange
        have := forest.weightPositive
        rw [weightIn_set]
        split
        · rename_i same
          have := this element inRange (same ▸ word)
          simpa [weightIn, inRange] using this
        · exact this _ otherInRange word
      weightRises := by
        intro other notRoot
        have rises := forest.weightRises
        have same : forest.nodes[element].weight = weightIn forest.nodes element := by
          simp [weightIn, inRange]
        simp only [parentIn_set, weightIn_set, same, named] at *
        simp only [higher, parent] at *
        grind }
  else forest

theorem size_halve (forest : Forest) (element : Nat) :
    (forest.halve element).size = forest.size := by
  unfold halve
  split <;> simp [size]

theorem weight_halve (forest : Forest) (element other : Nat) :
    (forest.halve element).weight other = forest.weight other := by
  unfold halve
  split
  · rename_i inRange
    simp only [weight, weightIn_set]
    split
    · simp_all [weightIn]
    · rfl
  · rfl

theorem count_halve (forest : Forest) (element other : Nat) :
    (forest.halve element).count other = forest.count other := by
  unfold halve
  split
  · rename_i inRange
    simp only [count, countIn_set]
    split
    · simp_all [countIn]
    · rfl
  · rfl

theorem parent_halve (forest : Forest) (element other : Nat) :
    (forest.halve element).parent other =
      if other = element then forest.parent (forest.parent element) else forest.parent other := by
  unfold halve
  split
  · rename_i inRange
    rw [parent, parentIn_set, toNat_toUInt32 (forest.parent_parent_lt inRange)]
    rfl
  · simp only [parent, parentIn]
    grind

theorem totalWeight_halve (forest : Forest) (element : Nat) :
    (forest.halve element).totalWeight = forest.totalWeight := by
  unfold halve
  split
  · rename_i inRange
    have same : (forest.nodes.set element { forest.nodes[element] with
        parent := (forest.parent (forest.parent element)).toUInt32 }).map ForestNode.weight =
        forest.nodes.map ForestNode.weight := by
      apply Array.ext
      · simp
      · intro index _ _
        simp only [Array.getElem_map, Array.getElem_set]
        split
        · rename_i here
          subst here
          rfl
        · rfl
    simp only [totalWeight, same]
  · rfl

/-- An element that is no root lies strictly below its parent's parent. -/
theorem weight_lt_weight_parent (forest : Forest) (element : Nat)
    (notRoot : forest.parent element ≠ element) :
    forest.weight element < forest.weight (forest.parent (forest.parent element)) := by
  have step := forest.weightRises element notRoot
  by_cases root : forest.parent (forest.parent element) = forest.parent element
  · rw [root]; exact step
  · exact Nat.lt_trans step (forest.weightRises _ root)

/-- The root above an element, and the forest with the walked path halved. -/
def find (forest : Forest) (element : Nat) : Nat × Forest :=
  if forest.parent element = element then (element, forest)
  else (forest.halve element).find (forest.parent (forest.parent element))
termination_by forest.totalWeight - forest.weight element
decreasing_by
  rename_i notRoot
  have rises := forest.weight_lt_weight_parent element notRoot
  have bound := forest.weight_le_totalWeight (forest.parent (forest.parent element))
  rw [totalWeight_halve, weight_halve]
  omega

theorem size_find (forest : Forest) (element : Nat) :
    (forest.find element).2.size = forest.size := by
  induction forest, element using find.induct with
  | case1 forest element root => rw [find]; simp [root]
  | case2 forest element notRoot inductionHypothesis =>
      rw [find]; simp only [notRoot, if_false, inductionHypothesis, size_halve]

theorem count_find (forest : Forest) (element other : Nat) :
    (forest.find element).2.count other = forest.count other := by
  induction forest, element using find.induct with
  | case1 forest element root => rw [find]; simp [root]
  | case2 forest element notRoot inductionHypothesis =>
      rw [find]; simp only [notRoot, if_false, inductionHypothesis, count_halve]

/-- A walk leaves every root a root. -/
theorem parent_find_of_root (forest : Forest) (element other : Nat)
    (root : forest.parent other = other) :
    (forest.find element).2.parent other = other := by
  induction forest, element using find.induct with
  | case1 forest element isRoot => rw [find]; simp [isRoot, root]
  | case2 forest element notRoot inductionHypothesis =>
      rw [find]
      simp only [notRoot, if_false]
      apply inductionHypothesis
      rw [parent_halve]
      split
      · rename_i same
        exact absurd (same ▸ root) notRoot
      · exact root

/-- A walk ends in a root of the forest that it leaves. -/
theorem parent_find (forest : Forest) (element : Nat) :
    (forest.find element).2.parent (forest.find element).1 = (forest.find element).1 := by
  induction forest, element using find.induct with
  | case1 forest element root => rw [find]; simp [root]
  | case2 forest element notRoot inductionHypothesis =>
      rw [find]; simp only [notRoot, if_false]; exact inductionHypothesis

/-- The first one of two roots is still one when the second is found. -/
theorem parent_first (forest : Forest) (first second : Nat) :
    ((forest.find first).2.find second).2.parent (forest.find first).1 = (forest.find first).1 :=
  parent_find_of_root _ second _ (forest.parent_find first)

/-- The first root takes the second one under it, and counts the elements of both sets. -/
def attach (forest : Forest) (root child : Nat) (rootInRange : root < forest.nodes.size)
    (childInRange : child < forest.nodes.size) (isRoot : forest.parent root = root) : Forest :=
  have word : root < UInt32.size := isRoot ▸ parentIn_lt rootInRange
  have named : root.toUInt32.toNat = root := toNat_toUInt32 word
  have rootNamed : forest.nodes[root].parent.toNat = root := by
    simpa [parent, parentIn, rootInRange] using isRoot
  have sameRoot : forest.nodes[root].weight = weightIn forest.nodes root := by
    simp [weightIn, rootInRange]
  have sameChild : forest.nodes[child].weight = weightIn forest.nodes child := by
    simp [weightIn, childInRange]
  have positive := forest.weightPositive root rootInRange word
  { nodes :=
      (forest.nodes.set child { forest.nodes[child] with parent := root.toUInt32 }).set root
        { forest.nodes[root] with
          count := forest.nodes[root].count + forest.nodes[child].count
          weight := forest.nodes[root].weight + forest.nodes[child].weight }
        (by simpa using rootInRange)
    parentInRange := by
      intro other otherInRange
      have step := forest.parentInRange
      simp only [Array.size_set, parentIn_set, named, rootNamed] at *
      grind
    weightPositive := by
      intro other otherInRange otherWord
      have others := forest.weightPositive
      simp only [Array.size_set, weightIn_set, sameRoot, sameChild] at *
      grind
    weightRises := by
      intro other notRoot
      have rises := forest.weightRises
      simp only [parentIn_set, weightIn_set, sameRoot, sameChild, named, rootNamed] at *
      grind }

/-- The sets of two roots become one. The root with the larger count stays, the first one on a
tie. -/
def link (forest : Forest) (left right : Nat) (leftIsRoot : forest.parent left = left)
    (rightIsRoot : forest.parent right = right) : Nat × Forest :=
  if left = right then (left, forest)
  else if inRange : left < forest.nodes.size ∧ right < forest.nodes.size then
    if forest.count right ≤ forest.count left then
      (left, forest.attach left right inRange.1 inRange.2 leftIsRoot)
    else (right, forest.attach right left inRange.2 inRange.1 rightIsRoot)
  else (left, forest)

/-- The sets of two elements become one. -/
def union (forest : Forest) (first second : Nat) : Nat × Forest :=
  let left := forest.find first
  let right := left.2.find second
  right.2.link left.1 right.1
    (forest.parent_first first second) (left.2.parent_find second)

/-- The number of elements in the set of an element. -/
def setSize (forest : Forest) (element : Nat) : Nat × Forest :=
  let (root, found) := forest.find element
  ((found.count root).toNat, found)

theorem size_attach (forest : Forest) (root child : Nat) (rootInRange : root < forest.nodes.size)
    (childInRange : child < forest.nodes.size) (isRoot : forest.parent root = root) :
    (forest.attach root child rootInRange childInRange isRoot).size = forest.size := by
  simp [attach, size]

theorem size_link (forest : Forest) (left right : Nat) (leftIsRoot : forest.parent left = left)
    (rightIsRoot : forest.parent right = right) :
    (forest.link left right leftIsRoot rightIsRoot).2.size = forest.size := by
  unfold link
  repeat' split
  all_goals simp only [size_attach]

theorem size_union (forest : Forest) (first second : Nat) :
    (forest.union first second).2.size = forest.size := by
  rw [union, size_link, size_find, size_find]

theorem size_singletons (count : Nat) : (singletons count).size = count := Array.size_ofFn

theorem size_push (forest : Forest) : forest.push.size = forest.size + 1 := by
  simp [push, size]

theorem size_reset (forest : Forest) : forest.reset.size = forest.size := size_singletons _

end Forest

end HingeLoss
