import HingeLoss.Page.Fault

/-! A pool of term slots that are allocated once and filled again for every page. -/

namespace HingeLoss

structure TermPool where
  slots : Array (Term Single)
  count : Nat
  capacity : Nat
  countLeSlots : count ≤ slots.size

namespace TermPool

def ofCapacity (capacity : Nat) : TermPool := ⟨#[], 0, capacity, Nat.le_refl 0⟩

instance : Inhabited TermPool := ⟨ofCapacity 0⟩

def isEmpty (pool : TermPool) : Bool := pool.count == 0

def isFull (pool : TermPool) : Bool := pool.capacity ≤ pool.count

/-- The terms of the slots in use, in order. -/
def terms (pool : TermPool) : List (Term Single) := pool.slots.toList.take pool.count

def get? (pool : TermPool) (index : Nat) : Option (Term Single) :=
  if index < pool.count then pool.slots[index]? else none

/-- No slot is in use any more. -/
def clear (pool : TermPool) : TermPool := { pool with count := 0, countLeSlots := Nat.zero_le _ }

def overflow (pool : TermPool) : PageFault := .poolOverflow (pool.count + 1) pool.capacity

/-- One more slot is in use, blank if it is new. -/
def take (pool : TermPool) : TermPool :=
  if inRange : pool.count < pool.slots.size then
    { pool with count := pool.count + 1, countLeSlots := inRange }
  else
    { pool with
      slots := pool.slots.push Term.blank
      count := pool.count + 1
      countLeSlots := by
        have := pool.countLeSlots
        rw [Array.size_push]
        omega }

/-- The slot handed out next still holds what it held before. -/
def nextSlot (pool : TermPool) : Except PageFault (Term Single × TermPool) :=
  if pool.isFull then .error pool.overflow
  else .ok (pool.slots.getD pool.count Term.blank, pool.take)

/-- The last slot in use takes a term. -/
def fill (pool : TermPool) (term : Term Single) : TermPool :=
  { pool with
    slots := pool.slots.setIfInBounds (pool.count - 1) term
    countLeSlots := by
      rw [Array.size_setIfInBounds]
      exact pool.countLeSlots }

/-- The next slot takes a term. -/
def push (pool : TermPool) (term : Term Single) : Except PageFault TermPool :=
  if pool.isFull then .error pool.overflow else .ok (pool.take.fill term)

/-- Every live term changes. -/
def mapLive (pool : TermPool) (change : Term Single → Term Single) : TermPool :=
  { pool with
    slots := pool.slots.mapIdx fun index term => if index < pool.count then change term else term
    countLeSlots := by
      rw [Array.size_mapIdx]
      exact pool.countLeSlots }

end TermPool

end HingeLoss
