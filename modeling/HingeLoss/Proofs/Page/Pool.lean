import HingeLoss.Page.Pool

/-! What a pool does, seen through its live terms. -/

namespace HingeLoss

namespace TermPool

@[simp] theorem length_terms (pool : TermPool) : pool.terms.length = pool.count := by
  have := pool.countLeSlots
  simp only [terms, List.length_take, Array.length_toList]
  omega

theorem get?_eq (pool : TermPool) (index : Nat) : pool.get? index = pool.terms[index]? := by
  simp only [get?, terms, List.getElem?_take, Array.getElem?_toList]

@[simp] theorem terms_clear (pool : TermPool) : pool.clear.terms = [] := by
  simp [clear, terms]

@[simp] theorem capacity_clear (pool : TermPool) : pool.clear.capacity = pool.capacity := rfl

@[simp] theorem count_clear (pool : TermPool) : pool.clear.count = 0 := rfl

@[simp] theorem terms_ofCapacity (capacity : Nat) : (ofCapacity capacity).terms = [] := rfl

@[simp] theorem capacity_take (pool : TermPool) : pool.take.capacity = pool.capacity := by
  unfold take
  split <;> rfl

@[simp] theorem count_take (pool : TermPool) : pool.take.count = pool.count + 1 := by
  unfold take
  split <;> rfl

@[simp] theorem capacity_fill (pool : TermPool) (term : Term Single) :
    (pool.fill term).capacity = pool.capacity := rfl

@[simp] theorem count_fill (pool : TermPool) (term : Term Single) :
    (pool.fill term).count = pool.count := rfl

/-- A slot that is taken and filled adds one live term, whether it is new or used before. -/
@[simp] theorem terms_take_fill (pool : TermPool) (term : Term Single) :
    (pool.take.fill term).terms = pool.terms ++ [term] := by
  have := pool.countLeSlots
  apply List.ext_getElem?
  intro index
  unfold take
  split
  · rename_i inRange
    simp only [fill, terms, List.getElem?_append, List.getElem?_take, List.length_take,
      Array.length_toList, Array.getElem?_toList, Array.getElem?_setIfInBounds]
    grind
  · rename_i outside
    simp only [fill, terms, List.getElem?_append, List.getElem?_take, List.length_take,
      Array.length_toList, Array.getElem?_toList, Array.getElem?_setIfInBounds, Array.size_push,
      Array.getElem?_push]
    grind

theorem push_of_room {pool : TermPool} (room : pool.isFull = false) (term : Term Single) :
    pool.push term = .ok (pool.take.fill term) := by
  simp [push, room]

theorem isEmpty_iff (pool : TermPool) : pool.isEmpty = true ↔ pool.terms = [] := by
  rw [← List.length_eq_zero_iff, length_terms, isEmpty, beq_iff_eq]

@[simp] theorem terms_mapLive (pool : TermPool) (change : Term Single → Term Single) :
    (pool.mapLive change).terms = pool.terms.map change := by
  apply List.ext_getElem?
  intro index
  simp only [mapLive, terms, List.getElem?_take, List.getElem?_map, Array.getElem?_toList,
    Array.getElem?_mapIdx]
  split <;> simp [*]

end TermPool

end HingeLoss
