import HingeLoss.Proofs.Page.Slot
import HingeLoss.Proofs.Store.Rounds

/-! Containers that are reached by index, and a pool that answers so as any pool does. -/

namespace HingeLoss

/-- An index that stands for nothing in the container that it points into. -/
inductive StrayIndex where
  | poolSlot (slot : Nat)
  | pageSize (page : Nat)
  | termOrder (place : Nat)
  | pageSlot (slot : Nat)
deriving DecidableEq

section Calls

variable {σ τ κ ρ : Type}

/-- Calls that follow one another, with their answers in the same order, unless an index strays. -/
def performChecked (respond : σ → κ → Except StrayIndex (ρ × σ)) (state : σ) :
    List κ → Except StrayIndex (List ρ × σ)
  | [] => .ok ([], state)
  | call :: later =>
      match respond state call with
      | .error stray => .error stray
      | .ok (answer, state) =>
          match performChecked respond state later with
          | .error stray => .error stray
          | .ok (answers, state) => .ok (answer :: answers, state)

/-- If no index of a call strays and the states still go together afterwards, then no index of all
calls strays, and the answers are those of the calls that are not checked. -/
theorem performChecked_ok {respond : σ → κ → ρ × σ} {checked : τ → κ → Except StrayIndex (ρ × τ)}
    {mirrors : σ → τ → Prop} {sound : ρ → Prop}
    (step : ∀ state other call, mirrors state other →
      sound (respond state call).1 ∧ ∃ after,
        checked other call = .ok ((respond state call).1, after) ∧
          mirrors (respond state call).2 after)
    {state : σ} {other : τ} (same : mirrors state other) (calls : List κ) :
    (∀ answer ∈ (performAll respond state calls).1, sound answer) ∧ ∃ last,
      performChecked checked other calls = .ok ((performAll respond state calls).1, last) ∧
        mirrors (performAll respond state calls).2 last := by
  induction calls generalizing state other with
  | nil => exact ⟨by simp [performAll], other, rfl, same⟩
  | cons call later inductionHypothesis =>
      obtain ⟨answered, after, responds, stillSame⟩ := step state other call same
      obtain ⟨sound, last, goesOn, lastSame⟩ := inductionHypothesis stillSame
      refine ⟨List.forall_mem_cons.mpr ⟨answered, sound⟩, last, ?_, lastSame⟩
      simp only [performChecked, responds, goesOn, performAll_cons]

end Calls

/-- The slots of a pool and the number of those in use. -/
structure SlotPool where
  slots : Array (Term Single)
  count : Nat
  capacity : Nat

/-- What can be asked of a pool. A slot that is handed out still holds a term, which is
overwritten. -/
inductive PoolCall where
  | push (term : Term Single)
  | overwriteNext (overwrite : Term Single → Term Single)
  | get (index : Nat)
  | terms
  | mapLive (change : Term Single → Term Single)
  | clear

inductive PoolAnswer where
  | filled (answer : Except PageFault Nat)
  | found (term : Option (Term Single))
  | live (terms : List (Term Single))
  | done

def TermPool.respond (pool : TermPool) : PoolCall → PoolAnswer × TermPool
  | .push term =>
      match pool.push term with
      | .error fault => (.filled (.error fault), pool)
      | .ok filled => (.filled (.ok pool.count), filled)
  | .overwriteNext overwrite =>
      match pool.nextSlot with
      | .error fault => (.filled (.error fault), pool)
      | .ok (slot, taken) => (.filled (.ok pool.count), taken.fill (overwrite slot))
  | .get index => (.found (pool.get? index), pool)
  | .terms => (.live pool.terms, pool)
  | .mapLive change => (.done, pool.mapLive change)
  | .clear => (.done, pool.clear)

namespace SlotPool

def ofCapacity (capacity : Nat) : SlotPool := ⟨#[], 0, capacity⟩

/-- The slots in use are the first ones. -/
def live (pool : SlotPool) : Except StrayIndex (List (Term Single)) :=
  if pool.count ≤ pool.slots.size then .ok (pool.slots.toList.take pool.count)
  else .error (.poolSlot pool.count)

/-- The slots with one more if all of them are in use. -/
def allocated (pool : SlotPool) : Array (Term Single) :=
  if pool.count = pool.slots.size then pool.slots.push Term.blank else pool.slots

/-- The slot behind those in use is overwritten. -/
def overwriteNext (pool : SlotPool) (overwrite : Term Single → Term Single) :
    Except StrayIndex (PoolAnswer × SlotPool) :=
  if pool.capacity ≤ pool.count then
    .ok (.filled (.error (.poolOverflow (pool.count + 1) pool.capacity)), pool)
  else
    match pool.allocated[pool.count]? with
    | none => .error (.poolSlot pool.count)
    | some slot =>
        .ok (.filled (.ok pool.count), { pool with
          slots := pool.allocated.setIfInBounds pool.count (overwrite slot)
          count := pool.count + 1 })

def respond (pool : SlotPool) : PoolCall → Except StrayIndex (PoolAnswer × SlotPool)
  | .push term => pool.overwriteNext fun _ => term
  | .overwriteNext overwrite => pool.overwriteNext overwrite
  | .get index => .ok (.found (if index < pool.count then pool.slots[index]? else none), pool)
  | .terms =>
      match pool.live with
      | .error stray => .error stray
      | .ok terms => .ok (.live terms, pool)
  | .mapLive change =>
      match pool.live with
      | .error stray => .error stray
      | .ok terms =>
          .ok (.done, { pool with
            slots := (terms.map change ++ pool.slots.toList.drop pool.count).toArray })
  | .clear => .ok (.done, { pool with count := 0 })

end SlotPool

namespace TermPool

variable (pool : TermPool)

/-- The pool without the proof that its slots in use are there. -/
def bare : SlotPool := ⟨pool.slots, pool.count, pool.capacity⟩

@[simp] theorem count_bare : pool.bare.count = pool.count := rfl

@[simp] theorem capacity_bare : pool.bare.capacity = pool.capacity := rfl

theorem live_bare : pool.bare.live = .ok pool.terms := if_pos pool.countLeSlots

theorem allocated_bare : pool.bare.allocated = pool.take.slots := by
  have counted := pool.countLeSlots
  by_cases used : pool.count = pool.slots.size
  · have grown : pool.bare.allocated = pool.slots.push Term.blank := if_pos used
    rw [grown, take, dif_neg (by omega)]
  · have kept : pool.bare.allocated = pool.slots := if_neg used
    rw [kept, take, dif_pos (by omega)]

/-- The next slot is there, and it is the one that is filled. -/
theorem overwriteNext_bare (overwrite : Term Single → Term Single) :
    pool.bare.overwriteNext overwrite =
      .ok ((pool.respond (.overwriteNext overwrite)).1,
        (pool.respond (.overwriteNext overwrite)).2.bare) := by
  by_cases full : pool.capacity ≤ pool.count
  · have overflows : pool.nextSlot = .error pool.overflow := if_pos (by simpa [isFull] using full)
    rw [respond, overflows]
    exact if_pos full
  · have next : pool.nextSlot = .ok (pool.slots.getD pool.count Term.blank, pool.take) :=
      if_neg (by simpa [isFull] using full)
    rw [respond, next]
    simp only [SlotPool.overwriteNext, capacity_bare, count_bare, full, if_false, allocated_bare,
      pool.slots_take]
    simp only [bare, fill, count_take, capacity_take, Nat.add_sub_cancel]

theorem push_eq (term : Term Single) :
    pool.respond (.push term) = pool.respond (.overwriteNext fun _ => term) := by
  simp only [respond, push, nextSlot]
  cases pool.isFull <;> rfl

theorem slots_mapLive (change : Term Single → Term Single) :
    (pool.mapLive change).slots =
      (pool.terms.map change ++ pool.slots.toList.drop pool.count).toArray := by
  have counted := pool.countLeSlots
  apply Array.ext_getElem?
  intro index
  simp only [mapLive, terms, Array.getElem?_mapIdx, List.getElem?_toArray, List.getElem?_append,
    List.length_map, List.length_take, Array.length_toList, List.getElem?_map, List.getElem?_take,
    List.getElem?_drop, Array.getElem?_toList, Nat.min_eq_left counted]
  split
  · rfl
  · rename_i behind
    rw [Nat.add_sub_cancel' (Nat.not_lt.mp behind)]
    simp

/-- No call reaches past the slots of a pool. -/
theorem respond_bare (call : PoolCall) :
    pool.bare.respond call = .ok ((pool.respond call).1, (pool.respond call).2.bare) := by
  cases call with
  | push term =>
      rw [push_eq]
      exact pool.overwriteNext_bare fun _ => term
  | overwriteNext overwrite => exact pool.overwriteNext_bare overwrite
  | get index => rfl
  | terms =>
      rw [SlotPool.respond, live_bare]
      rfl
  | mapLive change =>
      rw [SlotPool.respond, live_bare]
      simp only [respond, bare, slots_mapLive]
      rfl
  | clear => rfl

end TermPool

/-- Whatever is asked of a pool, no index into its slots strays. -/
theorem SlotPool.reaches_in_range (capacity : Nat) (calls : List PoolCall) :
    ∃ last, performChecked respond (ofCapacity capacity) calls =
      .ok ((performAll TermPool.respond (.ofCapacity capacity) calls).1, last) := by
  obtain ⟨-, last, reaches, -⟩ := @performChecked_ok _ _ _ _ TermPool.respond respond
    (fun pool bare => bare = pool.bare) (fun _ => True) (fun pool _ call same =>
      ⟨trivial, _, same ▸ pool.respond_bare call, rfl⟩) (.ofCapacity capacity) _ rfl calls
  exact ⟨last, reaches⟩

end HingeLoss
