import HingeLoss.Proofs.Page.File
import HingeLoss.Proofs.Paged.Recency
import HingeLoss.Proofs.Store.Rounds
import Mathlib.Data.List.Perm.Basic

/-! Pages in slots with ticks, which hold the recent pages in the order that falling ticks give. -/

namespace HingeLoss

structure PageSlot where
  page : Nat
  terms : Array (Term Single)
  lastUsed : Nat

def PageSlot.held (slot : PageSlot) : Nat × Array (Term Single) := (slot.page, slot.terms)

structure PageSlots where
  capacity : Nat
  slots : List PageSlot
  tick : Nat

/-- What can be done with pages in memory. A page that is entered is read if it is missing, with the
terms of its file or in vain. -/
inductive CacheCall where
  | enter (page : Nat) (read : Option (Array (Term Single)))
  | reweigh (rule : RuleId) (weight : Weight Single)
  | clear

/-- The terms of a page that has been entered. -/
inductive CacheAnswer where
  | hit (terms : Array (Term Single))
  | miss (terms : Array (Term Single))
  | none

namespace PageSlots

def ofCapacity (capacity : Nat) : PageSlots := ⟨capacity, [], 0⟩

/-- The slot of a page. It has been used last then. -/
def lookup (cache : PageSlots) (page : Nat) : Option Nat × PageSlots :=
  let tick := cache.tick + 1
  match cache.slots.findIdx? fun slot => slot.page = page with
  | none => (none, { cache with tick })
  | some index =>
      (some index, { cache with
        tick
        slots := cache.slots.modify index fun slot => { slot with lastUsed := tick } })

/-- The first of the slots with the lowest tick. -/
def oldest : List PageSlot → Nat
  | [] => 0
  | slot :: others =>
      if others.all fun other => slot.lastUsed ≤ other.lastUsed then 0 else oldest others + 1

/-- A page takes a new slot, or the oldest one if there is no room for more. -/
def insert (cache : PageSlots) (page : Nat) (terms : Array (Term Single)) : Nat × PageSlots :=
  let tick := cache.tick + 1
  if cache.slots.length < cache.capacity then
    (cache.slots.length, { cache with tick, slots := cache.slots ++ [⟨page, terms, tick⟩] })
  else
    let index := oldest cache.slots
    (index, { cache with tick, slots := cache.slots.set index ⟨page, terms, tick⟩ })

def termsAt (cache : PageSlots) (index : Nat) : Array (Term Single) :=
  match cache.slots[index]? with
  | some slot => slot.terms
  | none => #[]

def respond (cache : PageSlots) : CacheCall → CacheAnswer × PageSlots
  | .enter page read =>
      match cache.lookup page with
      | (some index, cache) => (.hit (cache.termsAt index), cache)
      | (none, cache) =>
          match read with
          | none => (.none, cache)
          | some terms =>
              let (index, cache) := cache.insert page terms
              (.miss (cache.termsAt index), cache)
  | .reweigh rule weight =>
      (.none, { cache with
        slots := cache.slots.map fun slot =>
          { slot with terms := slot.terms.map (Term.reweigh rule weight) } })
  | .clear => (.none, ofCapacity cache.capacity)

end PageSlots

def RecentPages.respond (recent : RecentPages) : CacheCall → CacheAnswer × RecentPages
  | .enter page read =>
      match recent.terms? page with
      | some terms => (.hit terms, recent.use page terms)
      | none =>
          match read with
          | none => (.none, recent)
          | some terms => (.miss terms, recent.use page terms)
  | .reweigh rule weight => (.none, recent.reweigh rule weight)
  | .clear => (.none, recent.clear)

namespace PageSlots

variable {cache : PageSlots} {recent : RecentPages}

/-- The slots hold the recent pages. By falling ticks they come in the same order. -/
structure Tracks (cache : PageSlots) (recent : RecentPages) : Prop where
  capacity : recent.capacity = cache.capacity
  positive : 0 < cache.capacity
  room : cache.slots.length ≤ cache.capacity
  distinct : (cache.slots.map PageSlot.page).Nodup
  past : ∀ slot ∈ cache.slots, slot.lastUsed ≤ cache.tick
  ordered : ∃ order : List PageSlot, order.Perm cache.slots ∧
    order.Pairwise (fun later earlier => earlier.lastUsed < later.lastUsed) ∧
    recent.pages = order.map PageSlot.held

theorem tracks_ofCapacity {capacity : Nat} (positive : 0 < capacity) :
    Tracks (ofCapacity capacity) (.ofCapacity capacity) where
  capacity := rfl
  positive := positive
  room := Nat.zero_le _
  distinct := List.nodup_nil
  past := by simp [ofCapacity]
  ordered := ⟨[], .nil, .nil, rfl⟩

theorem Tracks.raise (tracks : cache.Tracks recent) :
    Tracks { cache with tick := cache.tick + 1 } recent :=
  { tracks with past := fun slot member => Nat.le_succ_of_le (tracks.past slot member) }

/-- A page is found in a slot exactly if it is a recent one. -/
theorem Tracks.mem_pages (tracks : cache.Tracks recent) (held : Nat × Array (Term Single)) :
    held ∈ recent.pages ↔ ∃ slot ∈ cache.slots, slot.held = held := by
  obtain ⟨order, perm, -, pages⟩ := tracks.ordered
  rw [pages, List.mem_map]
  exact exists_congr fun slot => and_congr_left fun _ => perm.mem_iff

theorem oldest_spec {slots : List PageSlot} (some : slots ≠ []) :
    ∃ inside : oldest slots < slots.length,
      ∀ slot ∈ slots, slots[oldest slots].lastUsed ≤ slot.lastUsed := by
  induction slots with
  | nil => exact absurd rfl some
  | cons first others inductionHypothesis =>
      by_cases lowest : (others.all fun other => first.lastUsed ≤ other.lastUsed) = true
      · have index : oldest (first :: others) = 0 := if_pos lowest
        refine ⟨by rw [index]; exact Nat.succ_pos _, ?_⟩
        simp only [index]
        simpa using lowest
      · have index : oldest (first :: others) = oldest others + 1 := if_neg lowest
        obtain ⟨other, member, lower⟩ : ∃ other ∈ others, other.lastUsed < first.lastUsed := by
          simpa using lowest
        obtain ⟨inside, least⟩ := inductionHypothesis (List.ne_nil_of_mem member)
        refine ⟨by rw [index]; exact Nat.succ_lt_succ inside, ?_⟩
        simp only [index, List.getElem_cons_succ]
        refine List.forall_mem_cons.mpr ⟨?_, least⟩
        exact (least other member).trans lower.le

/-- A slot that is taken anew holds the page used last. -/
theorem Tracks.replace (tracks : cache.Tracks recent) {index : Nat}
    (inside : index < cache.slots.length) {first last : List PageSlot}
    (perm : (first ++ cache.slots[index] :: last).Perm cache.slots)
    (falling : (first ++ cache.slots[index] :: last).Pairwise fun later earlier =>
      earlier.lastUsed < later.lastUsed)
    {page : Nat} {terms : Array (Term Single)} (fresh : page ∉ (first ++ last).map PageSlot.page)
    {after : RecentPages} (capacity : after.capacity = recent.capacity)
    (pages : after.pages = (page, terms) :: (first ++ last).map PageSlot.held) :
    Tracks { cache with
      tick := cache.tick + 1
      slots := cache.slots.set index ⟨page, terms, cache.tick + 1⟩ } after := by
  let slot : PageSlot := ⟨page, terms, cache.tick + 1⟩
  have others : (first ++ last).Perm (cache.slots.eraseIdx index) := by
    have taken := List.getElem_cons_eraseIdx_perm inside
    exact ((List.perm_middle.symm.trans perm).trans taken.symm).cons_inv
  have replaced : (slot :: (first ++ last)).Perm (cache.slots.set index slot) := by
    have still : index < (cache.slots.set index slot).length := by simpa using inside
    have taken := List.getElem_cons_eraseIdx_perm still
    rw [List.getElem_set_self, List.eraseIdx_set_eq] at taken
    exact (others.cons slot).trans taken
  have old (other : PageSlot) (member : other ∈ first ++ last) : other ∈ cache.slots :=
    perm.mem_iff.mp (List.perm_middle.mem_iff.mpr (List.mem_cons_of_mem _ member))
  have sublist : (first ++ last).Sublist (first ++ cache.slots[index] :: last) :=
    (List.sublist_cons_self _ _).append_left first
  refine {
    capacity := capacity.trans tracks.capacity
    positive := tracks.positive
    room := by simpa using tracks.room
    distinct := ?_
    past := fun other member => ?_
    ordered := ⟨slot :: (first ++ last), replaced, ?_, pages⟩ }
  · refine (replaced.map PageSlot.page).nodup_iff.mp (List.nodup_cons.mpr ⟨fresh, ?_⟩)
    exact ((perm.map PageSlot.page).nodup_iff.mpr tracks.distinct).sublist (sublist.map _)
  · rcases List.mem_cons.mp (replaced.mem_iff.mpr member) with rfl | earlier
    · exact Nat.le_refl _
    · exact Nat.le_succ_of_le (tracks.past other (old other earlier))
  · refine List.pairwise_cons.mpr ⟨fun other member => ?_, falling.sublist sublist⟩
    exact Nat.lt_succ_of_le (tracks.past other (old other member))

/-- With every page at one place only, a page is found with the terms that stand there. -/
theorem terms?_of_mem {recent : RecentPages} {page : Nat} {terms : Array (Term Single)}
    (distinct : (recent.pages.map Prod.fst).Nodup) (member : (page, terms) ∈ recent.pages) :
    recent.terms? page = some terms := by
  have some := RecentPages.isSome_terms?_iff.mpr (List.mem_map_of_mem member)
  obtain ⟨found, lookup⟩ := Option.isSome_iff_exists.mp some
  have same := List.inj_on_of_nodup_map distinct (RecentPages.mem_of_terms? lookup) member rfl
  rw [lookup, (Prod.mk.inj same).2]

theorem Tracks.nodup (tracks : cache.Tracks recent) : (recent.pages.map Prod.fst).Nodup := by
  obtain ⟨order, perm, -, pages⟩ := tracks.ordered
  rw [pages, List.map_map]
  exact (perm.map PageSlot.page).nodup_iff.mpr tracks.distinct

/-- A page that is found in a slot is used. -/
theorem Tracks.hit (tracks : cache.Tracks recent) {page index : Nat}
    (found : cache.slots.findIdx? (fun slot => slot.page = page) = some index) :
    ∃ inside : index < cache.slots.length,
      recent.terms? page = some cache.slots[index].terms ∧
        Tracks { cache with
          tick := cache.tick + 1
          slots := cache.slots.set index ⟨page, cache.slots[index].terms, cache.tick + 1⟩ }
          (recent.use page cache.slots[index].terms) := by
  obtain ⟨inside, same, -⟩ := List.findIdx?_eq_some_iff_getElem.mp found
  replace same : cache.slots[index].page = page := by simpa using same
  obtain ⟨order, perm, falling, pages⟩ := tracks.ordered
  obtain ⟨first, last, rfl⟩ :=
    List.append_of_mem (perm.mem_iff.mpr (List.getElem_mem inside))
  have distinct := (perm.map PageSlot.page).nodup_iff.mpr tracks.distinct
  rw [List.map_append, List.map_cons, List.nodup_middle, same, ← List.map_append,
    List.nodup_cons] at distinct
  have others : recent.pages.filter (fun held => held.1 ≠ page) =
      (first ++ last).map PageSlot.held := by
    have keep (part : List PageSlot) (within : ∀ slot ∈ part, slot ∈ first ++ last) :
        (part.map PageSlot.held).filter (fun held => held.1 ≠ page) = part.map PageSlot.held := by
      refine List.filter_eq_self.mpr fun held member => decide_eq_true ?_
      obtain ⟨slot, old, rfl⟩ := List.mem_map.mp member
      rintro rfl
      exact distinct.1 (List.mem_map.mpr ⟨slot, within slot old, rfl⟩)
    rw [pages, List.map_append, List.map_append, List.map_cons, List.filter_append,
      List.filter_cons_of_neg (by simp [PageSlot.held, same]),
      keep first fun _ => List.mem_append_left _, keep last fun _ => List.mem_append_right _]
  have room : (first ++ last).length + 1 ≤ recent.capacity := by
    have length := perm.length_eq
    simp only [List.length_append, List.length_cons] at length ⊢
    have := tracks.capacity
    have := tracks.room
    omega
  refine ⟨inside, ?_, tracks.replace inside perm falling distinct.1 rfl ?_⟩
  · apply terms?_of_mem tracks.nodup
    exact (tracks.mem_pages _).mpr ⟨_, List.getElem_mem inside, by rw [PageSlot.held, same]⟩
  · rw [RecentPages.use, others]
    apply List.take_of_length_le
    simpa using room

/-- A page that is in no slot is not a recent one. -/
theorem Tracks.missing (tracks : cache.Tracks recent) {page : Nat}
    (absent : cache.slots.findIdx? (fun slot => slot.page = page) = none) :
    recent.terms? page = none ∧ ∀ slot ∈ cache.slots, slot.page ≠ page := by
  have others (slot : PageSlot) (member : slot ∈ cache.slots) : slot.page ≠ page := by
    simpa using List.findIdx?_eq_none_iff.mp absent slot member
  refine ⟨?_, others⟩
  cases found : recent.terms? page with
  | none => rfl
  | some terms =>
      obtain ⟨slot, member, same⟩ := (tracks.mem_pages _).mp (RecentPages.mem_of_terms? found)
      exact absurd (congrArg Prod.fst same) (others slot member)

/-- A page that is put into a slot is used. -/
theorem Tracks.insert (tracks : cache.Tracks recent) {page : Nat} (terms : Array (Term Single))
    (absent : ∀ slot ∈ cache.slots, slot.page ≠ page) :
    (cache.insert page terms).2.termsAt (cache.insert page terms).1 = terms ∧
      (cache.insert page terms).2.Tracks (recent.use page terms) := by
  obtain ⟨order, perm, falling, pages⟩ := tracks.ordered
  have unlisted (part : List PageSlot) (within : ∀ slot ∈ part, slot ∈ order) :
      page ∉ part.map PageSlot.page := by
    intro member
    obtain ⟨slot, old, same⟩ := List.mem_map.mp member
    exact absent slot (perm.mem_iff.mp (within slot old)) same
  have others : recent.pages.filter (fun held => held.1 ≠ page) = order.map PageSlot.held := by
    rw [pages]
    refine List.filter_eq_self.mpr fun held member => decide_eq_true ?_
    obtain ⟨slot, old, rfl⟩ := List.mem_map.mp member
    exact absent slot (perm.mem_iff.mp old)
  have length := perm.length_eq
  have capacity := tracks.capacity
  by_cases room : cache.slots.length < cache.capacity
  · let slot : PageSlot := ⟨page, terms, cache.tick + 1⟩
    have taken : cache.insert page terms = (cache.slots.length,
        { cache with tick := cache.tick + 1, slots := cache.slots ++ [slot] }) := if_pos room
    rw [taken]
    refine ⟨by simp [termsAt, slot], ?_⟩
    have added : (slot :: order).Perm (cache.slots ++ [slot]) :=
      (perm.cons slot).trans (List.perm_append_singleton slot cache.slots).symm
    refine {
      capacity := capacity
      positive := tracks.positive
      room := by simpa [Nat.succ_le_iff] using room
      distinct := (added.map PageSlot.page).nodup_iff.mp (List.nodup_cons.mpr
        ⟨unlisted order fun _ => id, (perm.map PageSlot.page).nodup_iff.mpr tracks.distinct⟩)
      past := fun other member => ?_
      ordered := ⟨slot :: order, added, List.pairwise_cons.mpr ⟨fun other member =>
        Nat.lt_succ_of_le (tracks.past other (perm.mem_iff.mp member)), falling⟩, ?_⟩ }
    · rcases List.mem_append.mp member with old | new
      · exact Nat.le_succ_of_le (tracks.past other old)
      · rw [List.mem_singleton.mp new]
    · rw [RecentPages.use, others]
      apply List.take_of_length_le
      simp only [List.length_cons, List.length_map]
      omega
  · -- All slots are taken, and the one with the lowest tick holds the last of the recent pages.
    have full : cache.slots.length = cache.capacity :=
      Nat.le_antisymm tracks.room (Nat.not_lt.mp room)
    have some : cache.slots ≠ [] := by
      rw [← List.length_pos_iff, full]
      exact tracks.positive
    obtain ⟨inside, least⟩ := oldest_spec some
    have taken : cache.insert page terms = (oldest cache.slots, { cache with
        tick := cache.tick + 1
        slots := cache.slots.set (oldest cache.slots) ⟨page, terms, cache.tick + 1⟩ }) :=
      if_neg room
    obtain ⟨first, last, rfl⟩ : ∃ first last, order = first ++ [last] :=
      ⟨_, _, (List.dropLast_concat_getLast fun none => some (by simpa [none] using perm)).symm⟩
    have evicted : cache.slots[oldest cache.slots] = last := by
      have member := perm.mem_iff.mpr (List.getElem_mem inside)
      rcases List.mem_append.mp member with earlier | here
      · have higher := (List.pairwise_append.mp falling).2.2 _ earlier last List.mem_cons_self
        have lower := least last (perm.mem_iff.mp (List.mem_append_right _ List.mem_cons_self))
        exact absurd higher (Nat.not_lt.mpr lower)
      · exact List.mem_singleton.mp here
    rw [taken]
    refine ⟨by simp [termsAt, inside], ?_⟩
    refine @Tracks.replace cache recent tracks _ inside first [] (by rwa [evicted])
      (by rwa [evicted]) page terms ?_ _ rfl ?_
    · rw [List.append_nil]
      exact unlisted first fun _ => List.mem_append_left _
    · rw [List.length_append, List.length_singleton] at length
      have exact : recent.capacity = first.length + 1 := by omega
      rw [RecentPages.use, others, exact, List.take_succ_cons, List.map_append, List.append_nil,
        List.take_left' (List.length_map _)]

theorem Tracks.reweigh (tracks : cache.Tracks recent) (rule : RuleId) (weight : Weight Single) :
    (cache.respond (.reweigh rule weight)).2.Tracks (recent.reweigh rule weight) := by
  let change (slot : PageSlot) : PageSlot :=
    { slot with terms := slot.terms.map (Term.reweigh rule weight) }
  obtain ⟨order, perm, falling, pages⟩ := tracks.ordered
  refine {
    capacity := tracks.capacity
    positive := tracks.positive
    room := by simpa [PageSlots.respond] using tracks.room
    distinct := ?_
    past := fun slot member => ?_
    ordered := ⟨order.map change, perm.map change, List.pairwise_map.mpr falling, ?_⟩ }
  · simpa [PageSlots.respond, Function.comp_def] using tracks.distinct
  · obtain ⟨before, old, rfl⟩ := List.mem_map.mp member
    exact tracks.past before old
  · simp [RecentPages.reweigh, pages, change, PageSlot.held]

/-- Slots and recent pages that go together answer alike, and go together afterwards. -/
theorem Tracks.respond (tracks : cache.Tracks recent) (call : CacheCall) :
    (cache.respond call).1 = (recent.respond call).1 ∧
      (cache.respond call).2.Tracks (recent.respond call).2 := by
  cases call with
  | reweigh rule weight => exact ⟨rfl, tracks.reweigh rule weight⟩
  | clear =>
      refine ⟨rfl, ?_⟩
      simp only [PageSlots.respond, RecentPages.respond, RecentPages.clear, tracks.capacity]
      exact tracks_ofCapacity tracks.positive
  | enter page read =>
      simp only [PageSlots.respond, RecentPages.respond, lookup]
      cases found : cache.slots.findIdx? fun slot => slot.page = page with
      | some index =>
          obtain ⟨inside, kept, used⟩ := tracks.hit found
          have same : cache.slots[index].page = page := by
            simpa using (List.findIdx?_eq_some_iff_getElem.mp found).2.1
          have modified : (cache.slots.modify index fun slot =>
              { slot with lastUsed := cache.tick + 1 }) =
              cache.slots.set index ⟨page, cache.slots[index].terms, cache.tick + 1⟩ := by
            simp [List.modify_eq_set_getElem?, inside, same]
          simp only [kept, modified]
          exact ⟨by simp [termsAt, inside], used⟩
      | none =>
          obtain ⟨unknown, others⟩ := tracks.missing found
          simp only [unknown]
          cases read with
          | none => exact ⟨rfl, tracks.raise⟩
          | some terms =>
              obtain ⟨held, used⟩ := tracks.raise.insert terms others
              exact ⟨congrArg CacheAnswer.miss held, used⟩

/-- Slots with ticks answer as the recent pages do and hold the same, whatever is done. -/
theorem answers_alike {capacity : Nat} (positive : 0 < capacity) (calls : List CacheCall) :
    let slots := performAll PageSlots.respond (.ofCapacity capacity) calls
    let recent := performAll RecentPages.respond (.ofCapacity capacity) calls
    slots.1 = recent.1 ∧ (slots.2.slots.map PageSlot.held).Perm recent.2.pages := by
  have run (cache : PageSlots) (recent : RecentPages) (tracks : cache.Tracks recent) :
      (performAll PageSlots.respond cache calls).1 =
          (performAll RecentPages.respond recent calls).1 ∧
        (performAll PageSlots.respond cache calls).2.Tracks
          (performAll RecentPages.respond recent calls).2 := by
    induction calls generalizing cache recent with
    | nil => exact ⟨rfl, tracks⟩
    | cons call later inductionHypothesis =>
        obtain ⟨answer, after⟩ := tracks.respond call
        obtain ⟨answers, last⟩ := inductionHypothesis _ _ after
        rw [performAll_cons, performAll_cons, answer, answers]
        exact ⟨rfl, last⟩
  obtain ⟨answers, tracks⟩ := run _ _ (tracks_ofCapacity positive)
  obtain ⟨order, perm, -, pages⟩ := tracks.ordered
  exact ⟨answers, pages ▸ (perm.map PageSlot.held).symm⟩

end PageSlots

end HingeLoss
