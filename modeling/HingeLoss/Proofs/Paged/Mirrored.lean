import HingeLoss.Proofs.Paged.Request
import HingeLoss.Proofs.Paged.Resting

/-! Sweeps by index lend what sweeps of a list lend, and no index strays on the way. -/

namespace HingeLoss

namespace PageSlots

variable {cache after : PageSlots} {recent : RecentPages} {page index : Nat}

/-- The slots hold the recent pages, with room for as many. Without room for a page both are empty.
-/
structure Serves (cache : PageSlots) (recent : RecentPages) : Prop where
  capacity : recent.capacity = cache.capacity
  tracks : cache.capacity ≠ 0 → cache.Tracks recent
  empty : cache.capacity = 0 → cache.slots = [] ∧ recent.pages = []

theorem serves_ofCapacity (capacity : Nat) :
    Serves (ofCapacity capacity) (.ofCapacity capacity) where
  capacity := rfl
  tracks room := tracks_ofCapacity (Nat.pos_of_ne_zero room)
  empty _ := ⟨rfl, rfl⟩

theorem Tracks.serves (tracks : cache.Tracks recent) : cache.Serves recent where
  capacity := tracks.capacity
  tracks _ := tracks
  empty none := absurd none tracks.positive.ne'

/-- A page that is found has a slot. -/
theorem slot_of_lookup (looked : cache.lookup page = (some index, after)) :
    ∃ slot, after.slots[index]? = some slot := by
  unfold lookup at looked
  split at looked
  · cases looked
  · rename_i place
    cases looked
    obtain ⟨inside, -⟩ := List.findIdx?_eq_some_iff_getElem.mp place
    exact ⟨_, List.getElem?_eq_getElem (by simpa using inside)⟩

/-- The slot of a page holds the terms of the recent page, which is used last then. -/
theorem Serves.hit (serves : cache.Serves recent)
    (looked : cache.lookup page = (some index, after)) :
    recent.capacity ≠ 0 ∧ ∃ slot, after.slots[index]? = some slot ∧
      recent.terms? page = some slot.terms ∧ after.Serves (recent.use page slot.terms) := by
  obtain ⟨slot, held⟩ := slot_of_lookup looked
  have tracks : cache.Tracks recent := by
    refine serves.tracks fun none => ?_
    simp [lookup, (serves.empty none).1] at looked
  obtain ⟨answers, used⟩ := tracks.respond (.enter page none)
  simp only [respond, looked, RecentPages.respond, termsAt, held] at answers used
  refine ⟨tracks.capacity ▸ tracks.positive.ne', slot, held, ?_⟩
  cases kept : recent.terms? page with
  | none => simp [kept] at answers
  | some terms =>
      simp only [kept, CacheAnswer.hit.injEq] at answers used
      subst answers
      exact ⟨rfl, used.serves⟩

/-- A page without a slot is not a recent one. -/
theorem Serves.miss (serves : cache.Serves recent) (looked : cache.lookup page = (none, after)) :
    recent.terms? page = none ∧ after.Serves recent ∧ ∀ slot ∈ after.slots, slot.page ≠ page := by
  unfold lookup at looked
  split at looked
  · rename_i absent
    cases looked
    by_cases room : cache.capacity = 0
    · obtain ⟨noSlots, noPages⟩ := serves.empty room
      refine ⟨by rw [RecentPages.terms?, noPages, List.lookup_nil], { serves with
        tracks := fun some => absurd room some }, by simp [noSlots]⟩
    · have tracks := serves.tracks room
      obtain ⟨unknown, others⟩ := tracks.missing absent
      exact ⟨unknown, tracks.raise.serves, others⟩
  · cases looked

/-- A page that is put into a slot lies there. -/
theorem getElem?_insert (room : cache.capacity ≠ 0) (page : Nat) (terms : Array (Term Single)) :
    (cache.insert page terms).2.slots[(cache.insert page terms).1]? =
      some ⟨page, terms, cache.tick + 1⟩ := by
  unfold insert
  split
  · simp
  · rename_i full
    have some : cache.slots ≠ [] := by
      rw [← List.length_pos_iff]
      omega
    obtain ⟨inside, -⟩ := oldest_spec some
    simp [inside]

/-- A page that is put into a slot is used last then. -/
theorem Serves.insert (serves : cache.Serves recent) (room : cache.capacity ≠ 0)
    (absent : ∀ slot ∈ cache.slots, slot.page ≠ page) (terms : Array (Term Single)) :
    (cache.insert page terms).2.Serves (recent.use page terms) :=
  ((serves.tracks room).insert terms absent).2.serves

/-- Without room for a page none is kept. -/
theorem Serves.use (serves : cache.Serves recent) (noRoom : cache.capacity = 0) (page : Nat)
    (terms : Array (Term Single)) : cache.Serves (recent.use page terms) where
  capacity := serves.capacity
  tracks room := absurd noRoom room
  empty _ := by
    refine ⟨(serves.empty noRoom).1, ?_⟩
    rw [RecentPages.use, serves.capacity, noRoom, List.take_zero]

theorem Serves.reweigh (serves : cache.Serves recent) (rule : RuleId) (weight : Weight Single) :
    (cache.respond (.reweigh rule weight)).2.Serves (recent.reweigh rule weight) where
  capacity := serves.capacity
  tracks room := (serves.tracks room).reweigh rule weight
  empty none := by
    obtain ⟨noSlots, noPages⟩ := serves.empty none
    simp [respond, RecentPages.reweigh, noSlots, noPages]

theorem Serves.clear (serves : cache.Serves recent) :
    (cache.respond .clear).2.Serves recent.clear := by
  rw [RecentPages.clear, serves.capacity]
  exact serves_ofCapacity cache.capacity

end PageSlots

/-- As many slots of the pool are in use as the page holds terms. -/
theorem Page.count_of_read {directory : Path} {index held : Nat} {folder : FoundFolder}
    {pool filled : TermPool} {traffic counted : Traffic}
    (reading : read directory index folder pool traffic = (.ok held, filled, counted)) :
    filled.count = held := by
  unfold read at reading
  split at reading
  · cases reading
  · split at reading
    · cases reading
    · rename_i loaded
      cases reading
      exact count_of_load loaded

/-- An order that is gone through by place: the item that comes next, and those behind it. -/
theorem next_of_drop {α : Type} {order later : List α} {place : Nat} {item : α}
    (left : order.drop place = item :: later) :
    order[place]? = some item ∧ order.drop (place + 1) = later :=
  ⟨by rw [← List.head?_drop, left, List.head?_cons], by rw [← List.tail_drop, left, List.tail_cons]⟩

namespace IndexedStore

variable {indexed : IndexedStore} {store : PagedStore} {page : Nat} {folder : FoundFolder}

/-- The store goes through its sweeps by index and stands where another one stands. -/
structure Mirrors (indexed : IndexedStore) (store : PagedStore) : Prop where
  rest : indexed.rest = store.resting
  serves : indexed.cache.Serves store.recent
  pages : indexed.cursor.pageOrder.drop indexed.cursor.nextPage = store.cursor.pages
  terms : indexed.cursor.termOrder.drop indexed.cursor.nextTerm = store.cursor.terms
  source : store.phase = .ready → store.cursor.terms ≠ [] → ∀ position,
    indexed.cursor.source.term? store.pool indexed.cache position = store.currentTerm? position

/-- How a page is entered, on either side. The pages in memory still go together, and the place of
the terms is that of the page. -/
inductive Entered : Except (StoreFault Single) Unit × PagedStore →
    Except (StoreFault Single) (Nat × PageSource) × PagedStore × PageSlots → Prop
  | refused {fault : StoreFault Single} {after : PagedStore} {cache : PageSlots}
      (serves : cache.Serves after.recent) :
      Entered (.error fault, after) (.error fault, after.resting, cache)
  | entered {after : PagedStore} {cache : PageSlots} {source : PageSource}
      (serves : cache.Serves after.recent)
      (lends : ∀ position,
        source.term? after.pool cache position = after.currentTerm? position) :
      Entered (.ok (), after) (.ok (after.currentCount, source), after.resting, cache)

theorem entered_pool {after : PagedStore} {cache : PageSlots} (serves : cache.Serves after.recent)
    (noRoom : after.recent.capacity = 0) :
    Entered (.ok (), after) (.ok (after.pool.count, .pool), after.resting, cache) := by
  have fromPool : after.lendsFromPool = true := by simp [PagedStore.lendsFromPool, noRoom]
  have count : after.currentCount = after.pool.count := if_pos fromPool
  rw [← count]
  exact .entered serves fun position => (if_pos fromPool).symm

theorem entered_slot {after : PagedStore} {cache : PageSlots} {index : Nat} {slot : PageSlot}
    (serves : cache.Serves after.recent) (room : after.recent.capacity ≠ 0)
    (held : cache.slots[index]? = some slot) (current : after.recent.current = slot.terms) :
    Entered (.ok (), after) (.ok (slot.terms.size, .slot index), after.resting, cache) := by
  have fromSlot : ¬after.lendsFromPool = true := by simp [PagedStore.lendsFromPool, room]
  have count : after.currentCount = slot.terms.size := by
    rw [PagedStore.currentCount, if_neg fromSlot, current]
  rw [← count]
  refine .entered serves fun position => ?_
  rw [PagedStore.currentTerm?, if_neg fromSlot, current, PageSource.term?, held, Option.bind_some]

/-- A page that is read is put into a slot, or stays in the pool if there is no room for slots. -/
theorem readPage_entered (rest : indexed.rest = store.resting)
    (serves : indexed.cache.Serves store.recent)
    (absent : ∀ slot ∈ indexed.cache.slots, slot.page ≠ page)
    (inRange : page < store.pageSizes.size) (folder : FoundFolder) :
    ∃ outcome, indexed.readPage page folder = .ok outcome ∧
      Entered (store.readPage page folder) outcome := by
  have written : store.pageSizes[page]? = some (store.pageSizes.getD page 0) := by
    simp [Array.getD_eq_getD_getElem?, inRange]
  rw [store.readPage_eq, readPage, rest]
  simp only [PagedStore.directory_resting, PagedStore.pool_resting, PagedStore.traffic_resting,
    PagedStore.pageSizes_resting, PagedStore.override_resting, written]
  generalize reading : Page.read store.directory page folder store.pool store.traffic = read
  obtain ⟨_ | held, pool, traffic⟩ := read
  · exact ⟨_, rfl, .refused serves⟩
  · dsimp only
    by_cases differs : held ≠ store.pageSizes.getD page 0
    · rw [if_pos differs, if_pos differs]
      exact ⟨_, rfl, .refused serves⟩
    · rw [if_neg differs, if_neg differs]
      let filled := pool.mapLive store.override
      let after : PagedStore :=
        { store with
          traffic, pool := filled, recent := store.recent.use page filled.terms.toArray }
      have count : held = filled.count := (Page.count_of_read reading).symm
      by_cases noRoom : indexed.cache.capacity = 0
      · rw [if_pos noRoom, count]
        have alsoNone : store.recent.capacity = 0 := serves.capacity.trans noRoom
        exact ⟨_, rfl, @entered_pool after _ (serves.use noRoom page _) alsoNone⟩
      · have size : filled.count = filled.terms.toArray.size := by simp
        rw [if_neg noRoom, PageSlots.getElem?_insert noRoom, count, size]
        have room : store.recent.capacity ≠ 0 := serves.capacity ▸ noRoom
        exact ⟨_, rfl, @entered_slot after _ _ _ (serves.insert noRoom absent _) room
          (PageSlots.getElem?_insert noRoom page _) (RecentPages.current_use room page _)⟩

theorem enterPage_entered (rest : indexed.rest = store.resting)
    (serves : indexed.cache.Serves store.recent) (inRange : page < store.pageSizes.size)
    (folder : FoundFolder) :
    ∃ outcome, indexed.enterPage page folder = .ok outcome ∧
      Entered (store.enterPage page folder) outcome := by
  unfold enterPage PagedStore.enterPage
  generalize looked : indexed.cache.lookup page = look
  obtain ⟨_ | index, cache⟩ := look
  · obtain ⟨unknown, servesAfter, absent⟩ := serves.miss looked
    rw [unknown]
    exact @readPage_entered { indexed with cache } store page rest servesAfter absent inRange folder
  · obtain ⟨room, slot, held, kept, used⟩ := serves.hit looked
    rw [kept]
    simp only [held, rest]
    exact ⟨_, rfl, entered_slot used room held (RecentPages.current_use room page _)⟩

/-- The next page is entered on both sides, or refused on both. -/
theorem Mirrors.advancePage (mirrors : indexed.Mirrors store) {rest : List Nat}
    (order : store.cursor.pages = page :: rest) (used : store.cursor.terms = [])
    (inRange : page < store.pageSizes.size) (folder : FoundFolder) :
    let entering := PagedStore.enterPage { store with cursor := ⟨rest, []⟩ } page folder
    (∃ fault after, entering.1 = .error fault ∧
        indexed.advancePage false folder = .ok (.error fault, after) ∧ after.Mirrors entering.2) ∨
      ∃ after, entering.1 = .ok () ∧
        indexed.advancePage false folder = .ok (.ok true, after) ∧
        after.Mirrors entering.2.orderTerms := by
  intro entering
  obtain ⟨next, later⟩ := next_of_drop (mirrors.pages.trans order)
  have cursor : entering.2.cursor = ⟨rest, []⟩ := PagedStore.enterPage_cursor _ page folder
  obtain ⟨outcome, entered, same⟩ : ∃ outcome, indexed.enterPage page folder = .ok outcome ∧
      Entered entering outcome :=
    @enterPage_entered indexed { store with cursor := ⟨rest, []⟩ } page mirrors.rest mirrors.serves
      inRange folder
  simp only [IndexedStore.advancePage, next, Bool.false_eq_true, if_false, entered]
  generalize entering = left at *
  cases same with
  | @refused fault after cache serves =>
      refine .inl ⟨fault, _, rfl, rfl, rfl, serves, ?_, ?_, ?_⟩
      · rw [cursor, ← later]
      · rw [cursor, mirrors.terms, used]
      · rw [cursor]
        exact fun _ someLeft => absurd rfl someLeft
  | entered serves lends =>
      refine .inr ⟨_, rfl, rfl, rfl, serves, ?_, rfl, fun _ _ => lends⟩
      exact later.trans (congrArg PageCursor.pages cursor).symm

/-- Without pages left, or cancelled, neither side enters one. -/
theorem Mirrors.advancePage_stops (mirrors : indexed.Mirrors store) {cancelled : Bool}
    (spent : cancelled = true ∨ store.cursor.pages = []) (folder : FoundFolder) :
    indexed.advancePage cancelled folder = .ok (.ok false, indexed) := by
  unfold IndexedStore.advancePage
  cases next : indexed.cursor.pageOrder[indexed.cursor.nextPage]? with
  | none => rfl
  | some page =>
      rcases spent with rfl | noneLeft
      · rfl
      · rw [← List.head?_drop, mirrors.pages, noneLeft] at next
        cases next

theorem Mirrors.left_iff (mirrors : indexed.Mirrors store) :
    indexed.cursor.nextTerm < indexed.cursor.termOrder.length ↔ store.cursor.terms ≠ [] := by
  rw [← mirrors.terms, ne_eq, List.drop_eq_nil_iff, Nat.not_le]

theorem seek_eq (cancelled : Bool) (folder : FoundFolder) (store : IndexedStore) :
    store.seek cancelled folder =
      if store.cursor.nextTerm < store.cursor.termOrder.length then .ok (.ok true, store)
      else match store.advancePage cancelled folder with
        | .ok (.ok true, after) => after.seek cancelled folder
        | outcome => outcome := by
  rw [seek]
  split
  · rfl
  · split <;> simp_all

/-- Both sides enter pages until there is a term to lend. -/
theorem Mirrors.seek (mirrors : indexed.Mirrors store) (used : store.cursor.terms = [])
    (whole : store.recent.Whole store.pageSizes store.override)
    (inRange : ∀ page ∈ store.cursor.pages, page < store.pageSizes.size) (cancelled : Bool)
    (folder : FoundFolder) :
    let advanced := PagedStore.advance cancelled folder store.cursor.pages store
    (advanced.1 = .ok true → advanced.2.cursor.terms ≠ []) ∧ ∃ after,
      indexed.seek cancelled folder = .ok (advanced.1, after) ∧ after.Mirrors advanced.2 := by
  -- By induction on the pages that are left. A page without terms is passed over on both sides.
  generalize order : store.cursor.pages = pages at inRange
  induction pages generalizing indexed store with
  | nil =>
      rw [seek_eq, if_neg (mirrors.left_iff.not_left.mpr used),
        mirrors.advancePage_stops (.inr order)]
      exact ⟨by simp [PagedStore.advance], indexed, rfl, mirrors⟩
  | cons page rest inductionHypothesis =>
      obtain ⟨here, later⟩ := List.forall_mem_cons.mp inRange
      rw [seek_eq, if_neg (mirrors.left_iff.not_left.mpr used), PagedStore.advance]
      cases cancelled with
      | true =>
          rw [mirrors.advancePage_stops (.inl rfl)]
          exact ⟨by simp, indexed, rfl, mirrors⟩
      | false =>
          have advanced := mirrors.advancePage order used here folder
          obtain ⟨pool, recent, traffic, changed, stillWhole, -⟩ :=
            PagedStore.enterPage_cases { store with cursor := ⟨rest, []⟩ } page folder whole
          generalize PagedStore.enterPage { store with cursor := ⟨rest, []⟩ } page folder =
            entering at advanced changed
          obtain ⟨answer, entered⟩ := entering
          dsimp only at advanced changed
          rcases advanced with ⟨fault, after, rfl, stopped, same⟩ | ⟨after, rfl, goesOn, same⟩
          · rw [stopped]
            exact ⟨by simp, after, rfl, same⟩
          · rw [goesOn]
            simp only [Bool.false_eq_true, if_false, List.isEmpty_iff]
            by_cases none : entered.orderTerms.cursor.terms = []
            · simp only [none, if_true]
              subst changed
              exact inductionHypothesis same none stillWhole rfl later
            · simp only [none, if_false]
              refine ⟨fun _ => none, after, ?_, same⟩
              rw [seek_eq, if_pos (same.left_iff.mpr none)]

/-- The same term is lent. -/
theorem Mirrors.lend (mirrors : indexed.Mirrors store) (ready : store.phase = .ready)
    (someLeft : store.cursor.terms ≠ []) :
    ∃ after, indexed.lend = .ok (store.lend.1, after) ∧ after.Mirrors store.lend.2 := by
  obtain ⟨position, later, left⟩ := List.exists_cons_of_ne_nil someLeft
  obtain ⟨next, behind⟩ := next_of_drop (mirrors.terms.trans left)
  let lent : PagedStore := { store with cursor := { store.cursor with terms := later } }
  have same : Mirrors { indexed with
      cursor := { indexed.cursor with nextTerm := indexed.cursor.nextTerm + 1 } } lent :=
    { mirrors with
      terms := behind
      source := fun _ _ => mirrors.source ready someLeft }
  have found : indexed.cursor.source.term? indexed.rest.pool indexed.cache position =
      store.currentTerm? position := by
    rw [mirrors.rest]
    exact mirrors.source ready someLeft position
  simp only [IndexedStore.lend, PagedStore.lend, next, left, found]
  cases store.currentTerm? position with
  | none => exact ⟨_, rfl, same⟩
  | some term => exact ⟨_, rfl, same⟩

/-- A request is answered alike. -/
theorem Mirrors.nextTerm (mirrors : indexed.Mirrors store) (sweepable : store.Sweepable)
    (cancelled : Bool) (folder : FoundFolder) :
    ∃ after, indexed.nextTerm cancelled folder = .ok ((store.nextTerm cancelled folder).1, after) ∧
      after.Mirrors (store.nextTerm cancelled folder).2 := by
  have checks : indexed.rest.ensureReady = store.ensureReady := by rw [mirrors.rest]; rfl
  unfold IndexedStore.nextTerm PagedStore.nextTerm
  rw [checks]
  by_cases ready : store.phase = .ready
  · have sweeping := sweepable ready
    rw [PagedStore.ensureReady_of_ready ready]
    dsimp only
    by_cases used : store.cursor.terms = []
    · obtain ⟨someLeft, after, sought, same⟩ :=
        mirrors.seek used sweeping.whole sweeping.pagesInRange cancelled folder
      obtain ⟨pool, recent, traffic, cursor, generator, changed, -⟩ :=
        PagedStore.advance_keeps cancelled folder store.cursor.pages store sweeping.whole
      rw [sought, if_pos (List.isEmpty_iff.mpr used)]
      generalize PagedStore.advance cancelled folder store.cursor.pages store = advanced
        at someLeft same changed
      obtain ⟨_ | _ | _, advanced⟩ := advanced
      · exact ⟨after, rfl, same⟩
      · exact ⟨after, rfl, same⟩
      · have stillReady : advanced.phase = .ready :=
          (congrArg PagedStore.phase changed).trans ready
        exact same.lend stillReady (someLeft rfl)
    · have left : indexed.seek cancelled folder = .ok (.ok true, indexed) := by
        rw [seek_eq, if_pos (mirrors.left_iff.mpr used)]
      rw [left, if_neg (by rwa [List.isEmpty_iff])]
      exact mirrors.lend ready used
  · obtain ⟨fault, refused⟩ := PagedStore.ensureReady_error ready
    rw [refused]
    exact ⟨indexed, rfl, mirrors⟩

/-- A sweep begins with the same pages. -/
theorem Mirrors.beginSweep (mirrors : indexed.Mirrors store) :
    (∃ fault, store.beginSweep = .error fault ∧ indexed.beginSweep = .error fault) ∨
      ∃ begun after, store.beginSweep = .ok begun ∧ indexed.beginSweep = .ok after ∧
        after.Mirrors begun := by
  have checks : indexed.rest.ensureReady = store.ensureReady := by rw [mirrors.rest]; rfl
  unfold IndexedStore.beginSweep PagedStore.beginSweep
  rw [checks]
  cases store.ensureReady with
  | error fault => exact .inl ⟨fault, rfl, rfl⟩
  | ok _ =>
      refine .inr ⟨_, _, rfl, rfl, ?_⟩
      rw [mirrors.rest]
      exact ⟨rfl, mirrors.serves, rfl, rfl, fun _ someLeft => absurd rfl someLeft⟩

end IndexedStore

end HingeLoss
