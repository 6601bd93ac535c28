import HingeLoss.Proofs.Page.Indexed
import HingeLoss.Proofs.Paged.Session
import HingeLoss.Proofs.Paged.Ticks

/-! Sweeps that go by index through drawn orders, the pool and the slots of the recent pages. -/

namespace HingeLoss

/-- Where the terms of the page entered last are. -/
inductive PageSource where
  | pool
  | slot (index : Nat)

/-- The term at a position of the page entered last. -/
def PageSource.term? (pool : TermPool) (cache : PageSlots) (position : Nat) :
    PageSource → Option (Term Single)
  | .pool => pool.get? position
  | .slot index => cache.slots[index]?.bind fun slot => slot.terms[position]?

/-- How far a sweep has come. -/
structure IndexCursor where
  pageOrder : List Nat
  nextPage : Nat
  termOrder : List Nat
  nextTerm : Nat
  source : PageSource

def IndexCursor.start : IndexCursor := ⟨[], 0, [], 0, .pool⟩

/-- The store without its sweep and without the pages that it keeps in memory. -/
def PagedStore.resting (store : PagedStore) : PagedStore :=
  { store with recent := store.recent.clear, cursor := .finished }

/-- A paged store whose sweeps go by index. All that a sweep does not move is in a store at rest. -/
structure IndexedStore where
  rest : PagedStore
  cache : PageSlots
  cursor : IndexCursor

namespace IndexedStore

/-- A new store keeps no page in memory yet. -/
def new (store : PagedStore) : IndexedStore :=
  ⟨store.resting, .ofCapacity store.settings.cachePages, .start⟩

def beginSweep (store : IndexedStore) : Except (StoreFault Single) IndexedStore :=
  store.rest.ensureReady.map fun _ =>
    let (pageOrder, generator) := PagedStore.arrange store.rest.settings.shuffle
      store.rest.settings.randomizePageAccess store.rest.pageSizes.size store.rest.generator
    { store with
      rest := { store.rest with generator }
      cursor := { store.cursor with pageOrder, nextPage := 0, termOrder := [], nextTerm := 0 } }

/-- The page is read from its file. If pages are kept in memory its terms take a slot. The answer is
the number of terms and where they are. -/
def readPage (store : IndexedStore) (page : Nat) (folder : FoundFolder) :
    Except StrayIndex (Except (StoreFault Single) (Nat × PageSource) × PagedStore × PageSlots) :=
  match Page.read store.rest.directory page folder store.rest.pool store.rest.traffic with
  | (.error fault, pool, traffic) =>
      .ok (.error (.page fault), { store.rest with pool, traffic }, store.cache)
  | (.ok held, pool, traffic) =>
      match store.rest.pageSizes[page]? with
      | none => .error (.pageSize page)
      | some written =>
          if held ≠ written then
            .ok (.error (.page (.corrupt (Page.path store.rest.directory page)
                (.count held written))),
              { store.rest with traffic, pool := pool.clear }, store.cache)
          else
            let pool := pool.mapLive store.rest.override
            let rest := { store.rest with traffic, pool }
            if store.cache.capacity = 0 then .ok (.ok (held, .pool), rest, store.cache)
            else
              let (index, cache) := store.cache.insert page pool.terms.toArray
              match cache.slots[index]? with
              | none => .error (.pageSlot index)
              | some _ => .ok (.ok (held, .slot index), rest, cache)

/-- A page that has a slot is not read again. -/
def enterPage (store : IndexedStore) (page : Nat) (folder : FoundFolder) :
    Except StrayIndex (Except (StoreFault Single) (Nat × PageSource) × PagedStore × PageSlots) :=
  match store.cache.lookup page with
  | (none, cache) => readPage { store with cache } page folder
  | (some index, cache) =>
      match cache.slots[index]? with
      | none => .error (.pageSlot index)
      | some slot =>
          .ok (.ok (slot.terms.size, .slot index),
            { store.rest with traffic := store.rest.traffic.recordHit }, cache)

/-- The next page is entered and the order of its terms is drawn. The answer is whether there was
one. A page that cannot be entered leaves the order of the terms as it was. -/
def advancePage (cancelled : Bool) (folder : FoundFolder) (store : IndexedStore) :
    Except StrayIndex (Except (StoreFault Single) Bool × IndexedStore) :=
  match store.cursor.pageOrder[store.cursor.nextPage]? with
  | none => .ok (.ok false, store)
  | some page =>
      if cancelled then .ok (.ok false, store)
      else
        let cursor := { store.cursor with nextPage := store.cursor.nextPage + 1 }
        match store.enterPage page folder with
        | .error stray => .error stray
        | .ok (.error fault, rest, cache) => .ok (.error fault, ⟨rest, cache, cursor⟩)
        | .ok (.ok (count, source), rest, cache) =>
            let (termOrder, generator) :=
              PagedStore.arrange rest.settings.shuffle rest.settings.shufflePage count
                rest.generator
            .ok (.ok true, ⟨{ rest with generator }, cache,
              { cursor with termOrder, nextTerm := 0, source }⟩)

theorem advancePage_shortens {cancelled : Bool} {folder : FoundFolder} {store after : IndexedStore}
    (advanced : store.advancePage cancelled folder = .ok (.ok true, after)) :
    after.cursor.pageOrder.length - after.cursor.nextPage <
      store.cursor.pageOrder.length - store.cursor.nextPage := by
  unfold advancePage at advanced
  split at advanced
  · simp at advanced
  · rename_i page next
    have inside := (List.getElem?_eq_some_iff.mp next).1
    split at advanced
    · simp at advanced
    · dsimp only at advanced
      split at advanced <;> cases advanced
      dsimp only
      omega

/-- Pages are entered until there is a term to lend. The answer is whether there is one. -/
def seek (cancelled : Bool) (folder : FoundFolder) (store : IndexedStore) :
    Except StrayIndex (Except (StoreFault Single) Bool × IndexedStore) :=
  if store.cursor.nextTerm < store.cursor.termOrder.length then .ok (.ok true, store)
  else match _advanced : store.advancePage cancelled folder with
    | .ok (.ok true, after) => seek cancelled folder after
    | outcome => outcome
termination_by store.cursor.pageOrder.length - store.cursor.nextPage
decreasing_by exact advancePage_shortens _advanced

/-- The next position of the page entered last is lent. -/
def lend (store : IndexedStore) :
    Except StrayIndex (Except (StoreFault Single) (Option (Term Single)) × IndexedStore) :=
  match store.cursor.termOrder[store.cursor.nextTerm]? with
  | none => .error (.termOrder store.cursor.nextTerm)
  | some position =>
      let lent := { store with
        cursor := { store.cursor with nextTerm := store.cursor.nextTerm + 1 } }
      match store.cursor.source.term? store.rest.pool store.cache position with
      | some term => .ok (.ok (some term), lent)
      | none => .ok (.error (.misuse .cursorPastPage), lent)

/-- Before a page is entered there is nothing to lend, and a slot without a page has no terms. -/
example (store : PagedStore) :
    (new store).lend = .error (.termOrder 0) ∧
      ∃ after, lend { new store with cursor := ⟨[], 0, [0], 0, .slot 0⟩ } =
        .ok (.error (.misuse .cursorPastPage), after) :=
  ⟨rfl, _, rfl⟩

def nextTerm (cancelled : Bool) (folder : FoundFolder) (store : IndexedStore) :
    Except StrayIndex (Except (StoreFault Single) (Option (Term Single)) × IndexedStore) :=
  match store.rest.ensureReady with
  | .error fault => .ok (.error fault, store)
  | .ok _ =>
      match store.seek cancelled folder with
      | .error stray => .error stray
      | .ok (.error fault, store) => .ok (.error fault, store)
      | .ok (.ok false, store) => .ok (.ok none, store)
      | .ok (.ok true, store) => store.lend

/-- The store when the one at rest has answered a call. The slots follow new weights, and are given
up with the pages; a sealing and a clearing put the cursor back to the start. -/
def follow (store : IndexedStore) (rest : PagedStore) : PagedCall → PagedAnswer → IndexedStore
  | .setWeight rule weight, .reweighed (.ok _) =>
      { store with rest, cache := (store.cache.respond (.reweigh rule weight)).2 }
  | .clear, .done (.ok _) => ⟨rest, (store.cache.respond .clear).2, .start⟩
  | .close, _ =>
      { store with
        rest
        cache :=
          if rest.phase = store.rest.phase then store.cache else (store.cache.respond .clear).2 }
  | .finish, _ | .ground _ _, _ =>
      { store with
        rest
        cursor := if rest.phase = store.rest.phase then store.cursor else .start }
  | _, _ => { store with rest }

end IndexedStore

/-- A session with a paged store whose sweeps go by index. -/
structure IndexedSession where
  store : IndexedStore
  atoms : AtomStore Single
  folder : FoundFolder
  cancelled : Bool

namespace IndexedSession

/-- The session with the store at rest. -/
def rest (session : IndexedSession) : PagedSession :=
  ⟨session.store.rest, session.atoms, session.folder, session.cancelled⟩

/-- Only sweeps go by index. -/
def respond (session : IndexedSession) :
    PagedCall → Except StrayIndex (PagedAnswer × IndexedSession)
  | .beginSweep =>
      match session.store.beginSweep with
      | .error fault => .ok (.done (.error fault), session)
      | .ok store => .ok (.done (.ok ()), { session with store })
  | .nextTerm =>
      match session.store.nextTerm session.cancelled session.folder with
      | .error stray => .error stray
      | .ok (answer, store) => .ok (.lent answer, { session with store })
  | call =>
      let (answer, after) := session.rest.respond call
      .ok (answer, ⟨session.store.follow after.store call answer, after.atoms, after.folder,
        after.cancelled⟩)

end IndexedSession

end HingeLoss
