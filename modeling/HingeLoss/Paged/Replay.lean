import HingeLoss.Paged.Store

/-! Sweeps over the pages of a sealed paged store, in orders that are drawn. -/

namespace HingeLoss

namespace PagedStore

/-- The numbers below a count, in order or shuffled. -/
def arrange (shuffle : Shuffle) (shuffled : Bool) (count : Nat) (generator : Generator) :
    List Nat × Generator :=
  if shuffled then
    let (order, generator) := shuffle.run generator (Array.range count)
    (order.toList, generator)
  else (List.range count, generator)

def beginSweep (store : PagedStore) : Except (StoreFault Single) PagedStore :=
  store.ensureReady.map fun _ =>
    let (pages, generator) :=
      arrange store.settings.shuffle store.settings.randomizePageAccess store.pageSizes.size
        store.generator
    { store with cursor := ⟨pages, []⟩, generator }

/-- The terms of a rule with a new weight take it. -/
def override (store : PagedStore) (term : Term Single) : Term Single :=
  match store.overrides[term.rule]? with
  | some weight => { term with weight }
  | none => term

/-- The page is read from its file into the pool, and must hold as many terms as were written. -/
def readPage (store : PagedStore) (page : Nat) (folder : FoundFolder) :
    Except (StoreFault Single) Unit × PagedStore :=
  let path := Page.path store.directory page
  match Page.fetch store.directory page folder with
  | .error fault => (.error (.page fault), store)
  | .ok bytes =>
      match Page.load path bytes store.pool with
      | (.error fault, pool) => (.error (.page fault), { store with pool })
      | (.ok held, pool) =>
          let traffic := store.traffic.recordRead bytes.length
          let written := store.pageSizes.getD page 0
          if held ≠ written then
            (.error (.page (.corrupt path (.count held written))),
              { store with traffic, pool := pool.clear })
          else
            let pool := pool.mapLive store.override
            let recent := store.recent.use page pool.terms.toArray
            (.ok (), { store with traffic, pool, recent })

/-- The page becomes the one that terms are lent from. A page kept in memory is not read again. -/
def enterPage (store : PagedStore) (page : Nat) (folder : FoundFolder) :
    Except (StoreFault Single) Unit × PagedStore :=
  match store.recent.terms? page with
  | some terms =>
      (.ok (),
        { store with
          traffic := store.traffic.recordHit
          recent := store.recent.use page terms })
  | none => store.readPage page folder

/-- Without room for recent pages, terms are lent from the pool. -/
def lendsFromPool (store : PagedStore) : Bool := store.recent.capacity == 0

/-- The number of terms of the page entered last. -/
def currentCount (store : PagedStore) : Nat :=
  if store.lendsFromPool then store.pool.count else store.recent.current.size

/-- The term at a position of the page entered last. -/
def currentTerm? (store : PagedStore) (position : Nat) : Option (Term Single) :=
  if store.lendsFromPool then store.pool.get? position else store.recent.current[position]?

/-- All terms of the page entered last are still to be lent. -/
def orderTerms (store : PagedStore) : PagedStore :=
  let (terms, generator) :=
    arrange store.settings.shuffle store.settings.shufflePage store.currentCount store.generator
  { store with cursor := { store.cursor with terms }, generator }

/-- The next page with terms is entered. The answer is whether there was one. A page that cannot be
entered is left behind. -/
def advance (cancelled : Bool) (folder : FoundFolder) :
    List Nat → PagedStore → Except (StoreFault Single) Bool × PagedStore
  | [], store => (.ok false, store)
  | page :: rest, store =>
      if cancelled then (.ok false, store)
      else
        match enterPage { store with cursor := ⟨rest, []⟩ } page folder with
        | (.error fault, store) => (.error fault, store)
        | (.ok _, store) =>
            let store := store.orderTerms
            if store.cursor.terms.isEmpty then advance cancelled folder rest store
            else (.ok true, store)

/-- The next position of the page entered last is lent. -/
def lend (store : PagedStore) : Except (StoreFault Single) (Option (Term Single)) × PagedStore :=
  match store.cursor.terms with
  | [] => (.ok none, store)
  | position :: rest =>
      let lent := { store with cursor := { store.cursor with terms := rest } }
      match store.currentTerm? position with
      | some term => (.ok (some term), lent)
      | none => (.error (.misuse .cursorPastPage), lent)

/-- The next term of the sweep, if there is one. -/
def nextTerm (store : PagedStore) (cancelled : Bool) (folder : FoundFolder) :
    Except (StoreFault Single) (Option (Term Single)) × PagedStore :=
  match store.ensureReady with
  | .error fault => (.error fault, store)
  | .ok _ =>
      if store.cursor.terms.isEmpty then
        match advance cancelled folder store.cursor.pages store with
        | (.error fault, store) => (.error fault, store)
        | (.ok false, store) => (.ok none, store)
        | (.ok true, store) => store.lend
      else store.lend

end PagedStore

end HingeLoss
