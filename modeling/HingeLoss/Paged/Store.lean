import HingeLoss.Page.File
import HingeLoss.Paged.Recent
import HingeLoss.Settings.Basic
import HingeLoss.Store.Resident
import HingeLoss.Text.Quoted

/-! The paged store, which writes its pool of terms to a page file whenever it is full. -/

namespace HingeLoss

/-- What is left of a sweep: the pages that are still to be entered, and the positions of the terms
that are still to be lent from the page entered last. -/
structure PageCursor where
  pages : List Nat
  terms : List Nat

def PageCursor.finished : PageCursor := ⟨[], []⟩

/-- The settings of a paged store, and the shuffle that its orders are drawn with. -/
structure Paging extends PagingSettings where
  shuffle : Shuffle := .chaCha

instance : Coe PagingSettings Paging := ⟨fun settings => { settings with }⟩

def Paging.sequential (pageTerms : Nat) : Paging := PagingSettings.sequential pageTerms

structure PagedStore where
  settings : Paging
  directory : Path
  /-- The folder was made for this store alone and goes with it. -/
  owned : Bool
  pool : TermPool
  pendingBytes : Nat
  pageSizes : Array Nat
  termCount : Nat
  components : ComponentIndex
  counts : RuleCounts
  overrides : Std.TreeMap RuleId (Weight Single)
  recent : RecentPages
  traffic : Traffic
  generator : Generator
  phase : Phase
  cursor : PageCursor

namespace PagedStore

/-- A store without terms whose folder stands ready. -/
def fresh (settings : Paging) (directory : Path) (owned : Bool) : PagedStore where
  settings
  directory
  owned
  pool := .ofCapacity settings.pageTerms
  pendingBytes := 0
  pageSizes := #[]
  termCount := 0
  components := .empty
  counts := ∅
  overrides := ∅
  recent := .ofCapacity settings.cachePages
  traffic := {}
  generator := settings.shuffle.start settings.seed
  phase := .grounding
  cursor := .finished

/-- The folder of the settings is made below a home, or a folder of the store's own is. -/
def create (settings : Paging) (home temporary : Path) (disk : Folder) :
    Except (StoreFault Single) PagedStore × Folder :=
  if settings.pageTerms = 0 then (.error (.misuse .noPageRoom), disk)
  else
    let directory := match settings.pageFolder with
      | some text => home.join text
      | none => temporary
    match disk.ensureFolder directory with
    | (.error fault, left) => (.error (.page (.system directory.shown fault)), left)
    | (.ok _, left) => (.ok (fresh settings directory settings.pageFolder.isNone), left)

/-- The folder of the store on a disk. -/
def folderOn (store : PagedStore) (disk : Folder) : Except SystemFault Folder :=
  disk.folderAt store.directory

/-- The disk with the folder of the store as an operation has left it. -/
def putFolder (store : PagedStore) (disk : Folder) (folder : FoundFolder) : Folder :=
  match folder.entries with
  | .ok entries => disk.putFolderAt store.directory entries
  | .error _ => disk

/-- The pending terms are written as the next page. Without pending terms nothing happens. -/
def flush (store : PagedStore) (folder : FoundFolder) :
    Except (StoreFault Single) PagedStore × FoundFolder :=
  if store.pool.isEmpty then (.ok store, folder)
  else match Page.save store.directory store.pageSizes.size store.pool.terms folder with
    | (.error fault, folder) => (.error (.page fault), folder)
    | (.ok bytes, folder) =>
        (.ok { store with
          pageSizes := store.pageSizes.push store.pool.count
          pool := store.pool.clear
          pendingBytes := 0
          traffic := store.traffic.recordWrite bytes },
        folder)

/-- Whether one more term of a length needs a page of its own. -/
def needsFlush (store : PagedStore) (length : Nat) : Bool :=
  let overBudget := match store.settings.pageBytes with
    | some budget => budget < store.pendingBytes + length
    | none => false
  store.pool.isFull || (overBudget && !store.pool.isEmpty)

/-- A term is filed under its component and becomes pending. -/
def append (store : PagedStore) (term : Term Single) (atoms : AtomStore Single) :
    Except (StoreFault Single) TermId × PagedStore × AtomStore Single :=
  match store.components.insert store.termCount term atoms with
  | (.error fault, components, atoms) => (.error (.atom fault), { store with components }, atoms)
  | (.ok _, components, atoms) =>
      let counts := store.counts.count term.rule
      match store.pool.push term with
      | .error fault => (.error (.page fault), { store with components, counts }, atoms)
      | .ok pool =>
          (.ok store.termCount,
            { store with
              components
              counts
              pool
              pendingBytes := store.pendingBytes + term.encodedLength
              termCount := store.termCount + 1 },
            atoms)

/-- A term takes the next number. The pending page is written first if it has no room for it. -/
def add (store : PagedStore) (term : Term Single) (atoms : AtomStore Single)
    (folder : FoundFolder) :
    Except (StoreFault Single) TermId × PagedStore × AtomStore Single × FoundFolder :=
  match store.phase with
  | .ready => (.error (.misuse (.addWhenSealed .paged)), store, atoms, folder)
  | .closed => (.error (.misuse (.onClosed .paged .add)), store, atoms, folder)
  | .grounding =>
      match atoms.checkAll term.atoms with
      | .error fault => (.error (.atom fault), store, atoms, folder)
      | .ok _ =>
          if store.needsFlush term.encodedLength then
            match store.flush folder with
            | (.error fault, folder) => (.error fault, store, atoms, folder)
            | (.ok store, folder) =>
                let (answer, store, atoms) := store.append term atoms
                (answer, store, atoms, folder)
          else
            let (answer, store, atoms) := store.append term atoms
            (answer, store, atoms, folder)

/-- The last page is written and the store opens for sweeps. -/
def finish (store : PagedStore) (folder : FoundFolder) :
    Except (StoreFault Single) PagedStore × FoundFolder :=
  match store.phase with
  | .ready => (.ok store, folder)
  | .closed => (.error (.misuse (.onClosed .paged .seal)), folder)
  | .grounding =>
      match store.flush folder with
      | (.error fault, folder) => (.error fault, folder)
      | (.ok store, folder) =>
          (.ok { store with phase := .ready, cursor := .finished }, folder)

def ensureReady (store : PagedStore) : Except (StoreFault Single) Unit :=
  match store.phase with
  | .ready => .ok ()
  | .grounding => .error (.misuse (.readWhileGrounding .paged))
  | .closed => .error (.misuse (.readWhenClosed .paged))

/-- Every term of a rule takes a weight. Pages keep the old one and are corrected when they are
entered. The answer is the number of terms of the rule. -/
def setWeight (store : PagedStore) (rule : RuleId) (weight : Weight Single) :
    Except (StoreFault Single) (Nat × PagedStore) :=
  match store.phase with
  | .closed => .error (.misuse (.onClosed .paged .setWeight))
  | _ =>
      (weight.validate rule).map fun _ =>
        (store.counts.getD rule 0,
          { store with
            overrides := store.overrides.insert rule weight
            recent := store.recent.reweigh rule weight
            pool := store.pool.mapLive (Term.reweigh rule weight) })

/-- The store at the beginning of a round. The pool keeps its slots and forgets what they hold. -/
def emptied (store : PagedStore) : PagedStore :=
  { store with
    pageSizes := #[]
    pool := store.pool.clear
    pendingBytes := 0
    termCount := 0
    components := .empty
    counts := ∅
    overrides := ∅
    recent := store.recent.clear
    generator := store.settings.shuffle.start store.settings.seed
    phase := .grounding
    cursor := .finished }

/-- All pages are removed and a new round begins. The partition of the atoms is the caller's to
reset. -/
def clear (store : PagedStore) (folder : FoundFolder) :
    Except (StoreFault Single) PagedStore × FoundFolder :=
  match store.phase with
  | .closed => (.error (.misuse (.onClosed .paged .clear)), folder)
  | _ =>
      match Page.removeAll store.directory (List.range store.pageSizes.size) folder with
      | (.error fault, folder) => (.error (.page fault), folder)
      | (.ok _, folder) => (.ok store.emptied, folder)

/-- All pages are removed, and the folder too if it is the store's own. A folder of its own that is
gone already is a fault, but the store is closed all the same. -/
def close (store : PagedStore) (folder : FoundFolder) :
    Except (StoreFault Single) Unit × PagedStore × FoundFolder :=
  match store.phase with
  | .closed => (.ok (), store, folder)
  | _ =>
      match Page.removeAll store.directory (List.range store.pageSizes.size) folder with
      | (.error fault, folder) => (.error (.page fault), store, folder)
      | (.ok _, folder) =>
          let closed : PagedStore :=
            { store with
              phase := .closed
              pageSizes := #[]
              pool := store.pool.clear
              recent := store.recent.clear
              components := .empty
              counts := ∅
              owned := false }
          if store.owned then
            match folder.entries with
            | .ok _ => (.ok (), closed, { folder with entries := .error .notFound })
            | .error fault =>
                let shown := store.directory.shown
                let text := fault.text ++ " at path \"" ++ shown ++ "\""
                (.error (.page (.system shown (.other text))), closed, folder)
          else (.ok (), closed, folder)

/-- The disk without the folder of a store that is given up, if the folder is the store's own. -/
def discard (store : PagedStore) (disk : Folder) : Folder :=
  if store.owned then (disk.removeTree store.directory).2 else disk

/-- The disk as the closing of the store leaves it. -/
def closeOn (store : PagedStore) (disk : Folder) :
    Except (StoreFault Single) Unit × PagedStore × Folder :=
  let (answer, closed, folder) := store.close (store.folderOn disk)
  let left := store.putFolder disk folder
  (answer, closed, if store.owned && !closed.owned then store.discard left else left)

/-- The store in one line. -/
def text (store : PagedStore) : String :=
  let phase := match store.phase with
    | .grounding => "Grounding"
    | .ready => "Ready"
    | .closed => "Closed"
  "StreamingTermStore \x7b dir: " ++ Text.quote store.directory.shown ++
    s!", phase: {phase}, num_terms: {store.termCount}, num_pages: {store.pageSizes.size} \x7d"

end PagedStore

end HingeLoss
