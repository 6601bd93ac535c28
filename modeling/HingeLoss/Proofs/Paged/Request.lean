import HingeLoss.Proofs.Page.Slot
import HingeLoss.Proofs.Paged.Bookkeeping
import HingeLoss.Proofs.Paged.Timed

/-! All that a request for a term can do to a store. -/

namespace HingeLoss

/-- Whether a fault says that a page holds another number of terms than were written. -/
def PageFault.isMiscount : PageFault → Bool
  | .corrupt _ (.count _ _) => true
  | _ => false

namespace Page

theorem isMiscount_of_decodeRecords {path : String} {index count : Nat} {bytes : Bytes}
    {pool left : TermPool} {fault : PageFault}
    (failed : decodeRecords path index count bytes pool = (.error fault, left)) :
    fault.isMiscount = false := by
  induction count generalizing index bytes pool with
  | zero => cases failed
  | succ count inductionHypothesis =>
      simp only [decodeRecords] at failed
      split at failed
      · cases failed
        rfl
      · split at failed
        · cases failed
          rfl
        · exact inductionHypothesis failed

theorem isMiscount_of_decode {path : String} {bytes : Bytes} {pool left : TermPool}
    {fault : PageFault} (failed : decode path bytes pool = (.error fault, left)) :
    fault.isMiscount = false := by
  unfold decode at failed
  split at failed
  · dsimp only at failed
    split at failed
    · cases failed
      rfl
    · split at failed
      · cases failed
        rfl
      · split at failed
        · cases failed
          rfl
        · split at failed
          · rename_i damaged
            cases failed
            exact isMiscount_of_decodeRecords damaged
          · cases failed
          · cases failed
            rfl
  · cases failed
    rfl

/-- The number of terms is compared only when the page has been read. -/
theorem isMiscount_of_read {directory : Path} {index : Nat} {folder : FoundFolder}
    {pool left : TermPool} {traffic counted : Traffic} {fault : PageFault}
    (failed : read directory index folder pool traffic = (.error fault, left, counted)) :
    fault.isMiscount = false := by
  unfold read at failed
  cases fetched : fetch directory index folder with
  | error refused =>
      rw [fetched] at failed
      cases failed
      unfold fetch at fetched
      split at fetched
      · cases fetched
        rfl
      · split at fetched <;> cases fetched <;> rfl
  | ok bytes =>
      rw [fetched] at failed
      dsimp only at failed
      split at failed
      · rename_i damaged
        cases failed
        unfold load at damaged
        split at damaged
        · cases damaged
          rfl
        · split at damaged
          · rename_i unreadable
            cases damaged
            exact isMiscount_of_decode unreadable
          · rename_i sound
            exact absurd damaged (sound _ _)
      · cases failed

end Page

namespace PagedStore

/-- The page that the next request comes to unless the token has fired. -/
def nextPage? (store : PagedStore) : Option Nat :=
  if store.cursor.terms.isEmpty then store.cursor.pages.head? else none

theorem nextPage?_of_cursor {store : PagedStore} {page : Nat} {rest : List Nat}
    (cursor : store.cursor = ⟨page :: rest, []⟩) : store.nextPage? = some page := by
  simp only [nextPage?, cursor, List.isEmpty_nil, if_true, List.head?_cons]

theorem nextPage?_of_left {store : PagedStore} {position : Nat} {positions : List Nat}
    (left : store.cursor.terms = position :: positions) : store.nextPage? = none := by
  simp only [nextPage?, left, List.isEmpty_cons, Bool.false_eq_true, if_false]

/-- What a request does to a store, with its answer. -/
inductive Request (store : PagedStore) (cancelled : Bool) (folder : FoundFolder) :
    Except (StoreFault Single) (Option (Term Single)) → PagedStore → Prop
  | refused (misuse : Misuse) (notReady : store.phase ≠ .ready) :
      Request store cancelled folder (.error (.misuse misuse)) store
  /-- The token is only heard when no positions are left. -/
  | ended (ready : store.phase = .ready) (used : store.cursor.terms = [])
      (spent : cancelled = true ∨ store.cursor.pages = []) :
      Request store cancelled folder (.ok none) store
  | lends {position : Nat} {positions : List Nat} {term : Term Single}
      (ready : store.phase = .ready) (left : store.cursor.terms = position :: positions) :
      Request store cancelled folder (.ok (some term))
        { store with cursor := ⟨store.cursor.pages, positions⟩ }
  /-- The next page is in memory, and a term of it is lent. -/
  | found {page : Nat} {rest positions : List Nat} {terms : Array (Term Single)}
      {term : Term Single} {generator : Generator} (ready : store.phase = .ready)
      (going : cancelled = false) (cursor : store.cursor = ⟨page :: rest, []⟩)
      (kept : store.recent.terms? page = some terms) :
      Request store cancelled folder (.ok (some term))
        { store with
          traffic := store.traffic.recordHit
          recent := store.recent.use page terms
          cursor := ⟨rest, positions⟩
          generator }
  /-- The next page is read from its file, and a term of it is lent. -/
  | read {page : Nat} {rest positions : List Nat} {image : Bytes} {filled : TermPool}
      {term : Term Single} {generator : Generator} (ready : store.phase = .ready)
      (going : cancelled = false) (cursor : store.cursor = ⟨page :: rest, []⟩)
      (missing : store.recent.terms? page = none)
      (fetched : Page.fetch store.directory page folder = .ok image)
      (loaded : Page.load (Page.path store.directory page) image store.pool =
        (.ok (store.pageSizes.getD page 0), filled)) :
      Request store cancelled folder (.ok (some term))
        { store with
          traffic := store.traffic.recordRead image.length
          recent := store.recent.use page (filled.mapLive store.override).terms.toArray
          pool := filled.mapLive store.override
          cursor := ⟨rest, positions⟩
          generator }
  | unread {page : Nat} {rest : List Nat} {fault : PageFault} {left : TermPool}
      (ready : store.phase = .ready) (going : cancelled = false)
      (cursor : store.cursor = ⟨page :: rest, []⟩) (missing : store.recent.terms? page = none)
      (failed : Page.read store.directory page folder store.pool store.traffic =
        (.error fault, left, store.traffic)) :
      Request store cancelled folder (.error (.page fault))
        { store with pool := left, cursor := ⟨rest, []⟩ }
  /-- The file of the next page is a page of another number of terms. -/
  | miscounted {page count : Nat} {rest : List Nat} {image : Bytes} {filled : TermPool}
      (ready : store.phase = .ready) (going : cancelled = false)
      (cursor : store.cursor = ⟨page :: rest, []⟩) (missing : store.recent.terms? page = none)
      (fetched : Page.fetch store.directory page folder = .ok image)
      (loaded : Page.load (Page.path store.directory page) image store.pool = (.ok count, filled))
      (differs : count ≠ store.pageSizes.getD page 0) :
      Request store cancelled folder
        (.error (.page (.corrupt (Page.path store.directory page)
          (.count count (store.pageSizes.getD page 0)))))
        { store with
          traffic := store.traffic.recordRead image.length
          pool := filled.clear
          cursor := ⟨rest, []⟩ }

/-- A request that lends a term where it comes to a page has entered the page. -/
theorem Request.enters {store after : PagedStore} {cancelled : Bool} {folder : FoundFolder}
    {answer : Except (StoreFault Single) (Option (Term Single))}
    (request : Request store cancelled folder answer after) {page : Nat}
    (next : store.nextPage? = some page) {term : Term Single} (lent : answer = .ok (some term)) :
    store.phase = .ready ∧ cancelled = false := by
  cases request with
  | lends ready left =>
      rw [nextPage?_of_left left] at next
      cases next
  | found ready going => exact ⟨ready, going⟩
  | read ready going => exact ⟨ready, going⟩
  | _ => cases lent

variable {store entered : PagedStore} {folder : FoundFolder} {page : Nat} {rest : List Nat}

theorem nextTerm_of_enter_error (ready : store.phase = .ready)
    (cursor : store.cursor = ⟨page :: rest, []⟩) {fault : StoreFault Single}
    (entering : enterPage { store with cursor := ⟨rest, []⟩ } page folder =
      (.error fault, entered)) :
    store.nextTerm false folder = (.error fault, entered) := by
  simp only [nextTerm, ensureReady_of_ready ready, cursor, List.isEmpty_nil, if_true, advance,
    Bool.false_eq_true, if_false, entering]

/-- A store whose current page has a position left lends a term of it. -/
theorem lend_of_lt {position : Nat} {positions : List Nat}
    (left : store.cursor.terms = position :: positions) (inRange : position < store.currentCount) :
    ∃ term, store.lend =
      (.ok (some term), { store with cursor := ⟨store.cursor.pages, positions⟩ }) := by
  obtain ⟨term, found⟩ : ∃ term, store.currentTerm? position = some term := by
    rw [currentTerm?_eq]
    exact ⟨_, List.getElem?_eq_getElem (store.currentCount_eq ▸ inRange)⟩
  exact ⟨term, by simp only [lend, left, found]⟩

/-- A page that is entered has terms, so the request lends one of them. -/
theorem Sweeping.next_of_entered (sweeping : store.Sweeping)
    (cursor : store.cursor = ⟨page :: rest, []⟩)
    (entering : enterPage { store with cursor := ⟨rest, []⟩ } page folder = (.ok (), entered)) :
    ∃ term positions generator, store.nextTerm false folder =
      (.ok (some term), { entered with cursor := ⟨rest, positions⟩, generator }) := by
  have pagePositive := sweeping.pagePositive
  rw [cursor, List.forall_mem_cons] at pagePositive
  obtain ⟨pool, recent, traffic, left, -, answered⟩ :=
    enterPage_cases { store with cursor := ⟨rest, []⟩ } page folder sweeping.whole
  rw [entering] at left answered
  dsimp only at left answered
  have counted : entered.currentCount = store.pageSizes.getD page 0 := by
    rcases answered with ⟨fault, refused⟩ | ⟨-, enters⟩
    · cases refused
    · rw [left, enters.currentCount]
  have phase : entered.phase = .ready := left ▸ sweeping.phase
  have pages : entered.cursor.pages = rest := by rw [left]
  have drawn : entered.orderTerms.cursor.terms.Perm (List.range (store.pageSizes.getD page 0)) := by
    rw [← counted]
    exact arrange_perm _ _ _ _
  obtain ⟨position, positions, order⟩ : ∃ position positions,
      entered.orderTerms.cursor.terms = position :: positions := by
    apply List.exists_cons_of_length_pos
    rw [drawn.length_eq, List.length_range]
    exact pagePositive.1
  have inRange : position < entered.orderTerms.currentCount := by
    have member := List.mem_range.mp (drawn.mem_iff.mp (order ▸ List.mem_cons_self))
    exact lt_of_lt_of_eq member counted.symm
  obtain ⟨term, lent⟩ := lend_of_lt order inRange
  refine ⟨term, positions, entered.orderTerms.generator, ?_⟩
  have ready : entered.orderTerms.ensureReady = .ok () := ensureReady_of_ready phase
  simp only [nextTerm, ensureReady_of_ready sweeping.phase, cursor, List.isEmpty_nil, if_true,
    advance, Bool.false_eq_true, if_false, entering, order, List.isEmpty_cons, lent]
  rw [← pages]
  rfl

/-- A request of a sweep that comes to a page finds it, reads it or fails with it. -/
theorem Sweeping.request_page (sweeping : store.Sweeping)
    (cursor : store.cursor = ⟨page :: rest, []⟩) :
    Request store false folder (store.nextTerm false folder).1
      (store.nextTerm false folder).2 := by
  let moved : PagedStore := { store with cursor := ⟨rest, []⟩ }
  cases kept : store.recent.terms? page with
  | some terms =>
      have entering : enterPage moved page folder = (.ok (), { moved with
          traffic := store.traffic.recordHit
          recent := store.recent.use page terms }) := by
        simp only [enterPage, moved, kept]
      obtain ⟨term, positions, generator, lent⟩ := sweeping.next_of_entered cursor entering
      rw [lent]
      exact .found sweeping.phase rfl cursor kept
  | none =>
      have reading : enterPage moved page folder = moved.readPage page folder := by
        simp only [enterPage, moved, kept]
      cases fetched : Page.fetch store.directory page folder with
      | error fault =>
          rw [nextTerm_of_enter_error sweeping.phase cursor
            (reading.trans (readPage_of_fetch_error fetched))]
          exact .unread sweeping.phase rfl cursor kept (by rw [Page.read, fetched])
      | ok image =>
          cases loaded : Page.load (Page.path store.directory page) image store.pool with
          | mk answer filled =>
              cases answer with
              | error fault =>
                  rw [nextTerm_of_enter_error sweeping.phase cursor
                    (reading.trans (readPage_of_load_error fetched loaded))]
                  refine .unread sweeping.phase rfl cursor kept ?_
                  simp only [Page.read, fetched, loaded]
              | ok count =>
                  by_cases written : count = store.pageSizes.getD page 0
                  · subst written
                    obtain ⟨term, positions, generator, lent⟩ := sweeping.next_of_entered cursor
                      (reading.trans (readPage_of_load fetched loaded rfl))
                    rw [lent]
                    exact .read sweeping.phase rfl cursor kept fetched loaded
                  · rw [nextTerm_of_enter_error sweeping.phase cursor
                      (reading.trans (readPage_of_miscount fetched loaded written))]
                    exact .miscounted sweeping.phase rfl cursor kept fetched loaded written

/-- A store that is in a sweep whenever it can be swept. -/
def Sweepable (store : PagedStore) : Prop := store.phase = .ready → store.Sweeping

/-- Every request does one of these things. -/
theorem Sweepable.request (sweepable : store.Sweepable) (cancelled : Bool) (folder : FoundFolder) :
    Request store cancelled folder (store.nextTerm cancelled folder).1
      (store.nextTerm cancelled folder).2 := by
  cases phase : store.phase with
  | grounding =>
      simp only [nextTerm, ensureReady, phase]
      exact .refused _ (by simp [phase])
  | closed =>
      simp only [nextTerm, ensureReady, phase]
      exact .refused _ (by simp [phase])
  | ready =>
      have sweeping := sweepable phase
      cases used : store.cursor.terms with
      | cons position positions =>
          have inRange := sweeping.positionsInRange position (used ▸ List.mem_cons_self)
          obtain ⟨term, lent⟩ := lend_of_lt used inRange
          have answered : store.nextTerm cancelled folder = store.lend := by
            simp only [nextTerm, ensureReady, phase, used, List.isEmpty_cons, Bool.false_eq_true,
              if_false]
          rw [answered, lent]
          exact .lends phase used
      | nil =>
          by_cases spent : cancelled = true ∨ store.cursor.pages = []
          · rw [nextTerm_ends phase used spent]
            exact .ended phase used spent
          · obtain ⟨going, someLeft⟩ := not_or.mp spent
            rw [Bool.not_eq_true] at going
            subst going
            obtain ⟨page, rest, order⟩ := List.exists_cons_of_ne_nil someLeft
            have cursor : store.cursor = ⟨page :: rest, []⟩ := by rw [← used, ← order]
            exact sweeping.request_page cursor

/-- A request leaves a sweep that stays within its pages. -/
theorem Sweeping.nextTerm (sweeping : store.Sweeping) (cancelled : Bool) (folder : FoundFolder) :
    (store.nextTerm cancelled folder).2.Sweeping := by
  by_cases used : store.cursor.terms = []
  · by_cases spent : cancelled = true ∨ store.cursor.pages = []
    · rw [nextTerm_ends sweeping.phase used spent]
      exact sweeping
    · obtain ⟨going, someLeft⟩ := not_or.mp spent
      rw [Bool.not_eq_true] at going
      subst going
      obtain ⟨page, rest, order⟩ := List.exists_cons_of_ne_nil someLeft
      have cursor : store.cursor = ⟨page :: rest, []⟩ := by rw [← used, ← order]
      rcases sweeping.enter folder cursor with
        ⟨fault, after, refused, stillSweeping, -⟩ |
        ⟨entered, positions, same, enteredSweeping, -, entering, somePositions, -⟩
      · rw [refused]
        exact stillSweeping
      · obtain ⟨term, after, lent, stillSweeping, -⟩ :=
          enteredSweeping.next_lends (by rwa [entering]) false folder
        rw [same, lent]
        exact stillSweeping
  · obtain ⟨term, after, lent, stillSweeping, -⟩ := sweeping.next_lends used cancelled folder
    rw [lent]
    exact stillSweeping

end PagedStore

end HingeLoss
