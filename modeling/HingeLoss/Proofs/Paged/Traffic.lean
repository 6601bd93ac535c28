import HingeLoss.Proofs.Paged.Event

/-! The counters of page traffic, whatever fails on the way. -/

namespace HingeLoss

/-- The size of the file of a page: its header and the records of its terms. -/
def Page.fileBytes (terms : List (Term Single)) : Nat :=
  headerBytes + (terms.map fun term => term.encode.length).sum

theorem Page.length_encode_eq (terms : List (Term Single)) :
    (encode terms).length = fileBytes terms := by
  rw [length_encode, body, List.length_flatMap, fileBytes]

theorem Page.size_of_save {directory : Path} {index size : Nat} {terms : List (Term Single)}
    {folder left : FoundFolder} (saved : save directory index terms folder = (.ok size, left)) :
    size = fileBytes terms := by
  obtain ⟨entries, -, same⟩ := save_of_canSave directory (canSave_of_save saved)
  rw [same] at saved
  cases saved
  exact length_encode_eq terms

namespace PageEvent

def writtenBytes? : PageEvent → Option Nat
  | .written _ bytes => some bytes
  | _ => none

/-- A page whose terms are miscounted has been read. -/
def readBytes? : PageEvent → Option Nat
  | .loaded _ image => some image.length
  | .miscounted _ image => some image.length
  | _ => none

def isKept : PageEvent → Bool
  | .kept _ => true
  | _ => false

/-- The events since the counters were last reset. -/
def sinceReset (log : List PageEvent) : List PageEvent := log.takeWhile fun event => event ≠ .reset

theorem sinceReset_append {events : List PageEvent} (noReset : .reset ∉ events)
    (log : List PageEvent) :
    sinceReset (events.reverse ++ log) = events.reverse ++ sinceReset log := by
  apply List.takeWhile_append_of_pos
  intro event member
  simp only [ne_eq, decide_eq_true_eq]
  rintro rfl
  exact noReset (List.mem_reverse.mp member)

end PageEvent

namespace Traffic

instance : Add Traffic where
  add first second :=
    { pagesWritten := first.pagesWritten + second.pagesWritten
      bytesWritten := first.bytesWritten + second.bytesWritten
      pagesRead := first.pagesRead + second.pagesRead
      bytesRead := first.bytesRead + second.bytesRead
      cacheHits := first.cacheHits + second.cacheHits }

/-- The counters as they have to be after some events, in whatever order. -/
def of (events : List PageEvent) : Traffic where
  pagesWritten := (events.filterMap PageEvent.writtenBytes?).length
  bytesWritten := (events.filterMap PageEvent.writtenBytes?).sum
  pagesRead := (events.filterMap PageEvent.readBytes?).length
  bytesRead := (events.filterMap PageEvent.readBytes?).sum
  cacheHits := events.countP PageEvent.isKept

theorem add_eq (first second : Traffic) : first + second =
    ⟨first.pagesWritten + second.pagesWritten, first.bytesWritten + second.bytesWritten,
      first.pagesRead + second.pagesRead, first.bytesRead + second.bytesRead,
      first.cacheHits + second.cacheHits⟩ := rfl

theorem add_comm (first second : Traffic) : first + second = second + first := by
  simp only [add_eq, Nat.add_comm]

theorem add_assoc (first second third : Traffic) :
    first + second + third = first + (second + third) := by
  simp only [add_eq, Nat.add_assoc]

@[simp] theorem add_of_nil (traffic : Traffic) : traffic + of [] = traffic := rfl

theorem of_append (first second : List PageEvent) :
    of (first ++ second) = of first + of second := by
  simp only [of, add_eq, List.filterMap_append, List.length_append, List.sum_append,
    List.countP_append]

theorem of_reverse (events : List PageEvent) : of events.reverse = of events := by
  simp only [of, List.filterMap_reverse, List.length_reverse, List.sum_reverse,
    List.countP_reverse]

end Traffic

/-- Pages that are written in turn, from a number on. -/
def PageEvent.placing (first : Nat) (pages : List (List (Term Single))) : List PageEvent :=
  (pages.zipIdx first).map fun entry => .written entry.2 (Page.fileBytes entry.1)

theorem Traffic.of_placing (first : Nat) (pages : List (List (Term Single))) :
    of (PageEvent.placing first pages) = ⟨pages.length, (pages.map Page.fileBytes).sum, 0, 0, 0⟩ := by
  induction pages generalizing first with
  | nil => rfl
  | cons terms later inductionHypothesis =>
      have split : PageEvent.placing first (terms :: later) =
          [.written first (Page.fileBytes terms)] ++ PageEvent.placing (first + 1) later := rfl
      rw [split, of_append, inductionHypothesis]
      simp [of, add_eq, List.filterMap_cons, PageEvent.writtenBytes?, PageEvent.readBytes?,
        PageEvent.isKept, Nat.add_comm]

/-- Whether a call can put pages in place: it adds terms or seals the store. -/
def PagedCall.places : PagedCall → Bool
  | .add _ => true
  | .finish => true
  | .ground _ _ => true
  | _ => false

namespace PagedSession

/-- From one session to another, pages have been put in place behind those that were there, all
other page files are as they were, and the counters tell the pages that have been put in place. -/
structure Writes (before after : PagedSession) (pages : List (List (Term Single))) : Prop where
  directory : after.store.directory = before.store.directory
  sizes : after.store.pageSizes.toList = before.store.pageSizes.toList ++ pages.map List.length
  placed : ∀ index terms, pages[index]? = some terms →
    Page.fetch before.store.directory (before.store.pageSizes.size + index) after.folder =
      .ok (Page.encode terms)
  others : ∀ page, page < before.store.pageSizes.size ∨
      before.store.pageSizes.size + pages.length ≤ page →
    Page.fetch before.store.directory page after.folder =
      Page.fetch before.store.directory page before.folder
  counted : after.store.traffic =
    before.store.traffic + ⟨pages.length, (pages.map Page.fileBytes).sum, 0, 0, 0⟩

variable {before middle after session : PagedSession} {pages later : List (List (Term Single))}

/-- Where the pages and the counters stay, nothing is written. -/
theorem writes_nil (directory : after.store.directory = before.store.directory)
    (sizes : after.store.pageSizes = before.store.pageSizes)
    (same : ∀ page, Page.fetch before.store.directory page after.folder =
      Page.fetch before.store.directory page before.folder)
    (counted : after.store.traffic = before.store.traffic) : before.Writes after [] where
  directory := directory
  sizes := by rw [sizes, List.map_nil, List.append_nil]
  placed := by simp
  others page _ := same page
  counted := counted

theorem Writes.size (writes : before.Writes after pages) :
    after.store.pageSizes.size = before.store.pageSizes.size + pages.length := by
  rw [← Array.length_toList, writes.sizes, List.length_append, List.length_map,
    Array.length_toList]

theorem Writes.trans (first : before.Writes middle pages) (second : middle.Writes after later) :
    before.Writes after (pages ++ later) where
  directory := second.directory.trans first.directory
  sizes := by rw [second.sizes, first.sizes, List.map_append, List.append_assoc]
  placed index terms found := by
    have others := second.others
    have placed := second.placed
    rw [first.size, first.directory] at others placed
    rcases Nat.lt_or_ge index pages.length with old | new
    · rw [List.getElem?_append_left old] at found
      rw [others _ (.inl (Nat.add_lt_add_left old _))]
      exact first.placed index terms found
    · rw [List.getElem?_append_right new] at found
      have held := placed _ terms found
      rwa [Nat.add_assoc, Nat.add_sub_cancel' new] at held
  others page outside := by
    have others := second.others page
    rw [first.size, first.directory] at others
    rw [List.length_append] at outside
    rw [others (by omega), first.others page (by omega)]
  counted := by
    rw [second.counted, first.counted, Traffic.add_assoc]
    simp only [Traffic.add_eq, List.length_append, List.map_append, List.sum_append, Nat.add_zero]

theorem writes_flush_error {fault : StoreFault Single} {left : FoundFolder}
    (failed : session.store.flush session.folder = (.error fault, left)) :
    session.Writes { session with folder := left } [] := by
  refine writes_nil rfl rfl (fun page => ?_) rfl
  rcases session.store.flush_cases session.folder with
    ⟨-, same⟩ | ⟨_, _, unsaved, same⟩ | ⟨-, _, _, -, same⟩
  · rw [failed] at same
    cases same
  · rw [failed] at same
    cases same
    exact Page.fetch_of_save_error unsaved page
  · rw [failed] at same
    cases same

/-- A flush puts the pending terms in place as one page, if there are any. -/
theorem writes_flush {base : PagedStore} {left : FoundFolder}
    (flushed : session.store.flush session.folder = (.ok base, left)) :
    ∃ pages, session.Writes { session with store := base, folder := left } pages := by
  rcases session.store.flush_cases session.folder with
    ⟨-, same⟩ | ⟨_, _, -, same⟩ | ⟨-, bytes, _, saved, same⟩
  · rw [flushed] at same
    cases same
    exact ⟨[], writes_nil rfl rfl (fun _ => rfl) rfl⟩
  · rw [flushed] at same
    cases same
  · rw [flushed] at same
    cases same
    obtain ⟨-, placed, others⟩ := Page.save_ok saved
    refine ⟨[session.store.pool.terms], rfl, ?_, ?_, ?_, ?_⟩
    · simp
    · intro index terms found
      cases index with
      | zero =>
          cases found
          exact placed
      | succ index => cases found
    · intro page outside
      rw [List.length_singleton] at outside
      exact others page (by omega)
    · simp [Page.size_of_save saved, Traffic.recordWrite, Traffic.add_eq]

theorem writes_append (session : PagedSession) (term : Term Single) (folder : FoundFolder) :
    PagedSession.Writes { session with folder }
      { session with
        folder
        store := (session.store.append term session.atoms).2.1
        atoms := (session.store.append term session.atoms).2.2 } [] := by
  obtain ⟨components, counts, pool, pendingBytes, termCount, same⟩ :=
    session.store.append_changes term session.atoms
  exact writes_nil (by rw [same]) (by rw [same]) (fun _ => rfl) (by rw [same])

theorem writes_add (session : PagedSession) (term : Term Single) :
    ∃ pages, session.Writes (session.respond (.add term)).2 pages := by
  simp only [respond]
  rcases session.store.add_cases term session.atoms session.folder with
    ⟨fault, left, same, rfl | ⟨-, failed⟩⟩ | ⟨-, -, base, left, made, same⟩
  · rw [same]
    exact ⟨[], writes_nil rfl rfl (fun _ => rfl) rfl⟩
  · rw [same]
    exact ⟨[], writes_flush_error failed⟩
  · rw [same]
    rcases made with ⟨-, rfl, rfl⟩ | flushed
    · exact ⟨[], writes_append session term session.folder⟩
    · obtain ⟨pages, writes⟩ := writes_flush flushed
      exact ⟨_, writes.trans (writes_append { session with store := base } term left)⟩

theorem writes_finish (session : PagedSession) :
    ∃ pages, session.Writes (session.respond .finish).2 pages := by
  simp only [respond]
  rcases session.store.finish_cases session.folder with
    ⟨fault, left, same, rfl | ⟨-, failed⟩⟩ | ⟨-, same⟩ | ⟨-, base, left, flushed, same⟩
  · rw [same]
    exact ⟨[], writes_nil rfl rfl (fun _ => rfl) rfl⟩
  · rw [same]
    exact ⟨[], writes_flush_error failed⟩
  · rw [same]
    exact ⟨[], writes_nil rfl rfl (fun _ => rfl) rfl⟩
  · rw [same]
    obtain ⟨pages, writes⟩ := writes_flush flushed
    exact ⟨pages, { writes with }⟩

/-- A grounding pass puts in place what its additions and its sealing do. -/
theorem writes_ground (session : PagedSession) (source : List SourceItem) (steps : Nat) :
    ∃ pages, session.Writes (session.respond (.ground source steps)).2 pages := by
  let pass := Grounding.start session.store session.atoms session.folder source session.cancelled
  exact @Grounding.trace_keeps (fun _ => True) pass []
    (fun _ after => ∃ pages, session.Writes after pages)
    (fun _ _ _ ⟨pages, writes⟩ => ⟨pages, { writes with }⟩)
    (fun _ middle ⟨_, writes⟩ =>
      let ⟨_, sealing⟩ := middle.writes_finish
      ⟨_, writes.trans sealing⟩)
    (fun _ middle term ⟨_, writes⟩ _ =>
      let ⟨_, adding⟩ := middle.writes_add term
      ⟨_, writes.trans adding⟩)
    steps ⟨[], writes_nil rfl rfl (fun _ => rfl) rfl⟩ fun _ _ _ _ => trivial

theorem writes_of_places (session : PagedSession) {call : PagedCall}
    (places : call.places = true) : ∃ pages, session.Writes (session.respond call).2 pages := by
  cases call with
  | add term => exact session.writes_add term
  | finish => exact session.writes_finish
  | ground source steps => exact session.writes_ground source steps
  | _ => cases places

/-- What is put in place is what the later session has more. -/
theorem Writes.written (writes : before.Writes after pages) :
    before.written after = PageEvent.placing before.store.pageSizes.size pages := by
  apply List.ext_getElem
  · simp [PagedSession.written, PageEvent.placing, writes.size]
  · intro index inside inRange
    rw [PageEvent.placing, List.length_map, List.length_zipIdx] at inRange
    have held := writes.placed index _ (List.getElem?_eq_getElem inRange)
    simp [PagedSession.written, PageEvent.placing, image, writes.directory, held,
      Page.length_encode_eq]

theorem written_nil (same : after.store.pageSizes = before.store.pageSizes) :
    before.written after = [] := by
  rw [written, same, Nat.sub_self]
  rfl

theorem Writes.events {call : PagedCall} (places : call.places = true)
    (writes : session.Writes (session.respond call).2 pages) :
    session.events call = PageEvent.placing session.store.pageSizes.size pages := by
  rw [← writes.written]
  cases call with
  | add term => rfl
  | finish => rfl
  | ground source steps => rfl
  | _ => cases places

/-- An addition or a sealing that fails with a page has put nothing in place. -/
theorem Writes.eq_nil {settings : Paging} {directory : Path} {owned : Bool}
    (room : 0 < settings.pageTerms) (steady : Steady settings directory owned session)
    {call : PagedCall} (places : call.places = true)
    (writes : session.Writes (session.respond call).2 pages) {fault : PageFault}
    (failed : (session.respond call).1 = .added (.error (.page fault)) ∨
      (session.respond call).1 = .done (.error (.page fault))) : pages = [] := by
  suffices same : (session.respond call).2.store.pageSizes = session.store.pageSizes by
    have size := writes.size
    rw [same] at size
    exact List.length_eq_zero_iff.mp (by omega)
  cases call with
  | add term =>
      simp only [respond] at failed ⊢
      rcases session.store.add_cases term session.atoms session.folder with
        ⟨_, left, same, -⟩ | ⟨grounding, -, base, left, made, same⟩
      · rw [same]
      · -- The store has room by now, so only the index can refuse the term.
        obtain ⟨terms, kept⟩ := steady.kept
        have roomy : base.pool.isFull = false := by
          rcases made with ⟨needless, rfl, -⟩ | flushed
          · exact PagedStore.isFull_of_not_needsFlush needless
          · obtain ⟨keptBase, stillGrounding, noneLeft⟩ := kept.flush grounding flushed
            have capacity := keptBase.poolCapacity (by simp [stillGrounding])
            exact PagedStore.isFull_of_count_zero noneLeft (capacity ▸ room)
        rw [same] at failed
        rcases PagedStore.append_cases roomy term session.atoms with
          ⟨_, -, answered⟩ | ⟨_, -, answered⟩ <;>
          simp [answered] at failed
  | finish =>
      simp only [respond] at failed ⊢
      rcases session.store.finish_cases session.folder with
        ⟨_, left, same, -⟩ | ⟨-, same⟩ | ⟨-, base, left, -, same⟩
      · rw [same]
      · rw [same]
      · simp [same] at failed
  | ground source steps => simp [respond] at failed
  | _ => cases places

theorem reset_not_mem_events (session : PagedSession) (call : PagedCall) :
    .reset ∉ session.events call := by
  have unwritten (after : PagedSession) : .reset ∉ session.written after := by
    simp [written]
  cases call with
  | nextTerm =>
      simp only [events]
      split
      · unfold enters
        split
        · split <;> simp
        · split <;> simp
        · simp
      · simp
  | clear =>
      simp only [events]
      split <;> simp
  | close =>
      simp only [events]
      split <;> simp
  | _ => exact unwritten _

/-- A call that neither places pages nor asks for a term at most gives up the pages. -/
theorem quiet_respond {call : PagedCall} (quiet : call.places = false) (other : call ≠ .nextTerm) :
    (session.events call = [] ∨ session.events call = [.cleared]) ∧
      (session.respond call).2.store.traffic = session.store.traffic := by
  cases call with
  | add term => cases quiet
  | finish => cases quiet
  | ground source steps => cases quiet
  | nextTerm => exact absurd rfl other
  | setWeight rule weight =>
      simp only [events, respond]
      rcases session.store.setWeight_cases rule weight with ⟨fault, same⟩ | ⟨-, -, same⟩ <;>
        rw [same] <;> exact ⟨.inl (written_nil rfl), rfl⟩
  | clear =>
      simp only [events, respond]
      refine ⟨by split <;> simp, ?_⟩
      rcases session.store.clear_cases session.folder with
        ⟨-, fault, same⟩ | ⟨-, ⟨fault, left, -, same⟩ | ⟨left, -, same⟩⟩
      · rw [same]
      · rw [same]
      · rw [same]
        rfl
  | close =>
      simp only [events, respond]
      refine ⟨by split <;> simp, ?_⟩
      rcases session.store.close_cases session.folder with
        ⟨-, same⟩ | ⟨-, ⟨fault, left, -, same⟩ | ⟨answer, left, same⟩⟩
      · rw [same]
      · rw [same]
      · rw [same]
  | beginSweep =>
      simp only [events, respond]
      cases begun : session.store.beginSweep with
      | error fault => exact ⟨.inl (written_nil rfl), rfl⟩
      | ok store =>
          obtain ⟨-, pages, generator, rfl, -⟩ := PagedStore.beginSweep_ok begun
          exact ⟨.inl (written_nil rfl), rfl⟩
  | setToken cancelled => exact ⟨.inl (written_nil rfl), rfl⟩
  | changeAtoms change => exact ⟨.inl (written_nil rfl), rfl⟩
  | changeFolder folder => exact ⟨.inl (written_nil rfl), rfl⟩

/-- The counters take what a call does to pages, and nothing else. -/
theorem Steady.traffic_respond {settings : Paging} {directory : Path} {owned : Bool}
    (steady : Steady settings directory owned session) (call : PagedCall) :
    (session.respond call).2.store.traffic = session.store.traffic + .of (session.events call) := by
  cases places : call.places with
  | true =>
      obtain ⟨pages, writes⟩ := session.writes_of_places places
      rw [writes.events places, Traffic.of_placing]
      exact writes.counted
  | false =>
      by_cases asks : call = .nextTerm
      · subst asks
        obtain ⟨-, outcome⟩ := nextTerm_cases steady.sweepable
        rcases outcome with ⟨events, traffic, -⟩ | ⟨page, terms, -, events, traffic, -⟩ |
          ⟨page, image, filled, -, -, events, traffic, -⟩ | ⟨page, image, events, traffic, -⟩ <;>
          rw [events, traffic] <;> rfl
      · obtain ⟨events, traffic⟩ := @quiet_respond session call places asks
        rw [traffic]
        rcases events with events | events <;> rw [events] <;> rfl

/-- What becomes of the page that a request comes to, by the answer and the events. -/
inductive Entry (before : PagedSession) (page : Nat) :
    Except (StoreFault Single) (Option (Term Single)) → List PageEvent → Prop
  | kept (term : Term Single) (resident : (before.store.recent.terms? page).isSome = true) :
      Entry before page (.ok (some term)) [.kept page]
  | loaded (term : Term Single) (image : Bytes)
      (missing : before.store.recent.terms? page = none)
      (held : Page.fetch before.store.directory page before.folder = .ok image) :
      Entry before page (.ok (some term)) [.loaded page image]
  /-- The page cannot be opened or its image is damaged. -/
  | unread (fault : PageFault) (left : TermPool)
      (failed : Page.read before.store.directory page before.folder before.store.pool
        before.store.traffic = (.error fault, left, before.store.traffic)) :
      Entry before page (.error (.page fault)) []
  | miscounted (image : Bytes) (count : Nat)
      (held : Page.fetch before.store.directory page before.folder = .ok image)
      (differs : count ≠ before.store.pageSizes.getD page 0) :
      Entry before page
        (.error (.page (.corrupt (Page.path before.store.directory page)
          (.count count (before.store.pageSizes.getD page 0)))))
        [.miscounted page image]

/-- A request moves past the page that it comes to. Without such a page, or with a token that has
fired, it moves past none. -/
theorem Steady.entry {settings : Paging} {directory : Path} {owned : Bool}
    (steady : Steady settings directory owned session) :
    let outcome := session.store.nextTerm session.cancelled session.folder
    (∀ page, session.store.phase = .ready → session.cancelled = false →
      session.store.nextPage? = some page →
      session.store.cursor.pages = page :: outcome.2.cursor.pages ∧
        session.Entry page outcome.1 (session.events .nextTerm)) ∧
    ((session.store.phase ≠ .ready ∨ session.cancelled = true ∨ session.store.nextPage? = none) →
      outcome.2.cursor.pages = session.store.cursor.pages ∧ session.events .nextTerm = []) := by
  have request := steady.sweepable.request session.cancelled session.folder
  dsimp only [events]
  generalize session.store.nextTerm session.cancelled session.folder = outcome at request ⊢
  obtain ⟨answer, after⟩ := outcome
  cases request with
  | refused misuse notReady =>
      refine ⟨fun _ ready => absurd ready notReady, fun _ => ⟨rfl, ?_⟩⟩
      split <;> rfl
  | ended _ used spent =>
      refine ⟨fun page _ going next => ?_, fun _ => ⟨rfl, ?_⟩⟩
      · rcases spent with fired | noPages
        · rw [going] at fired
          cases fired
        · simp [PagedStore.nextPage?, noPages] at next
      · split <;> rfl
  | lends _ left =>
      have none := PagedStore.nextPage?_of_left left
      refine ⟨fun page _ _ next => ?_, fun _ => ⟨rfl, by rw [none]⟩⟩
      rw [none] at next
      cases next
  | @found page rest positions terms term generator ready going cursor kept =>
      have next := PagedStore.nextPage?_of_cursor cursor
      have resident : (session.store.recent.terms? page).isSome = true := by rw [kept]; rfl
      simp only [next, enters, resident, if_true]
      refine ⟨fun other _ _ same => ?_, fun idle => absurd idle (by simp [ready, going])⟩
      cases same
      exact ⟨congrArg PageCursor.pages cursor, .kept term resident⟩
  | @read page rest positions image filled term generator ready going cursor missing fetched
      loaded =>
      have next := PagedStore.nextPage?_of_cursor cursor
      simp only [next, enters, missing, Option.isSome_none, Bool.false_eq_true, if_false,
        PagedSession.image, fetched]
      refine ⟨fun other _ _ same => ?_, fun idle => absurd idle (by simp [ready, going])⟩
      cases same
      exact ⟨congrArg PageCursor.pages cursor, .loaded term image missing fetched⟩
  | @unread page rest fault left ready going cursor missing failed =>
      have next := PagedStore.nextPage?_of_cursor cursor
      simp only [next, enters, Page.isMiscount_of_read failed, Bool.false_eq_true, if_false]
      refine ⟨fun other _ _ same => ?_, fun idle => absurd idle (by simp [ready, going])⟩
      cases same
      exact ⟨congrArg PageCursor.pages cursor, .unread fault left failed⟩
  | @miscounted page count rest image filled ready going cursor missing fetched loaded differs =>
      have next := PagedStore.nextPage?_of_cursor cursor
      simp only [next, enters, PageFault.isMiscount, if_true, PagedSession.image, fetched]
      refine ⟨fun other _ _ same => ?_, fun idle => absurd idle (by simp [ready, going])⟩
      cases same
      exact ⟨congrArg PageCursor.pages cursor, .miscounted image count fetched differs⟩

end PagedSession

/-- A call keeps counters that tell what has happened to pages since they were last reset. -/
theorem LoggedSession.traffic_respond {settings : Paging} {directory : Path} {owned : Bool}
    {logged : LoggedSession} (call : LoggedCall)
    (steady : PagedSession.Steady settings directory owned logged.session)
    (counted : logged.session.store.traffic = .of (PageEvent.sinceReset logged.log)) :
    (logged.respond call).2.session.store.traffic =
      .of (PageEvent.sinceReset (logged.respond call).2.log) := by
  cases call with
  | ask call =>
      have noReset := logged.session.reset_not_mem_events call
      simp only [LoggedSession.respond, steady.traffic_respond call, counted,
        PageEvent.sinceReset_append noReset, Traffic.of_append, Traffic.of_reverse]
      exact Traffic.add_comm _ _
  | resetTraffic => rfl

theorem LoggedSession.performAll_counted {settings : Paging} (room : 0 < settings.pageTerms)
    (directory : Path) (owned : Bool) (folder : FoundFolder) (calls : List LoggedCall) :
    let run := (performAll respond (opened settings directory owned folder) calls).2
    PagedSession.Steady settings directory owned run.session ∧
      run.session.store.traffic = .of (PageEvent.sinceReset run.log) :=
  @performAll_steady settings directory owned
    (fun logged => logged.session.store.traffic = .of (PageEvent.sinceReset logged.log)) room
    (fun _ call steady counted => traffic_respond call steady counted) folder rfl calls

/-- The counters tell what has happened to pages since they were last reset, whatever becomes of the
folder and of the token. -/
theorem traffic_accounted (settings : Paging) (directory : Path) (owned : Bool)
    (folder : FoundFolder) (room : 0 < settings.pageTerms) (calls : List LoggedCall) :
    let run := (performAll LoggedSession.respond (.opened settings directory owned folder) calls).2
    let outcome := run.session.store.nextTerm run.session.cancelled run.session.folder
    run.session.store.traffic = .of (PageEvent.sinceReset run.log) ∧
    (∀ call, call.places = true → ∃ pages,
      run.session.Writes (run.session.respond call).2 pages ∧
        run.session.events call =
          PageEvent.placing run.session.store.pageSizes.size pages ∧
        ∀ fault, (run.session.respond call).1 = .added (.error (.page fault)) ∨
          (run.session.respond call).1 = .done (.error (.page fault)) → pages = []) ∧
    (∀ page, run.session.store.phase = .ready → run.session.cancelled = false →
      run.session.store.nextPage? = some page →
      run.session.store.cursor.pages = page :: outcome.2.cursor.pages ∧
        run.session.Entry page outcome.1 (run.session.events .nextTerm)) ∧
    ((run.session.store.phase ≠ .ready ∨ run.session.cancelled = true ∨
        run.session.store.nextPage? = none) →
      outcome.2.cursor.pages = run.session.store.cursor.pages ∧
        run.session.events .nextTerm = []) ∧
    ∀ call, call.places = false → call ≠ .nextTerm →
      run.session.events call = [] ∨ run.session.events call = [.cleared] := by
  intro run outcome
  obtain ⟨steady, counted⟩ :=
    LoggedSession.performAll_counted room directory owned folder calls
  have entry := steady.entry
  refine ⟨counted, fun call places => ?_, entry.1, entry.2,
    fun call quiet other => (PagedSession.quiet_respond quiet other).1⟩
  obtain ⟨pages, writes⟩ := run.session.writes_of_places places
  exact ⟨pages, writes, writes.events places,
    fun fault failed => writes.eq_nil room steady places failed⟩

/-- Two terms with room for one on a page and for two pages in memory. The folder is away when the
first page is to be written. Then both pages are written, the counters start anew, and one sweep
reads both pages while the next one finds the first and is stopped before the second. -/
theorem traffic_accounted_sample :
    let term : Term Single := ⟨⟨0⟩, .linear, .soft 1, 0, [⟨0⟩], [1]⟩
    let calls : List LoggedCall :=
      [.ask (.changeAtoms (.register ⟨0, false⟩)), .ask (.add term),
        .ask (.changeFolder (.error .notFound)), .ask (.add term), .ask (.changeFolder (.ok [])),
        .ask (.add term), .ask .finish, .resetTraffic, .ask .beginSweep, .ask .nextTerm,
        .ask .nextTerm, .ask .beginSweep, .ask .nextTerm, .ask (.setToken true), .ask .nextTerm]
    let run := (performAll LoggedSession.respond
      (.opened { Paging.sequential 1 with cachePages := 2 } (Path.ofText "pages") true
        (.ok [])) calls).2
    run.log.length = 6 ∧ run.session.store.traffic = ⟨0, 0, 2, 2 * 32, 1⟩ ∧
      run.session.store.traffic = .of (PageEvent.sinceReset run.log) := by
  intro term calls run
  refine ⟨by decide +kernel, by decide +kernel, ?_⟩
  exact (traffic_accounted _ _ _ _ (by decide) calls).1

end HingeLoss
