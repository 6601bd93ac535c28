import HingeLoss.Proofs.Paged.Request

/-! The log of a paged store: the pages that a call has put in place or entered, and from where. -/

namespace HingeLoss

/-- What happens to the pages of a store and to its counters. -/
inductive PageEvent where
  /-- A page is renamed into place with a file of so many bytes. -/
  | written (page bytes : Nat)
  /-- A page is entered with the image in its file. -/
  | loaded (page : Nat) (image : Bytes)
  /-- A page is entered from memory. -/
  | kept (page : Nat)
  /-- A page is read but holds another number of terms than were written, so it is not entered. -/
  | miscounted (page : Nat) (image : Bytes)
  /-- The store gives up all of its pages. -/
  | cleared
  /-- The counters start from zero. -/
  | reset
deriving DecidableEq

namespace PagedSession

/-- What the file of a page holds. -/
def image (session : PagedSession) (page : Nat) : Bytes :=
  match Page.fetch session.store.directory page session.folder with
  | .ok image => image
  | .error _ => []

/-- The pages that the later of two sessions has more, with the sizes of their files. -/
def written (before after : PagedSession) : List PageEvent :=
  let first := before.store.pageSizes.size
  (List.range' first (after.store.pageSizes.size - first)).map fun page =>
    .written page (after.image page).length

/-- What a request that comes to a page does there, as its answer shows. -/
def enters (before : PagedSession) (page : Nat) :
    Except (StoreFault Single) (Option (Term Single)) → List PageEvent
  | .ok (some _) =>
      if (before.store.recent.terms? page).isSome then [.kept page]
      else [.loaded page (before.image page)]
  | .error (.page fault) =>
      if fault.isMiscount then [.miscounted page (before.image page)] else []
  | _ => []

/-- What a call does to pages. -/
def events (before : PagedSession) : PagedCall → List PageEvent
  | .nextTerm =>
      match before.store.nextPage? with
      | some page =>
          before.enters page (before.store.nextTerm before.cancelled before.folder).1
      | none => []
  | .clear => if (before.store.clear before.folder).1.isOk then [.cleared] else []
  | .close =>
      if (before.store.close before.folder).2.1.phase = before.store.phase then [] else [.cleared]
  | call => before.written (before.respond call).2

end PagedSession

/-- What can be asked of a paged store whose counters can start anew. -/
inductive LoggedCall where
  | ask (call : PagedCall)
  | resetTraffic

/-- A session with all that has happened to pages, the last event first. -/
structure LoggedSession where
  session : PagedSession
  log : List PageEvent

namespace LoggedSession

def opened (settings : Paging) (directory : Path) (owned : Bool) (folder : FoundFolder) :
    LoggedSession :=
  ⟨.opened settings directory owned folder, []⟩

def respond (logged : LoggedSession) : LoggedCall → PagedAnswer × LoggedSession
  | .ask call =>
      let (answer, session) := logged.session.respond call
      (answer, ⟨session, (logged.session.events call).reverse ++ logged.log⟩)
  | .resetTraffic =>
      let store := { logged.session.store with traffic := {} }
      (.done (.ok ()), ⟨{ logged.session with store }, .reset :: logged.log⟩)

end LoggedSession

namespace PagedStore

variable {store : PagedStore} {folder : FoundFolder}

theorem sweepable_of_phase (notReady : store.phase ≠ .ready) : store.Sweepable :=
  fun ready => absurd ready notReady

theorem Consistent.sweepable (consistent : store.Consistent)
    (finished : store.cursor = .finished) : store.Sweepable := fun ready =>
  { phase := ready
    positive := consistent.positive
    whole := consistent.whole
    pagesInRange := by simp [finished, PageCursor.finished]
    positionsInRange := by simp [finished, PageCursor.finished] }

theorem phase_append (term : Term Single) (atoms : AtomStore Single) :
    (store.append term atoms).2.1.phase = store.phase := by
  obtain ⟨components, counts, pool, pendingBytes, termCount, same⟩ :=
    store.append_changes term atoms
  rw [same]

theorem phase_flush {base : PagedStore} {left : FoundFolder}
    (flushed : store.flush folder = (.ok base, left)) : base.phase = store.phase := by
  obtain ⟨pageSizes, pool, pendingBytes, traffic, rfl⟩ := flush_changes flushed
  rfl

theorem Sweepable.add (sweepable : store.Sweepable) (term : Term Single)
    (atoms : AtomStore Single) : (store.add term atoms folder).2.1.Sweepable := by
  rcases store.add_cases term atoms folder with
    ⟨fault, left, same, -⟩ | ⟨grounding, -, base, left, made, same⟩
  · rw [same]
    exact sweepable
  · rw [same]
    apply sweepable_of_phase
    rw [phase_append]
    rcases made with ⟨-, rfl, -⟩ | flushed
    · simp [grounding]
    · simp [phase_flush flushed, grounding]

end PagedStore

namespace PagedSession

variable {settings : Paging} {directory : Path} {owned : Bool} {folder : FoundFolder}
  {session : PagedSession}

/-- A session whose books are kept and that can be swept when it is sealed. -/
structure Steady (settings : Paging) (directory : Path) (owned : Bool)
    (session : PagedSession) : Prop where
  kept : ∃ terms, Kept settings directory owned terms session
  sweepable : session.store.Sweepable

theorem Steady.consistent (steady : Steady settings directory owned session) :
    session.store.Consistent :=
  steady.kept.choose_spec.consistent

theorem steady_opened (settings : Paging) (directory : Path) (owned : Bool)
    (folder : FoundFolder) :
    Steady settings directory owned (opened settings directory owned folder) :=
  ⟨⟨[], kept_opened settings directory owned folder⟩, nofun⟩

theorem sweepable_finish (kept : (session.respond .finish).2.store.Consistent)
    (sweepable : session.store.Sweepable) : (session.respond .finish).2.store.Sweepable := by
  simp only [respond] at kept ⊢
  rcases session.store.finish_cases session.folder with
    ⟨fault, left, same, -⟩ | ⟨ready, same⟩ | ⟨grounding, base, left, flushed, same⟩
  · rw [same]
    exact sweepable
  · rw [same]
    exact sweepable
  · rw [same] at kept ⊢
    exact kept.sweepable rfl

/-- Additions, sealings and the token leave a session steady, and so does a grounding pass. -/
theorem Steady.ground (room : 0 < settings.pageTerms)
    (steady : Steady settings directory owned session) (source : List SourceItem) (steps : Nat) :
    Steady settings directory owned (session.respond (.ground source steps)).2 := by
  let pass := Grounding.start session.store session.atoms session.folder source session.cancelled
  have start : Steady settings directory owned pass.session := steady
  refine @Grounding.trace_keeps (fun _ => True) pass []
    (fun _ session => Steady settings directory owned session)
    (fun _ session cancelled steady => ⟨?_, steady.sweepable⟩) (fun _ session steady => ?_)
    (fun _ session term steady _ => ⟨?_, steady.sweepable.add term session.atoms⟩) steps start
    fun _ _ _ _ => trivial
  · obtain ⟨terms, kept⟩ := steady.kept
    exact ⟨terms, { kept with }⟩
  · obtain ⟨terms, kept⟩ := steady.kept
    exact ⟨⟨terms, kept.finish⟩, sweepable_finish kept.finish.consistent steady.sweepable⟩
  · obtain ⟨terms, kept⟩ := steady.kept
    exact ⟨_, kept.add room term⟩

/-- Every call leaves a session steady. -/
theorem Steady.respond (room : 0 < settings.pageTerms)
    (steady : Steady settings directory owned session) (call : PagedCall) :
    Steady settings directory owned (session.respond call).2 := by
  obtain ⟨terms, kept⟩ := steady.kept
  have keptAfter := kept.respond room call
  have consistent := keptAfter.consistent
  refine ⟨⟨_, keptAfter⟩, ?_⟩
  cases call with
  | add term => exact steady.sweepable.add term session.atoms
  | finish => exact sweepable_finish consistent steady.sweepable
  | ground source steps => exact (steady.ground room source steps).sweepable
  | setWeight rule weight =>
      simp only [PagedSession.respond]
      cases reweighed : session.store.setWeight rule weight with
      | error fault => exact steady.sweepable
      | ok outcome =>
          intro ready
          rcases session.store.setWeight_cases rule weight with ⟨fault, same⟩ | ⟨-, -, same⟩
          · rw [reweighed] at same
            cases same
          · rw [reweighed] at same
            cases same
            exact ((steady.sweepable ready).setWeight reweighed).1
  | clear =>
      simp only [PagedSession.respond] at consistent ⊢
      rcases session.store.clear_cases session.folder with
        ⟨-, fault, same⟩ | ⟨-, ⟨fault, left, -, same⟩ | ⟨left, -, same⟩⟩
      · rw [same]
        exact steady.sweepable
      · rw [same]
        exact steady.sweepable
      · rw [same]
        exact PagedStore.sweepable_of_phase (by simp [PagedStore.emptied])
  | close =>
      simp only [PagedSession.respond]
      rcases session.store.close_cases session.folder with
        ⟨-, same⟩ | ⟨-, ⟨fault, left, -, same⟩ | ⟨answer, left, same⟩⟩
      · rw [same]
        exact steady.sweepable
      · rw [same]
        exact steady.sweepable
      · rw [same]
        exact PagedStore.sweepable_of_phase (by simp)
  | beginSweep =>
      simp only [PagedSession.respond]
      cases begun : session.store.beginSweep with
      | error fault => exact steady.sweepable
      | ok store => exact fun _ => (steady.consistent.sweeping_begin begun).1
  | nextTerm =>
      intro ready
      simp only [PagedSession.respond] at ready ⊢
      by_cases wasReady : session.store.phase = .ready
      · exact (steady.sweepable wasReady).nextTerm session.cancelled session.folder
      · obtain ⟨fault, refused⟩ := PagedStore.ensureReady_error wasReady
        rw [PagedStore.nextTerm, refused] at ready
        exact absurd ready wasReady
  | setToken cancelled => exact steady.sweepable
  | changeAtoms change => exact steady.sweepable
  | changeFolder folder => exact steady.sweepable

/-- A request that comes to no page, or cannot read the one it comes to, leaves no event. -/
theorem nextTerm_cases (sweepable : session.store.Sweepable) :
    let after := (session.respond .nextTerm).2.store
    after.overrides = session.store.overrides ∧
      ((session.events .nextTerm = [] ∧ after.traffic = session.store.traffic ∧
          after.recent = session.store.recent) ∨
        (∃ page terms, session.store.recent.terms? page = some terms ∧
          session.events .nextTerm = [.kept page] ∧
          after.traffic = session.store.traffic.recordHit ∧
          after.recent = session.store.recent.use page terms) ∨
        (∃ page image filled, session.store.recent.terms? page = none ∧
          Page.load (Page.path session.store.directory page) image session.store.pool =
            (.ok (session.store.pageSizes.getD page 0), filled) ∧
          session.events .nextTerm = [.loaded page image] ∧
          after.traffic = session.store.traffic.recordRead image.length ∧
          after.recent = session.store.recent.use page
            (filled.mapLive session.store.override).terms.toArray) ∨
        ∃ page image, session.events .nextTerm = [.miscounted page image] ∧
          after.traffic = session.store.traffic.recordRead image.length ∧
          after.recent = session.store.recent) := by
  have request := sweepable.request session.cancelled session.folder
  simp only [PagedSession.respond, events]
  generalize session.store.nextTerm session.cancelled session.folder = outcome at request ⊢
  obtain ⟨answer, after⟩ := outcome
  dsimp only at request ⊢
  cases request with
  | refused misuse notReady =>
      refine ⟨rfl, .inl ⟨?_, rfl, rfl⟩⟩
      split <;> rfl
  | ended ready used spent =>
      refine ⟨rfl, .inl ⟨?_, rfl, rfl⟩⟩
      split <;> rfl
  | lends ready left => exact ⟨rfl, .inl ⟨by rw [PagedStore.nextPage?_of_left left], rfl, rfl⟩⟩
  | @found page rest positions terms term generator ready going cursor kept =>
      refine ⟨rfl, .inr (.inl ⟨page, terms, kept, ?_, rfl, rfl⟩)⟩
      simp [PagedStore.nextPage?_of_cursor cursor, enters, kept]
  | @read page rest positions image filled term generator ready going cursor missing fetched loaded =>
      refine ⟨rfl, .inr (.inr (.inl ⟨page, image, filled, missing, loaded, ?_, rfl, rfl⟩))⟩
      simp [PagedStore.nextPage?_of_cursor cursor, enters, missing, PagedSession.image, fetched]
  | @unread page rest fault left ready going cursor missing failed =>
      refine ⟨rfl, .inl ⟨?_, rfl, rfl⟩⟩
      simp [PagedStore.nextPage?_of_cursor cursor, enters, Page.isMiscount_of_read failed]
  | @miscounted page count rest image filled ready going cursor missing fetched loaded differs =>
      refine ⟨rfl, .inr (.inr (.inr ⟨page, image, ?_, rfl, rfl⟩))⟩
      simp [PagedStore.nextPage?_of_cursor cursor, enters, PageFault.isMiscount, PagedSession.image,
        fetched]

end PagedSession

namespace LoggedSession

variable {settings : Paging} {directory : Path} {owned : Bool} {logged : LoggedSession}

theorem steady_respond (room : 0 < settings.pageTerms)
    (steady : PagedSession.Steady settings directory owned logged.session) (call : LoggedCall) :
    PagedSession.Steady settings directory owned (logged.respond call).2.session := by
  cases call with
  | ask call => exact steady.respond room call
  | resetTraffic =>
      obtain ⟨terms, kept⟩ := steady.kept
      exact ⟨⟨terms, { kept with consistent := { kept.consistent with } }⟩,
        fun ready => { steady.sweepable ready with }⟩

/-- What every call keeps in a steady session, all of them keep. -/
theorem performAll_steady {keeps : LoggedSession → Prop} (room : 0 < settings.pageTerms)
    (step : ∀ logged call, PagedSession.Steady settings directory owned logged.session →
      keeps logged → keeps (logged.respond call).2)
    {folder : FoundFolder} (first : keeps (opened settings directory owned folder))
    (calls : List LoggedCall) :
    let run := (performAll respond (opened settings directory owned folder) calls).2
    PagedSession.Steady settings directory owned run.session ∧ keeps run :=
  @performAll_invariant _ _ _ respond
    (fun logged => PagedSession.Steady settings directory owned logged.session ∧ keeps logged)
    (fun logged call kept =>
      ⟨steady_respond room kept.1 call, step logged call kept.1 kept.2⟩) _
    ⟨PagedSession.steady_opened settings directory owned folder, first⟩ calls

end LoggedSession

end HingeLoss
