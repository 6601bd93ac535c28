import HingeLoss.Proofs.Paged.Intact
import HingeLoss.Proofs.Paged.Ticks
import HingeLoss.Proofs.Paged.Traffic
import Mathlib.Algebra.Order.BigOperators.Group.List
import Mathlib.Algebra.Order.Group.Nat
import Mathlib.Data.List.TakeWhile

/-! The pages in memory are the ones entered last, as they were read from their files. -/

namespace HingeLoss

/-- The pages that were entered, the last one first: since the store last gave up its pages, and
between the earlier times at which it did. -/
structure PageHistory where
  present : List Nat
  past : List (List Nat)
deriving DecidableEq

/-- The number of entries of pages that were not in memory, with room for a number of pages. -/
def PageHistory.misses (room : Nat) (history : PageHistory) : Nat :=
  Recency.misses room history.present + (history.past.map (Recency.misses room)).sum

theorem PageHistory.misses_le {room larger : Nat} (more : room ≤ larger) (history : PageHistory) :
    history.misses larger ≤ history.misses room :=
  Nat.add_le_add (Recency.misses_le more history.present)
    (List.sum_le_sum fun entered _ => Recency.misses_le more entered)

namespace PageEvent

def history : List PageEvent → PageHistory
  | [] => ⟨[], []⟩
  | .loaded page _ :: earlier =>
      { history earlier with present := page :: (history earlier).present }
  | .kept page :: earlier =>
      { history earlier with present := page :: (history earlier).present }
  | .cleared :: earlier => ⟨[], (history earlier).present :: (history earlier).past⟩
  | _ :: earlier => history earlier

/-- The image that a page was entered with when it was last read. -/
def lastImage? (page : Nat) : List PageEvent → Option Bytes
  | [] => none
  | .loaded other image :: earlier =>
      if other = page then some image else lastImage? page earlier
  | .cleared :: _ => none
  | _ :: earlier => lastImage? page earlier

def isLoaded : PageEvent → Bool
  | .loaded _ _ => true
  | _ => false

/-- Whether an event neither enters a page nor gives up the pages. -/
def isSilent : PageEvent → Bool
  | .written _ _ => true
  | .miscounted _ _ => true
  | .reset => true
  | _ => false

/-- Silent events change neither the history nor the images nor the number of pages read. -/
theorem silent_append {events log : List PageEvent}
    (silent : ∀ event ∈ events, event.isSilent = true) :
    history (events ++ log) = history log ∧
      (∀ page, lastImage? page (events ++ log) = lastImage? page log) ∧
      (events ++ log).countP isLoaded = log.countP isLoaded := by
  induction events with
  | nil => exact ⟨rfl, fun _ => rfl, rfl⟩
  | cons event later inductionHypothesis =>
      obtain ⟨first, others⟩ := List.forall_mem_cons.mp silent
      obtain ⟨same, images, count⟩ := inductionHypothesis others
      rw [List.cons_append, List.countP_cons]
      cases event with
      | written page bytes => exact ⟨same, images, count⟩
      | miscounted page image => exact ⟨same, images, count⟩
      | reset => exact ⟨same, images, count⟩
      | _ => cases first

end PageEvent

namespace LoggedSession

open PageEvent Recency

/-- The pages in memory are the most recent ones, with the terms of their last images, and the log
tells the pages that were not in memory from those that were. -/
structure Ordered (room : Nat) (logged : LoggedSession) : Prop where
  capacity : logged.session.store.recent.capacity = room
  pages : logged.session.store.recent.pages.map Prod.fst =
    (mostRecent (history logged.log).present).take room
  images : ∀ held ∈ logged.session.store.recent.pages, ∃ image records,
    lastImage? held.1 logged.log = some image ∧ Page.IsImage image records ∧
      held.2.toList = (records.map TermRecord.term).map logged.session.store.override
  reads : logged.log.countP isLoaded = (history logged.log).misses room

variable {room : Nat} {logged : LoggedSession} {session : PagedSession}

theorem ordered_opened (settings : Paging) (directory : Path) (owned : Bool)
    (folder : FoundFolder) :
    Ordered settings.cachePages (opened settings directory owned folder) where
  capacity := rfl
  pages := List.take_nil.symm
  images := by simp [opened, PagedSession.opened, PagedStore.fresh, RecentPages.ofCapacity]
  reads := rfl

theorem Ordered.silent (ordered : logged.Ordered room) {events : List PageEvent}
    (silent : ∀ event ∈ events, event.isSilent = true)
    (recent : session.store.recent = logged.session.store.recent)
    (overrides : session.store.overrides = logged.session.store.overrides) :
    Ordered room ⟨session, events.reverse ++ logged.log⟩ := by
  obtain ⟨same, images, count⟩ := @silent_append events.reverse logged.log
    fun event member => silent event (List.mem_reverse.mp member)
  have override : session.store.override = logged.session.store.override := by
    funext term
    rw [PagedStore.override_eq, PagedStore.override_eq, overrides]
  refine ⟨recent ▸ ordered.capacity, ?_, ?_, ?_⟩
  · rw [recent, same, ordered.pages]
  · intro held member
    rw [recent] at member
    rw [images, override]
    exact ordered.images held member
  · rw [count, same, ordered.reads]

theorem Ordered.same (ordered : logged.Ordered room)
    (recent : session.store.recent = logged.session.store.recent)
    (overrides : session.store.overrides = logged.session.store.overrides) :
    Ordered room ⟨session, logged.log⟩ :=
  @Ordered.silent room logged session ordered [] (by simp) recent overrides

/-- A page that is entered is the first one in memory. -/
theorem Ordered.enter (ordered : logged.Ordered room) (positive : 0 < room) {page : Nat}
    {terms : Array (Term Single)} {event : PageEvent}
    (recent : session.store.recent = logged.session.store.recent.use page terms)
    (overrides : session.store.overrides = logged.session.store.overrides)
    (entered : history (event :: logged.log) =
      { history logged.log with present := page :: (history logged.log).present })
    (image : ∃ image records, lastImage? page (event :: logged.log) = some image ∧
      Page.IsImage image records ∧
        terms.toList = (records.map TermRecord.term).map logged.session.store.override)
    (others : ∀ other, other ≠ page →
      lastImage? other (event :: logged.log) = lastImage? other logged.log)
    (read : event.isLoaded = !decide (page ∈ logged.session.store.recent.pages.map Prod.fst)) :
    Ordered room ⟨session, event :: logged.log⟩ := by
  have capacity := ordered.capacity
  have override : session.store.override = logged.session.store.override := by
    funext term
    rw [PagedStore.override_eq, PagedStore.override_eq, overrides]
  refine ⟨by rw [recent]; exact capacity, ?_, ?_, ?_⟩
  · have used := @RecentPages.map_fst_use_of_mostRecent _ page terms _
      (capacity ▸ positive) (capacity ▸ ordered.pages)
    rw [recent, used, capacity, entered]
  · intro held member
    rw [recent] at member
    rw [override]
    rcases RecentPages.mem_use_cases member with rfl | ⟨old, different⟩
    · exact image
    · rw [others _ different]
      exact ordered.images held old
  · rw [List.countP_cons, ordered.reads, entered, read, ordered.pages]
    simp only [PageHistory.misses, misses]
    by_cases kept : page ∈ (mostRecent (history logged.log).present).take room
    · simp [kept]
    · simp [kept]
      omega

theorem Ordered.setWeight (ordered : logged.Ordered room) (rule : RuleId)
    (weight : Weight Single) :
    Ordered room ⟨{ logged.session with store := logged.session.store.reweighed rule weight },
      logged.log⟩ where
  capacity := ordered.capacity
  pages := (RecentPages.map_fst_reweigh _ rule weight).trans ordered.pages
  images held member := by
    obtain ⟨before, old, rfl⟩ := RecentPages.mem_reweigh member
    obtain ⟨image, records, found, isImage, terms⟩ := ordered.images before old
    refine ⟨image, records, found, isImage, ?_⟩
    rw [PagedStore.map_override_reweighed, ← terms, Array.toList_map]
  reads := ordered.reads

/-- A store that gives up its pages keeps none in memory. -/
theorem Ordered.clear (ordered : logged.Ordered room)
    (recent : session.store.recent = logged.session.store.recent.clear) :
    Ordered room ⟨session, .cleared :: logged.log⟩ where
  capacity := recent ▸ ordered.capacity
  pages := by
    rw [recent]
    exact List.take_nil.symm
  images held member := by
    rw [recent] at member
    exact absurd member List.not_mem_nil
  reads := by
    rw [List.countP_cons, ordered.reads]
    simp [history, isLoaded, PageHistory.misses, misses]

/-- Grounding leaves the pages in memory and the weights that were set as they are. -/
theorem recent_of_places (session : PagedSession) {call : PagedCall}
    (places : call.places = true) :
    (session.respond call).2.store.recent = session.store.recent ∧
      (session.respond call).2.store.overrides = session.store.overrides := by
  have add (session : PagedSession) (term : Term Single) :
      (session.respond (.add term)).2.store.recent = session.store.recent ∧
        (session.respond (.add term)).2.store.overrides = session.store.overrides := by
    obtain ⟨pageSizes, traffic, components, counts, pool, pendingBytes, termCount, same⟩ :=
      session.store.add_changes term session.atoms session.folder
    simp only [PagedSession.respond, same, and_self]
  have finish (session : PagedSession) :
      (session.respond .finish).2.store.recent = session.store.recent ∧
        (session.respond .finish).2.store.overrides = session.store.overrides := by
    simp only [PagedSession.respond]
    rcases session.store.finish_cases session.folder with
      ⟨fault, left, same, -⟩ | ⟨-, same⟩ | ⟨-, base, left, flushed, same⟩
    · rw [same]
      exact ⟨rfl, rfl⟩
    · rw [same]
      exact ⟨rfl, rfl⟩
    · obtain ⟨pageSizes, pool, pendingBytes, traffic, rfl⟩ := PagedStore.flush_changes flushed
      rw [same]
      exact ⟨rfl, rfl⟩
  cases call with
  | add term => exact add session term
  | finish => exact finish session
  | ground source steps =>
      let pass := Grounding.start session.store session.atoms session.folder source
        session.cancelled
      exact @Grounding.trace_keeps (fun _ => True) pass []
        (fun _ after => after.store.recent = session.store.recent ∧
          after.store.overrides = session.store.overrides)
        (fun _ _ _ same => same)
        (fun _ middle same => ⟨(finish middle).1.trans same.1, (finish middle).2.trans same.2⟩)
        (fun _ middle term same _ =>
          ⟨(add middle term).1.trans same.1, (add middle term).2.trans same.2⟩)
        steps ⟨rfl, rfl⟩ fun _ _ _ _ => trivial
  | _ => cases places

/-- A request enters a page that is in memory, or one that is not, or none. -/
theorem Ordered.nextTerm (ordered : logged.Ordered room) (positive : 0 < room)
    (sweepable : logged.session.store.Sweepable) :
    Ordered room (logged.respond (.ask .nextTerm)).2 := by
  obtain ⟨overrides, outcome⟩ := PagedSession.nextTerm_cases sweepable
  simp only [respond]
  rcases outcome with ⟨events, -, recent⟩ | ⟨page, terms, kept, events, -, recent⟩ |
    ⟨page, image, filled, missing, loaded, events, -, recent⟩ |
    ⟨page, image, events, -, recent⟩
  · rw [events]
    exact ordered.same recent overrides
  · rw [events]
    have member := RecentPages.mem_of_terms? kept
    refine ordered.enter positive recent overrides rfl (ordered.images _ member)
      (fun _ _ => rfl) ?_
    simpa [isLoaded] using ⟨terms, member⟩
  · rw [events]
    obtain ⟨records, isImage, -, -, live⟩ := Page.isImage_of_decode (Page.decode_of_load loaded)
    refine ordered.enter positive recent overrides rfl ⟨image, records, ?_, isImage, ?_⟩
      (fun other different => ?_) ?_
    · simp [lastImage?]
    · simp [live]
    · simp [lastImage?, Ne.symm different]
    · have absent : page ∉ logged.session.store.recent.pages.map Prod.fst := by
        rw [← RecentPages.isSome_terms?_iff, missing]
        exact Bool.false_ne_true
      simp only [isLoaded, absent, decide_false, Bool.not_false]
  · rw [events]
    exact ordered.silent (by simp [isSilent]) recent overrides

/-- Every call keeps the pages in memory ordered. -/
theorem Ordered.respond {settings : Paging} {directory : Path} {owned : Bool}
    (positive : 0 < room) (call : LoggedCall)
    (steady : PagedSession.Steady settings directory owned logged.session)
    (ordered : logged.Ordered room) : Ordered room (logged.respond call).2 := by
  cases call with
  | resetTraffic =>
      let store := { logged.session.store with traffic := {} }
      exact @Ordered.silent room logged { logged.session with store } ordered [.reset]
        (by simp [isSilent]) rfl rfl
  | ask call =>
      have unwritten (after : PagedSession)
          (sizes : after.store.pageSizes = logged.session.store.pageSizes)
          (recent : after.store.recent = logged.session.store.recent)
          (overrides : after.store.overrides = logged.session.store.overrides) :
          Ordered room ⟨after, (logged.session.written after).reverse ++ logged.log⟩ := by
        rw [PagedSession.written_nil sizes]
        exact ordered.same recent overrides
      have grounded {call : PagedCall} (places : call.places = true) :
          Ordered room (logged.respond (.ask call)).2 := by
        obtain ⟨pages, writes⟩ := logged.session.writes_of_places places
        obtain ⟨recent, overrides⟩ := recent_of_places logged.session places
        simp only [LoggedSession.respond, writes.events places]
        refine ordered.silent (fun event member => ?_) recent overrides
        obtain ⟨entry, -, rfl⟩ := List.mem_map.mp member
        rfl
      cases call with
      | add term => exact grounded rfl
      | finish => exact grounded rfl
      | ground source steps => exact grounded rfl
      | nextTerm => exact ordered.nextTerm positive steady.sweepable
      | setToken cancelled => exact unwritten _ rfl rfl rfl
      | changeAtoms change => exact unwritten _ rfl rfl rfl
      | changeFolder folder => exact unwritten _ rfl rfl rfl
      | beginSweep =>
          simp only [LoggedSession.respond, PagedSession.events, PagedSession.respond]
          cases begun : logged.session.store.beginSweep with
          | error fault => exact unwritten _ rfl rfl rfl
          | ok store =>
              obtain ⟨-, pages, generator, rfl, -⟩ := PagedStore.beginSweep_ok begun
              exact unwritten _ rfl rfl rfl
      | setWeight rule weight =>
          simp only [LoggedSession.respond, PagedSession.events, PagedSession.respond]
          rcases logged.session.store.setWeight_cases rule weight with ⟨fault, same⟩ | ⟨-, -, same⟩
          · rw [same]
            exact unwritten _ rfl rfl rfl
          · rw [same]
            have none : logged.session.written { logged.session with
                store := logged.session.store.reweighed rule weight } = [] :=
              PagedSession.written_nil rfl
            simp only [none]
            exact ordered.setWeight rule weight
      | clear =>
          simp only [LoggedSession.respond, PagedSession.events, PagedSession.respond]
          rcases logged.session.store.clear_cases logged.session.folder with
            ⟨-, fault, same⟩ | ⟨-, ⟨fault, left, -, same⟩ | ⟨left, -, same⟩⟩
          · rw [same]
            exact ordered.same rfl rfl
          · rw [same]
            exact ordered.same rfl rfl
          · rw [same]
            exact ordered.clear rfl
      | close =>
          simp only [LoggedSession.respond, PagedSession.events, PagedSession.respond]
          rcases logged.session.store.close_cases logged.session.folder with
            ⟨-, same⟩ | ⟨notClosed, ⟨fault, left, -, same⟩ | ⟨answer, left, same⟩⟩
          · simp only [same, if_true]
            exact ordered.same rfl rfl
          · simp only [same, if_true]
            exact ordered.same rfl rfl
          · simp only [same, if_neg (Ne.symm notClosed)]
            exact ordered.clear rfl

theorem performAll_ordered {settings : Paging} (room : 0 < settings.pageTerms)
    (cached : 0 < settings.cachePages) (directory : Path) (owned : Bool) (folder : FoundFolder)
    (calls : List LoggedCall) :
    let run := (performAll respond (opened settings directory owned folder) calls).2
    PagedSession.Steady settings directory owned run.session ∧ run.Ordered settings.cachePages :=
  @performAll_steady settings directory owned (Ordered settings.cachePages) room
    (fun _ call steady ordered => ordered.respond cached call steady) folder
    (ordered_opened settings directory owned folder) calls

end LoggedSession

namespace PageEvent

theorem countP_isLoaded_le (log : List PageEvent) :
    log.countP isLoaded ≤ (log.filterMap readBytes?).length := by
  rw [List.length_filterMap_eq_countP]
  apply List.countP_mono_left
  intro event _ loaded
  cases event with
  | loaded page image => rfl
  | _ => cases loaded

/-- Without miscounted pages, every page that was read has been entered. -/
theorem length_readBytes_le {log : List PageEvent}
    (counted : ∀ page image, .miscounted page image ∉ log) :
    (log.filterMap readBytes?).length ≤ log.countP isLoaded := by
  rw [List.length_filterMap_eq_countP]
  apply List.countP_mono_left
  intro event member read
  cases event with
  | loaded page image => rfl
  | miscounted page image => exact absurd member (counted page image)
  | _ => cases read

end PageEvent

namespace LoggedSession

open PageEvent Recency

variable {logged other : LoggedSession}

/-- With more room for the same pages, no more of them are loaded. -/
theorem Ordered.countP_isLoaded_le {room larger : Nat} (otherOrdered : other.Ordered larger)
    (ordered : logged.Ordered room) (more : room ≤ larger)
    (same : history other.log = history logged.log) :
    other.log.countP isLoaded ≤ logged.log.countP isLoaded := by
  rw [otherOrdered.reads, ordered.reads, same]
  exact PageHistory.misses_le more _

/-- The counters compare as the loads do, if the second one has not been reset and the first one
counts no page that was read but not entered. -/
theorem pagesRead_le (otherTraffic : other.session.store.traffic = .of (sinceReset other.log))
    (traffic : logged.session.store.traffic = .of (sinceReset logged.log))
    (noReset : .reset ∉ logged.log) (counted : ∀ page image, .miscounted page image ∉ other.log)
    (fewer : other.log.countP isLoaded ≤ logged.log.countP isLoaded) :
    other.session.store.traffic.pagesRead ≤ logged.session.store.traffic.pagesRead := by
  have whole : sinceReset logged.log = logged.log := by
    refine List.takeWhile_eq_self_iff.mpr fun event member => decide_eq_true ?_
    rintro rfl
    exact noReset member
  have part := (List.takeWhile_sublist (fun event => decide (event ≠ .reset))
    (l := other.log)).filterMap readBytes?
  rw [whole] at traffic
  calc other.session.store.traffic.pagesRead
      = ((sinceReset other.log).filterMap readBytes?).length :=
        congrArg Traffic.pagesRead otherTraffic
    _ ≤ (other.log.filterMap readBytes?).length := part.length_le
    _ ≤ other.log.countP isLoaded := length_readBytes_le counted
    _ ≤ logged.log.countP isLoaded := fewer
    _ ≤ (logged.log.filterMap readBytes?).length := PageEvent.countP_isLoaded_le logged.log
    _ = logged.session.store.traffic.pagesRead := (congrArg Traffic.pagesRead traffic).symm

/-- A store that keeps pages holds the ones entered last, each as it was read and under its present
weights, and with more room it reads no more pages. -/
theorem resident_pages_most_recent (settings : Paging) (directory : Path) (owned : Bool)
    (folder : FoundFolder) (room : 0 < settings.pageTerms) (cached : 0 < settings.cachePages)
    (calls : List LoggedCall) :
    let run := (performAll respond (opened settings directory owned folder) calls).2
    let store := run.session.store
    let entered := (history run.log).present
    let resident := store.recent.pages.map Prod.fst
    (resident = (mostRecent entered).take settings.cachePages ∧ resident.Nodup ∧
      resident.length = min settings.cachePages entered.toFinset.card) ∧
    (∀ page, page ∈ resident ↔ ∃ later earlier, entered = later ++ page :: earlier ∧
      page ∉ later ∧ later.toFinset.card < settings.cachePages) ∧
    (∀ held ∈ store.recent.pages, ∃ image records,
      lastImage? held.1 run.log = some image ∧ Page.IsImage image records ∧
        held.2.toList = (records.map TermRecord.term).map store.override) ∧
    (∀ page term, store.nextPage? = some page →
      (store.nextTerm run.session.cancelled run.session.folder).1 = .ok (some term) →
      page ∈ resident ∧ run.session.events .nextTerm = [.kept page] ∨
        page ∉ resident ∧ ∃ image, run.session.events .nextTerm = [.loaded page image] ∧
          Page.fetch store.directory page run.session.folder = .ok image) ∧
    (∀ uses : List CacheCall,
      let slots := performAll PageSlots.respond (.ofCapacity settings.cachePages) uses
      let recent := performAll RecentPages.respond (.ofCapacity settings.cachePages) uses
      slots.1 = recent.1 ∧ (slots.2.slots.map PageSlot.held).Perm recent.2.pages) ∧
    ∀ (larger : Paging) (otherDirectory : Path) (otherOwned : Bool)
      (otherFolder : FoundFolder) (otherCalls : List LoggedCall), 0 < larger.pageTerms →
      settings.cachePages ≤ larger.cachePages →
      let other := (performAll respond
        (opened larger otherDirectory otherOwned otherFolder) otherCalls).2
      history other.log = history run.log →
      other.log.countP isLoaded ≤ run.log.countP isLoaded ∧
        (.reset ∉ run.log → (∀ page image, .miscounted page image ∉ other.log) →
          other.session.store.traffic.pagesRead ≤ store.traffic.pagesRead) := by
  intro run store entered resident
  obtain ⟨steady, ordered⟩ := performAll_ordered room cached directory owned folder calls
  have resident_eq : resident = (mostRecent entered).take settings.cachePages := ordered.pages
  refine ⟨⟨resident_eq, ?_, ?_⟩, fun page => ?_, ordered.images, fun page term next answered => ?_,
    fun uses => PageSlots.answers_alike cached uses, ?_⟩
  · rw [resident_eq]
    exact (nodup_mostRecent entered).sublist (List.take_sublist _ _)
  · rw [resident_eq, List.length_take, length_mostRecent]
  · rw [resident_eq]
    exact mem_take_mostRecent
  · have kept : (store.recent.terms? page).isSome = true ↔ page ∈ resident :=
      RecentPages.isSome_terms?_iff
    obtain ⟨ready, going⟩ := (steady.sweepable.request run.session.cancelled
      run.session.folder).enters next answered
    obtain ⟨-, entry⟩ := steady.entry.1 page ready going next
    rw [answered] at entry
    generalize run.session.events .nextTerm = events at entry ⊢
    cases entry with
    | kept _ held => exact .inl ⟨kept.mp held, rfl⟩
    | loaded _ image missing held =>
        refine .inr ⟨fun member => ?_, image, rfl, held⟩
        have found := kept.mpr member
        rw [missing] at found
        cases found
  · intro larger otherDirectory otherOwned otherFolder otherCalls otherRoom more other same
    have otherCached := Nat.lt_of_lt_of_le cached more
    obtain ⟨-, otherOrdered⟩ := performAll_ordered otherRoom otherCached otherDirectory otherOwned
      otherFolder otherCalls
    have fewer := otherOrdered.countP_isLoaded_le ordered more same
    refine ⟨fewer, fun noReset counted => ?_⟩
    exact pagesRead_le
      (performAll_counted otherRoom otherDirectory otherOwned otherFolder otherCalls).2
      (performAll_counted room directory owned folder calls).2 noReset counted fewer

/-- Three pages that are swept whole, then up to the first one, then up to the second one. A store
with room for two of them gives up the first page for the third one, and then the second page for
the first one. A store with room for all of them reads each of them once. -/
theorem resident_pages_most_recent_sample :
    let term : Term Single := ⟨⟨0⟩, .linear, .soft 1, 0, [⟨0⟩], [1]⟩
    let calls := [.changeAtoms (.register ⟨0, false⟩), .add term, .add term, .add term, .finish,
      .beginSweep, .nextTerm, .nextTerm, .nextTerm, .beginSweep, .nextTerm, .beginSweep, .nextTerm,
      .nextTerm].map LoggedCall.ask
    let roomFor (pages : Nat) :=
      (performAll respond (opened { Paging.sequential 1 with cachePages := pages }
        (Path.ofText "pages") true (.ok [])) calls).2
    (history (roomFor 2).log).present = [1, 0, 0, 2, 1, 0] ∧
      (roomFor 2).session.store.recent.pages.map Prod.fst = [1, 0] ∧
      (roomFor 2).session.store.traffic.pagesRead = 5 ∧
      (roomFor 3).session.store.traffic.pagesRead = 3 ∧
      (roomFor 3).session.store.traffic.pagesRead ≤
        (roomFor 2).session.store.traffic.pagesRead := by
  intro term calls roomFor
  obtain ⟨⟨resident, -, -⟩, -, -, -, -, fewer⟩ := resident_pages_most_recent
    { Paging.sequential 1 with cachePages := 2 } (Path.ofText "pages") true (.ok [])
    (by decide) (by decide) calls
  have entered : (history (roomFor 2).log).present = [1, 0, 0, 2, 1, 0] := by decide +kernel
  refine ⟨entered, ?_, by decide +kernel, by decide +kernel, ?_⟩
  · exact resident.trans (by rw [entered]; decide)
  · have same : history (roomFor 3).log = history (roomFor 2).log := by decide +kernel
    refine (fewer { Paging.sequential 1 with cachePages := 3 } _ _ _ calls (by decide)
      (by decide) same).2 (by decide +kernel) fun page image member => ?_
    have whole : ((roomFor 3).log.all fun
        | .miscounted _ _ => false
        | _ => true) = true := by decide +kernel
    cases List.all_eq_true.mp whole _ member

end LoggedSession

end HingeLoss
