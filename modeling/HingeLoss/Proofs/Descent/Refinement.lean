import HingeLoss.Paged.Stream
import HingeLoss.Proofs.Descent.Alike
import HingeLoss.Proofs.Paged.Refinement

/-! A descent over pages is the descent over the same terms in memory. -/

namespace HingeLoss

/-- The store after calls that follow one another. -/
def PagedStore.after (store : PagedStore) (folder : FoundFolder) (calls : List ReplayCall) :
    PagedStore :=
  calls.foldl (fun store call => (store.respond folder call).2) store

/-- The reader after calls that follow one another. -/
def Reading.after (reading : Reading) (calls : List ReplayCall) : Reading :=
  calls.foldl (fun reading call => (reading.respond call).2) reading

namespace PagedStore

section Following

variable {store : PagedStore} {folder : FoundFolder} {pages : List (List (Term Single))}
  {reading : Reading}

theorem Follows.size (follows : store.Follows folder pages reading) :
    reading.store.size = pages.flatten.length := by
  rw [ResidentStore.size, ← Array.length_toList, follows.terms, List.length_map]

/-- A call adds no terms. -/
theorem Follows.termCount_respond (follows : store.Follows folder pages reading)
    (call : ReplayCall) : (store.respond folder call).2.termCount = store.termCount := by
  cases call with
  | setWeight rule weight =>
      simp only [PagedStore.respond, PagedStore.setWeight, follows.replayable.phase]
      cases weight.validate rule <;> rfl
  | beginSweep =>
      obtain ⟨cursor, begun, -⟩ := follows.replayable.beginSweep follows.pagesInOrder
      simp only [PagedStore.respond, begun]
  | nextTerm =>
      obtain ⟨pool, recent, traffic, cursor, generator, lent, -⟩ :=
        follows.replayable.nextTerm follows.termsInOrder
      simp only [PagedStore.respond, lent]

theorem Follows.after (follows : store.Follows folder pages reading) (calls : List ReplayCall) :
    (store.after folder calls).Follows folder pages (reading.after calls) ∧
      (store.after folder calls).termCount = store.termCount := by
  induction calls generalizing store reading with
  | nil => exact ⟨follows, rfl⟩
  | cons call later inductionHypothesis =>
      obtain ⟨followsLater, counted⟩ := inductionHypothesis (follows.respond call).2
      exact ⟨followsLater, counted.trans (follows.termCount_respond call)⟩

/-- A reader who has come past the last term can as well stay there. -/
theorem Follows.stay {position : Nat}
    (follows : store.Follows folder pages ⟨reading.store, position + 1⟩)
    (past : reading.store.terms.size ≤ position) :
    store.Follows folder pages ⟨reading.store, position⟩ := by
  refine { follows with remaining := ?_ }
  rw [follows.remaining, List.drop_of_length_le, List.drop_of_length_le]
  · rw [Array.length_toList]
    exact past
  · rw [Array.length_toList]
    exact Nat.le_succ_of_le past

end Following

end PagedStore

/-- A stream over pages beside a sweep in order over the terms of a reader. -/
structure Parallel (stream : PagedStream) (sweep : ResidentSweep Single)
    (pages : List (List (Term Single))) (reading : Reading) : Prop where
  cancelled : stream.cancelled = false
  counted : stream.store.termCount = pages.flatten.length
  follows : stream.store.Follows stream.folder pages reading
  inOrder : sweep.generator = none
  order : sweep.order = Array.range sweep.terms.size
  terms : reading.store.terms = sweep.terms

namespace Parallel

variable {stream : PagedStream} {sweep : ResidentSweep Single} {pages : List (List (Term Single))}
  {reading : Reading}

theorem beginSweep (parallel : Parallel stream sweep pages reading) :
    (TermStream.beginSweep stream).1 = (TermStream.beginSweep sweep).1 ∧
      Parallel (TermStream.beginSweep stream).2 (TermStream.beginSweep sweep).2 pages
        ⟨reading.store, 0⟩ ∧
      (TermStream.beginSweep sweep).2.position = 0 := by
  obtain ⟨cursor, begun, -, -⟩ :=
    parallel.follows.replayable.beginSweep parallel.follows.pagesInOrder
  have follows := parallel.follows.beginSweep.2
  simp only [PagedStore.respond, begun, Reading.respond] at follows
  simp only [TermStream.beginSweep, begun, ResidentSweep.begin, parallel.inOrder]
  exact ⟨trivial, { parallel with follows := follows, inOrder := rfl }, trivial⟩

/-- A request finds the same term on both sides, and a sweep that is over stays over. -/
theorem nextTerm (parallel : Parallel stream sweep pages reading)
    (position : reading.position = sweep.position) :
    (TermStream.nextTerm stream).1 = (TermStream.nextTerm sweep).1 ∧
      Parallel (TermStream.nextTerm stream).2 (TermStream.nextTerm sweep).2 pages
        ⟨reading.store, (TermStream.nextTerm sweep).2.position⟩ := by
  obtain ⟨pool, recent, traffic, cursor, generator, lent, -, -⟩ :=
    parallel.follows.replayable.nextTerm parallel.follows.termsInOrder
  have follows := parallel.follows.nextTerm.2
  have found : (stream.store.remaining pages).head? = sweep.terms[sweep.position]? := by
    rw [parallel.follows.remaining, List.head?_drop, Array.getElem?_toList, parallel.terms,
      position]
  rw [found] at lent
  simp only [PagedStore.respond, lent, Reading.respond, position] at follows
  simp only [TermStream.nextTerm, parallel.cancelled, lent]
  by_cases inRange : sweep.position < sweep.terms.size
  · have next : sweep.next =
        (some sweep.terms[sweep.position], { sweep with position := sweep.position + 1 }) := by
      simp [ResidentSweep.next, parallel.order, inRange]
    rw [next, Array.getElem?_eq_getElem inRange]
    exact ⟨rfl, { parallel with cancelled := rfl, follows := follows }⟩
  · -- Behind the last term the reader goes on counting, but the sweep stays where it is.
    have past := Nat.le_of_not_lt inRange
    have next : sweep.next = (none, sweep) := by
      simp [ResidentSweep.next, parallel.order, inRange]
    rw [next, Array.getElem?_eq_none past]
    exact ⟨rfl, { parallel with
      cancelled := rfl
      follows := follows.stay (parallel.terms ▸ past) }⟩

end Parallel

/-- A reader of the terms in memory cannot be told from a stream over their pages. -/
theorem parallel_bisimulation : TermStream.Bisimulation
    (fun stream sweep => ∃ pages reading, Parallel stream sweep pages reading)
    (fun stream sweep => ∃ pages reading, Parallel stream sweep pages reading ∧
      reading.position = sweep.position) where
  beginSweep := by
    rintro stream sweep ⟨pages, reading, parallel⟩
    obtain ⟨answers, begun, position⟩ := parallel.beginSweep
    exact ⟨answers, pages, _, begun, position.symm⟩
  nextTerm := by
    rintro stream sweep ⟨pages, reading, parallel, position⟩
    obtain ⟨answers, lent⟩ := parallel.nextTerm position
    exact ⟨answers, pages, _, lent, rfl⟩
  termCount := by
    rintro stream sweep ⟨pages, reading, parallel, -⟩
    change stream.store.termCount = sweep.order.size
    rw [parallel.counted, parallel.order, Array.size_range, ← parallel.follows.size,
      ResidentStore.size, parallel.terms]
  leave := by
    rintro stream sweep ⟨pages, reading, parallel, -⟩
    exact ⟨pages, reading, parallel⟩

namespace Descent

/-- A descent over a store that follows a reader is the descent over the terms of the reader. -/
theorem optimize_of_follows (settings : DescentSettings Single)
    (inOrder : settings.shuffleTerms = false) {store : PagedStore} {folder : FoundFolder}
    {pages : List (List (Term Single))} {reading : Reading}
    (follows : store.Follows folder pages reading)
    (counted : store.termCount = reading.store.size) (atoms : AtomStore Single) :
    ∃ (answer : Except (DescentFault Single) (RunReport Double)) (stream : PagedStream)
      (left : AtomStore Single),
      optimize settings (fun _ => false) (⟨store, folder, false⟩ : PagedStream) atoms =
          (answer, stream, left) ∧
        optimizeResident settings false reading.store atoms = (answer, left) := by
  have ready : reading.store.ensureReady = .ok () := by
    rw [ResidentStore.ensureReady, follows.phase]
  let sweep : ResidentSweep Single :=
    ⟨reading.store.terms, Array.range reading.store.size, 0, .chaCha, none⟩
  have parallel : Parallel ⟨store, folder, false⟩ sweep pages reading :=
    ⟨rfl, counted.trans follows.size, follows, rfl, rfl, rfl⟩
  obtain ⟨answer, stream, _, left, ran, otherRan, -⟩ :=
    optimize_alike parallel_bisimulation settings (fun _ _ _ => rfl) atoms
      ⟨pages, reading, parallel⟩
  refine ⟨answer, stream, left, ran, ?_⟩
  rw [optimize] at otherRan
  simp only [optimizeResident, optimizeResidentUnder, shuffleSeed, inOrder, Bool.false_eq_true,
    if_false, ResidentSweep.ofStore, ready, Except.map, Option.map_none]
  rw [otherRan]

/-- A descent over pages in order gives the report or fault of the descent in memory and leaves the
same atoms, as long as the pages are saved and stay as they are. -/
theorem optimize_paged_eq_resident (paging : Paging) (directory : Path) (owned : Bool)
    (folder : FoundFolder) (grounded : AtomStore Single) (terms : List (Term Single))
    (settings : DescentSettings Single) (followsOrder : settings.shuffleTerms = false)
    (termsInOrder : paging.shufflePage = false) (pagesInOrder : paging.randomizePageAccess = false)
    (room : 0 < paging.pageTerms) (wellFormed : ∀ term ∈ terms, term.WellFormed)
    (saved : ∀ answer ∈ ((PagedStore.fresh paging directory owned).addAll grounded folder terms).1,
      PagedStore.unsaved answer = false)
    (savedLast : PagedStore.unsaved
      (((PagedStore.fresh paging directory owned).addAll grounded folder terms).2.1.finish
        ((PagedStore.fresh paging directory owned).addAll grounded folder terms).2.2.2).1 = false) :
    let paged := (PagedStore.fresh paging directory owned).addAll grounded folder terms
    let kept := ResidentStore.empty.addAll grounded terms
    ∃ store left ready, paged.2.1.finish paged.2.2.2 = (.ok store, left) ∧
      kept.2.1.finish = .ok ready ∧
      ∀ (calls : List ReplayCall) (atoms : AtomStore Single),
        ∃ (answer : Except (DescentFault Single) (RunReport Double)) (stream : PagedStream)
          (moved : AtomStore Single),
          optimize settings (fun _ => false)
              (⟨store.after left calls, left, false⟩ : PagedStream) atoms =
              (answer, stream, moved) ∧
            optimizeResident settings false ((Reading.finished ready).after calls).store atoms =
              (answer, moved) := by
  intro paged kept
  obtain ⟨-, -, pages, mirrors⟩ :=
    (PagedStore.mirrors_fresh paging directory owned folder room).addAll wellFormed grounded saved
  have sameSettings :=
    PagedStore.settings_addAll (PagedStore.fresh paging directory owned) grounded folder terms
  obtain ⟨store, left, all, ready, sealedPaged, sealedResident, size, -, -, follows⟩ :=
    mirrors.finish (sameSettings ▸ termsInOrder) (sameSettings ▸ pagesInOrder) savedLast
  refine ⟨store, left, ready, sealedPaged, sealedResident, fun calls atoms => ?_⟩
  obtain ⟨followsLater, counted⟩ := follows.after calls
  apply optimize_of_follows settings followsOrder followsLater
  rw [counted, size, followsLater.size, ← follows.size]
  rfl

/-- One term to a page, and a weight that changes before the run. -/
theorem optimize_paged_eq_resident_sample :
    let settings : DescentSettings Single := { DescentSettings.standard with shuffleTerms := false }
    let terms : List (Term Single) :=
      [⟨⟨0⟩, .linear, .soft 1, 0, [⟨0⟩], [1]⟩, ⟨⟨1⟩, .squaredHinge, .soft 1, 1, [⟨1⟩, ⟨0⟩], [1, 1]⟩]
    let paged := (PagedStore.fresh (.sequential 1) ⟨"pages", ["pages"], false⟩ true).addAll
      PagedStore.sampleAtoms (.ok []) terms
    let kept := ResidentStore.empty.addAll PagedStore.sampleAtoms terms
    let calls := [ReplayCall.setWeight ⟨0⟩ (.soft 1)]
    ∃ store left ready, paged.2.1.finish paged.2.2.2 = (.ok store, left) ∧
      kept.2.1.finish = .ok ready ∧
      ∃ (answer : Except (DescentFault Single) (RunReport Double)) (stream : PagedStream)
        (moved : AtomStore Single),
        optimize settings (fun _ => false) (⟨store.after left calls, left, false⟩ : PagedStream)
            PagedStore.sampleAtoms = (answer, stream, moved) ∧
          optimizeResident settings false ((Reading.finished ready).after calls).store
            PagedStore.sampleAtoms = (answer, moved) := by
  intro settings terms paged kept calls
  obtain ⟨store, left, ready, sealedPaged, sealedResident, same⟩ :=
    optimize_paged_eq_resident (.sequential 1) ⟨"pages", ["pages"], false⟩ true (.ok [])
      PagedStore.sampleAtoms terms settings rfl rfl rfl (by decide)
      (by decide +kernel) (by decide +kernel) (by decide +kernel)
  exact ⟨store, left, ready, sealedPaged, sealedResident, same calls PagedStore.sampleAtoms⟩

end Descent

end HingeLoss
