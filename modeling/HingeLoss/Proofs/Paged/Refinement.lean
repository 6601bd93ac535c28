import HingeLoss.Proofs.Paged.Grounding
import HingeLoss.Proofs.Paged.Replay

/-! A paged store without shuffles refines a resident store. -/

namespace HingeLoss

/-- What a sealed store is asked for. -/
inductive ReplayCall where
  | setWeight (rule : RuleId) (weight : Weight Single)
  | beginSweep
  | nextTerm

/-- What a sealed store answers. -/
inductive ReplayAnswer where
  | reweighed (answer : Except (StoreFault Single) Nat)
  | begun (answer : Except (StoreFault Single) Unit)
  | lent (answer : Except (StoreFault Single) (Option (Term Single)))

/-- A paged store answers from its folder, with a token that does not fire. -/
def PagedStore.respond (store : PagedStore) (folder : FoundFolder) :
    ReplayCall → ReplayAnswer × PagedStore
  | .setWeight rule weight =>
      match store.setWeight rule weight with
      | .error fault => (.reweighed (.error fault), store)
      | .ok (count, store) => (.reweighed (.ok count), store)
  | .beginSweep =>
      match store.beginSweep with
      | .error fault => (.begun (.error fault), store)
      | .ok store => (.begun (.ok ()), store)
  | .nextTerm =>
      let (answer, store) := store.nextTerm false folder
      (.lent answer, store)

/-- The answers to calls that follow one another. -/
def PagedStore.replay (store : PagedStore) (folder : FoundFolder) : List ReplayCall →
    List ReplayAnswer
  | [] => []
  | call :: later =>
      let (answer, store) := store.respond folder call
      answer :: store.replay folder later

/-- A reader of a resident store, who has come to a position of its terms. -/
structure Reading where
  store : ResidentStore Single
  position : Nat

namespace Reading

/-- A reader at the end of the terms. -/
def finished (store : ResidentStore Single) : Reading := ⟨store, store.size⟩

/-- A request finds the term at the position under its present weight. -/
def respond (reading : Reading) : ReplayCall → ReplayAnswer × Reading
  | .setWeight rule weight =>
      match reading.store.setWeight rule weight with
      | .error fault => (.reweighed (.error fault), reading)
      | .ok (count, store) => (.reweighed (.ok count), { reading with store })
  | .beginSweep => (.begun (.ok ()), { reading with position := 0 })
  | .nextTerm =>
      (.lent (.ok reading.store.terms[reading.position]?),
        { reading with position := reading.position + 1 })

/-- The answers to calls that follow one another. -/
def replay (reading : Reading) : List ReplayCall → List ReplayAnswer
  | [] => []
  | call :: later =>
      let (answer, reading) := reading.respond call
      answer :: reading.replay later

end Reading

namespace PagedStore

/-- A paged store whose sweep stands where a reader of the resident store stands. -/
structure Follows (store : PagedStore) (folder : FoundFolder) (pages : List (List (Term Single)))
    (reading : Reading) : Prop where
  replayable : store.Replayable folder pages
  termsInOrder : store.settings.shufflePage = false
  pagesInOrder : store.settings.randomizePageAccess = false
  phase : reading.store.phase = .ready
  terms : reading.store.terms.toList = pages.flatten.map store.override
  remaining : store.remaining pages = reading.store.terms.toList.drop reading.position
  counted : ∀ rule,
    store.counts.getD rule 0 = reading.store.terms.countP fun term => term.rule = rule

/-- A weight that is refused is refused by both stores, and one that is accepted reaches the same
terms in both. -/
theorem Follows.setWeight {store : PagedStore} {folder : FoundFolder}
    {pages : List (List (Term Single))} {reading : Reading}
    (follows : store.Follows folder pages reading) (rule : RuleId) (weight : Weight Single) :
    (store.respond folder (.setWeight rule weight)).1 =
        (reading.respond (.setWeight rule weight)).1 ∧
      (store.respond folder (.setWeight rule weight)).2.Follows folder pages
        (reading.respond (.setWeight rule weight)).2 := by
  cases valid : weight.validate rule with
  | error fault =>
      simp only [respond, Reading.respond, PagedStore.setWeight, ResidentStore.setWeight,
        follows.replayable.phase, follows.phase, valid, Except.map]
      exact ⟨trivial, follows⟩
  | ok _ =>
      obtain ⟨overrides, pool, recent, reweighed, replayable, left, overridden⟩ :=
        follows.replayable.setWeight rule valid
      simp only [respond, reweighed, Reading.respond, ResidentStore.setWeight, follows.phase, valid,
        Except.map, follows.counted rule]
      refine ⟨trivial, { follows with
        replayable := replayable
        phase := rfl
        terms := ?_
        remaining := ?_
        counted := ?_ }⟩
      · rw [Array.toList_map, follows.terms, List.map_map]
        exact List.map_congr_left fun term _ => (overridden term).symm
      · rw [left, follows.remaining, Array.toList_map, List.map_drop]
      · intro other
        rw [Array.countP_map]
        simpa only [Function.comp_def, Term.rule_reweigh] using follows.counted other

theorem Follows.beginSweep {store : PagedStore} {folder : FoundFolder}
    {pages : List (List (Term Single))} {reading : Reading}
    (follows : store.Follows folder pages reading) :
    (store.respond folder .beginSweep).1 = (reading.respond .beginSweep).1 ∧
      (store.respond folder .beginSweep).2.Follows folder pages
        (reading.respond .beginSweep).2 := by
  obtain ⟨cursor, begun, replayable, left⟩ :=
    follows.replayable.beginSweep follows.pagesInOrder
  simp only [respond, begun, Reading.respond]
  exact ⟨trivial, { follows with
    replayable := replayable
    remaining := left.trans follows.terms.symm }⟩

theorem Follows.nextTerm {store : PagedStore} {folder : FoundFolder}
    {pages : List (List (Term Single))} {reading : Reading}
    (follows : store.Follows folder pages reading) :
    (store.respond folder .nextTerm).1 = (reading.respond .nextTerm).1 ∧
      (store.respond folder .nextTerm).2.Follows folder pages (reading.respond .nextTerm).2 := by
  obtain ⟨pool, recent, traffic, cursor, generator, lent, replayable, left⟩ :=
    follows.replayable.nextTerm follows.termsInOrder
  simp only [respond, lent, Reading.respond]
  refine ⟨?_, { follows with replayable := replayable, remaining := ?_ }⟩
  · rw [follows.remaining, List.head?_drop, Array.getElem?_toList]
  · rw [left, follows.remaining, List.tail_drop]

/-- Whatever is asked for, both answer alike and the sweep keeps up with the reader. -/
theorem Follows.respond {store : PagedStore} {folder : FoundFolder}
    {pages : List (List (Term Single))} {reading : Reading}
    (follows : store.Follows folder pages reading) (call : ReplayCall) :
    (store.respond folder call).1 = (reading.respond call).1 ∧
      (store.respond folder call).2.Follows folder pages (reading.respond call).2 :=
  match call with
  | .setWeight rule weight => follows.setWeight rule weight
  | .beginSweep => follows.beginSweep
  | .nextTerm => follows.nextTerm

theorem Follows.replay {store : PagedStore} {folder : FoundFolder}
    {pages : List (List (Term Single))} {reading : Reading}
    (follows : store.Follows folder pages reading) (calls : List ReplayCall) :
    store.replay folder calls = reading.replay calls := by
  induction calls generalizing store reading with
  | nil => rfl
  | cons call later inductionHypothesis =>
      obtain ⟨answer, follows⟩ := follows.respond call
      simp only [PagedStore.replay, Reading.replay]
      rw [answer, inductionHypothesis follows]

/-- A store that is sealed next to a resident one follows a reader who has finished. -/
theorem Mirrors.finish {paged : PagedStore} {folder : FoundFolder}
    {pages : List (List (Term Single))} {resident : ResidentStore Single}
    (mirrors : paged.Mirrors folder pages resident)
    (termsInOrder : paged.settings.shufflePage = false)
    (pagesInOrder : paged.settings.randomizePageAccess = false)
    (saved : unsaved (paged.finish folder).1 = false) :
    ∃ store left all ready, paged.finish folder = (.ok store, left) ∧ resident.finish = .ok ready ∧
      store.termCount = ready.size ∧ store.counts = ready.counts ∧
      store.components = ready.components ∧ store.Follows left all (Reading.finished ready) := by
  unfold PagedStore.finish at saved ⊢
  rw [mirrors.pagedPhase] at saved ⊢
  dsimp only at saved ⊢
  generalize flushed : paged.flush folder = outcome at saved ⊢
  obtain ⟨result, left⟩ := outcome
  cases result with
  | error fault =>
      rw [flush_error flushed] at saved
      cases saved
  | ok after =>
      have kept := (flush_ok mirrors.shelved mirrors.wellFormed mirrors.room flushed).1
      obtain ⟨pool, pageSizes, pendingBytes, traffic, rfl, -, -⟩ := kept
      obtain ⟨empty, all, mirrors⟩ := mirrors.flush flushed
      have noOverride (term : Term Single) : paged.override term = term := by
        have nothing : paged.overrides = ∅ := mirrors.overrides
        rw [override_eq, nothing]
        rfl
      have noneRecent : paged.recent.pages = [] := mirrors.recent
      refine ⟨_, left, all, { resident with phase := .ready }, rfl, ?_, mirrors.termCount,
        mirrors.counts, mirrors.components, ?_⟩
      · rw [ResidentStore.finish, mirrors.residentPhase]
      · exact {
          replayable := {
            phase := rfl
            shelved := mirrors.shelved.congr rfl rfl rfl
            recentRoom := by simp [noneRecent]
            recentTerms := by simp [noneRecent]
            pagesInRange := by simp [PageCursor.finished]
            positionsInRange := by simp [PageCursor.finished] }
          termsInOrder := termsInOrder
          pagesInOrder := pagesInOrder
          phase := rfl
          terms := by
            have grounded := mirrors.terms
            rw [empty, List.append_nil] at grounded
            rw [Reading.finished, ← grounded]
            exact (List.map_id'' noOverride _).symm
          remaining := by simp [PagedStore.remaining, PageCursor.finished, Reading.finished,
            ResidentStore.size]
          counted := mirrors.counted }

/-- A paged store without shuffles answers the same additions and, once sealed, every later call as
a resident store does, as long as its pages are saved and kept. -/
theorem sequential_refines_resident (settings : Paging) (directory : Path) (owned : Bool)
    (folder : FoundFolder) (atoms : AtomStore Single) (terms : List (Term Single))
    (termsInOrder : settings.shufflePage = false)
    (pagesInOrder : settings.randomizePageAccess = false) (room : 0 < settings.pageTerms)
    (wellFormed : ∀ term ∈ terms, term.WellFormed)
    (saved : ∀ answer ∈ ((fresh settings directory owned).addAll atoms folder terms).1,
      unsaved answer = false)
    (savedLast : unsaved (((fresh settings directory owned).addAll atoms folder terms).2.1.finish
      ((fresh settings directory owned).addAll atoms folder terms).2.2.2).1 = false) :
    let grounded := (fresh settings directory owned).addAll atoms folder terms
    let kept := ResidentStore.empty.addAll atoms terms
    grounded.1 = kept.1 ∧ grounded.2.2.1 = kept.2.2 ∧
      ∃ store left ready, grounded.2.1.finish grounded.2.2.2 = (.ok store, left) ∧
        kept.2.1.finish = .ok ready ∧ store.termCount = ready.size ∧ store.counts = ready.counts ∧
        store.components = ready.components ∧
        ∀ calls, store.replay left calls = (Reading.finished ready).replay calls := by
  obtain ⟨answers, joined, pages, mirrors⟩ :=
    (mirrors_fresh settings directory owned folder room).addAll wellFormed atoms saved
  have sameSettings := settings_addAll (fresh settings directory owned) atoms folder terms
  obtain ⟨store, left, all, ready, sealedPaged, sealedResident, size, counts, components,
    follows⟩ := mirrors.finish (sameSettings ▸ termsInOrder) (sameSettings ▸ pagesInOrder) savedLast
  exact ⟨answers.symm, joined.symm, store, left, ready, sealedPaged, sealedResident, size, counts,
    components, follows.replay⟩

/-- Two atoms, of which the second is observed. -/
def sampleAtoms : AtomStore Single where
  records := #[⟨⟨0⟩, false⟩, ⟨⟨0⟩, true⟩]
  partition := .singletons 2
  sizesAgree := rfl

/-- Three terms, of which the second needs an atom that is not there. -/
def sampleTerms : List (Term Single) :=
  [⟨⟨0⟩, .linear, .soft ⟨1⟩, ⟨0⟩, [⟨0⟩], [⟨0⟩]⟩, ⟨⟨0⟩, .hinge, .hard, ⟨0⟩, [⟨7⟩], [⟨0⟩]⟩,
    ⟨⟨1⟩, .squaredHinge, .hard, ⟨0⟩, [⟨1⟩, ⟨0⟩], [⟨0⟩, ⟨1⟩]⟩]

/-- With one term to a page, the refused term makes no page. -/
theorem sequential_refines_resident_sample :
    let grounded := (fresh (.sequential 1) ⟨"pages", ["pages"], false⟩ true).addAll sampleAtoms
      (.ok []) sampleTerms
    let kept := ResidentStore.empty.addAll sampleAtoms sampleTerms
    grounded.1 = kept.1 ∧ grounded.2.2.1 = kept.2.2 ∧
      ∃ store left ready, grounded.2.1.finish grounded.2.2.2 = (.ok store, left) ∧
        kept.2.1.finish = .ok ready ∧ store.termCount = ready.size ∧ store.counts = ready.counts ∧
        store.components = ready.components ∧
        ∀ calls, store.replay left calls = (Reading.finished ready).replay calls :=
  sequential_refines_resident (.sequential 1) _ true (.ok []) sampleAtoms sampleTerms rfl rfl
    (by decide) (by decide +kernel) (by decide +kernel) (by decide +kernel)

end PagedStore

end HingeLoss
