import HingeLoss.Proofs.Paged.Owed
import HingeLoss.Proofs.Store.Sweep

/-! Every sweep that is begun permutes the terms page by page. -/

namespace HingeLoss

/-- Terms that are lent page by page. The pages come in some order, and in their own one unless they
are randomized; the terms of each page come in some order, and in their own one unless they are
shuffled. -/
def PageWise (randomized shuffled : Bool) (pages : List (List (Term Single)))
    (lent : List (Term Single)) : Prop :=
  ∃ order parts, order.Perm (List.range pages.length) ∧
    (randomized = false → order = List.range pages.length) ∧
    List.Forall₂ (fun page part => part.Perm (pages.getD page []) ∧
      (shuffled = false → part = pages.getD page [])) order parts ∧
    lent = parts.flatten

theorem map_getD_range {α : Type} (items : List α) (default : α) :
    (List.range items.length).map (items.getD · default) = items := by
  apply List.ext_getElem
  · simp
  · intro index inRange _
    simp only [List.length_map, List.length_range] at inRange
    simp [inRange]

/-- Every term of the pages is lent once. -/
theorem PageWise.perm {randomized shuffled : Bool} {pages : List (List (Term Single))}
    {lent : List (Term Single)} (pageWise : PageWise randomized shuffled pages lent) :
    lent.Perm pages.flatten := by
  obtain ⟨order, parts, drawn, -, lends, rfl⟩ := pageWise
  have each : parts.flatten.Perm (order.map (pages.getD · [])).flatten := by
    clear drawn
    induction lends with
    | nil => exact .refl _
    | cons part _ inductionHypothesis => exact part.1.append inductionHypothesis
  refine each.trans ?_
  have pagesAgain := map_getD_range pages []
  exact (drawn.map _).flatten.trans (.of_eq (congrArg List.flatten pagesAgain))

namespace PagedStore

variable {store : PagedStore} {folder : FoundFolder} {pages : List (List (Term Single))}

theorem getD_map_override (store : PagedStore) (pages : List (List (Term Single))) (page : Nat) :
    (pages.map (List.map store.override)).getD page [] = store.present pages page := by
  rw [present, List.getD_eq_getElem?_getD, List.getElem?_map, List.getD_eq_getElem?_getD]
  cases pages[page]? <;> rfl

/-- A sweep that is begun comes to its end and has lent its pages. -/
theorem Replayable.drain_begin (replayable : store.Replayable folder pages) :
    ∃ begun lent last, store.beginSweep = .ok begun ∧
      TermStream.drain (⟨begun, folder, false⟩ : PagedStream) = (lent, .finished, last) ∧
      PageWise store.settings.randomizePageAccess store.settings.shufflePage
        (pages.map (List.map store.override)) lent := by
  obtain ⟨begun, parts, last, began, owes, drawn, inOrder, lends⟩ := replayable.owes_begin
  refine ⟨begun, parts.flatten, _, began, owes.drains.drain, begun.cursor.pages, parts, ?_, ?_, ?_,
    rfl⟩
  · rwa [List.length_map]
  · rwa [List.length_map]
  · simp only [getD_map_override]
    exact lends

end PagedStore

/-- Every sweep lends the terms of the round page by page, each of them once and under its present
weight, whatever shuffle its orders are drawn with. -/
theorem sweep_permutes (settings : Paging) (directory : Path) (owned : Bool)
    (folder : FoundFolder) (room : 0 < settings.pageTerms) (calls : List PagedCall)
    (undisturbed : Throughout PagedSession.respond PagedSession.Undisturbed
      (.opened settings directory owned folder) calls) :
    (let run := performAll PagedSession.respond (.opened settings directory owned folder) calls
      let store := run.2.store
      store.phase = .ready →
        ∃ pages begun lent last, pages.map List.length = store.pageSizes.toList ∧
          pages.flatten = (notes PagedCall.note [] calls run.1).map store.override ∧
          store.beginSweep = .ok begun ∧
          TermStream.drain (⟨begun, run.2.folder, false⟩ : PagedStream) = (lent, .finished, last) ∧
          PageWise settings.randomizePageAccess settings.shufflePage pages lent ∧
          lent.Perm ((notes PagedCall.note [] calls run.1).map store.override)) ∧
    ∀ (α : Type) (store : ResidentStore α) (seed : Option UInt64) (shuffle : Shuffle)
      (first sweep : ResidentSweep α),
      ResidentSweep.ofStore store seed shuffle = .ok first → ResidentSweep.Reached first sweep →
        ∃ lent last, TermStream.drain sweep.begin = (lent, .finished, last) ∧
          lent.Perm store.terms.toList ∧ (seed = none → lent = store.terms.toList) := by
  constructor
  · intro run store ready
    obtain ⟨pages, intact⟩ := PagedSession.stands_performAll room undisturbed
    have sameSettings := intact.kept.settings_eq (by rw [ready]; decide)
    obtain ⟨begun, lent, last, began, drained, pageWise⟩ :=
      (intact.replayable ready).drain_begin
    have written : (pages.map (List.map store.override)).flatten =
        (notes PagedCall.note [] calls run.1).map store.override := by
      rw [← List.map_flatten]
      exact intact.written ready
    rw [sameSettings] at pageWise
    refine ⟨pages.map (List.map store.override), begun, lent, last, ?_, written, began, drained,
      pageWise, written ▸ pageWise.perm⟩
    rw [intact.shelved.sizes, List.map_map]
    exact List.map_congr_left fun page _ => List.length_map _
  · intro α store seed shuffle first sweep taken reached
    exact (reached.whole (ResidentSweep.whole_ofStore taken)).drain_begin

/-- Two pages of two terms and one, shuffled in every way. A sweep is left after its first term, and
the second rule takes another weight. -/
theorem sweep_permutes_sample :
    let term (rule : UInt32) : Term Single := ⟨⟨rule⟩, .linear, .soft 1, 0, [⟨0⟩], [1]⟩
    let settings : Paging := { pageTerms := 2 }
    let calls : List PagedCall :=
      [.changeAtoms (.register ⟨0, false⟩), .add (term 0), .add (term 1), .add (term 2), .finish,
        .beginSweep, .nextTerm, .setWeight ⟨1⟩ .hard]
    let run := performAll PagedSession.respond
      (.opened settings (Path.ofText "pages") true (.ok [])) calls
    ∃ begun lent last, run.2.store.beginSweep = .ok begun ∧
      TermStream.drain (⟨begun, run.2.folder, false⟩ : PagedStream) = (lent, .finished, last) ∧
      lent.Perm [term 0, { term 1 with weight := .hard }, term 2] := by
  intro term settings calls run
  have ready : run.2.store.phase = .ready := by decide +kernel
  have shown : (notes PagedCall.note [] calls run.1).map run.2.store.override =
      [term 0, { term 1 with weight := .hard }, term 2] := by decide +kernel
  have wellFormed (rule : UInt32) : (term rule).WellFormed := 
    ⟨nofun, rfl, (by decide : 1 ≤ Term.maxArity)⟩
  have undisturbed : Throughout PagedSession.respond PagedSession.Undisturbed
      (.opened settings (Path.ofText "pages") true (.ok [])) calls := by
    refine ⟨?_, ?_, ?_, ?_, ?_, ?_, ?_, ?_, trivial⟩ <;>
      simp [PagedSession.Undisturbed, PagedCall.terms, wellFormed]
  obtain ⟨pages, begun, lent, last, -, -, began, drained, -, perm⟩ :=
    (sweep_permutes settings _ true (.ok []) (by decide) calls undisturbed).1 ready
  exact ⟨begun, lent, last, began, drained, shown ▸ perm⟩

end HingeLoss
