import HingeLoss.Proofs.Paged.Intact
import HingeLoss.Proofs.Store.Stream
import Mathlib.Data.List.Forall2

/-! What a sweep still owes, whenever the token fires and is reset. -/

namespace HingeLoss

namespace PagedStore

/-- What a sweep still lends until nothing is left: the rest of the page entered last, and then
whole pages. A refused page changes nothing. -/
inductive Owes (folder : FoundFolder) (last : PagedStore) :
    PagedStore → List (Term Single) → List (List (Term Single)) → Prop
  | ended (none : ∀ cancelled, last.nextTerm cancelled folder = (.ok none, last)) :
      Owes folder last last [] []
  | lends {store next : PagedStore} {term : Term Single} {rest : List (Term Single)}
      {parts : List (List (Term Single))}
      (lent : ∀ cancelled, store.nextTerm cancelled folder = (.ok (some term), next))
      (later : Owes folder last next rest parts) : Owes folder last store (term :: rest) parts
  | enters {store next : PagedStore} {term : Term Single} {rest : List (Term Single)}
      {parts : List (List (Term Single))}
      (refused : store.nextTerm true folder = (.ok none, store))
      (entered : store.nextTerm false folder = (.ok (some term), next))
      (later : Owes folder last next rest parts) :
      Owes folder last store [] ((term :: rest) :: parts)

variable {folder : FoundFolder} {store last : PagedStore} {rest : List (Term Single)}
  {parts pages : List (List (Term Single))}

/-- Undisturbed by the token, a sweep lends all that it owes. -/
theorem Owes.drains (owes : Owes folder last store rest parts) :
    TermStream.Drains (⟨store, folder, false⟩ : PagedStream) (rest ++ parts.flatten)
      ⟨last, folder, false⟩ := by
  induction owes with
  | ended none => exact .ended (by simp only [TermStream.nextTerm, none])
  | lends lent _ inductionHypothesis =>
      exact .lends (by simp only [TermStream.nextTerm, lent]) inductionHypothesis
  | enters _ entered _ inductionHypothesis =>
      exact .lends (by simp only [TermStream.nextTerm, entered]) inductionHypothesis

/-- Once the token has fired, a sweep lends the rest of its page and stops before the next one. -/
theorem Owes.stops (owes : Owes folder last store rest parts) :
    ∃ stopped, TermStream.Drains (⟨store, folder, true⟩ : PagedStream) rest
        ⟨stopped, folder, true⟩ ∧
      stopped.nextTerm true folder = (.ok none, stopped) ∧
      Owes folder last stopped [] parts := by
  induction owes with
  | ended none =>
      exact ⟨last, .ended (by simp only [TermStream.nextTerm, none]), none true, .ended none⟩
  | lends lent _ inductionHypothesis =>
      obtain ⟨stopped, drains, refused, owes⟩ := inductionHypothesis
      exact ⟨stopped, .lends (by simp only [TermStream.nextTerm, lent]) drains, refused, owes⟩
  | enters refused entered later =>
      exact ⟨_, .ended (by simp only [TermStream.nextTerm, refused]), refused,
        .enters refused entered later⟩

/-- The positions of the page entered last are lent before the sweep goes on. -/
theorem Replayable.owes_positions (replayable : store.Replayable folder pages)
    (goesOn : Owes folder last { store with cursor := ⟨store.cursor.pages, []⟩ } [] parts) :
    Owes folder last store (store.cursor.terms.filterMap (store.currentTerms[·]?)) parts := by
  generalize left : store.cursor.terms = positions
  induction positions generalizing store with
  | nil =>
      have same : { store with cursor := ⟨store.cursor.pages, []⟩ } = store := by rw [← left]
      rwa [same] at goesOn
  | cons position positions inductionHypothesis =>
      obtain ⟨term, found, lent, after⟩ := replayable.next_lends false left
      have lends (cancelled : Bool) : store.nextTerm cancelled folder =
          (.ok (some term), { store with cursor := ⟨store.cursor.pages, positions⟩ }) := by
        obtain ⟨again, sameFound, sameLent, -⟩ := replayable.next_lends cancelled left
        obtain rfl := Option.some.inj (found.symm.trans sameFound)
        exact sameLent
      rw [List.filterMap_cons, found]
      exact .lends lends (inductionHypothesis after goesOn rfl)

/-- A sweep with no positions left owes the pages of its order, each in an order of its own. -/
theorem Replayable.owes (replayable : store.Replayable folder pages)
    (used : store.cursor.terms = []) :
    ∃ parts last, Owes folder last store [] parts ∧
      List.Forall₂ (fun page part => part.Perm (store.present pages page) ∧
        (store.settings.shufflePage = false → part = store.present pages page))
        store.cursor.pages parts := by
  generalize order : store.cursor.pages = left
  induction left generalizing store with
  | nil => exact ⟨[], store, .ended fun _ => nextTerm_ends replayable.phase used (.inr order), .nil⟩
  | cons page rest inductionHypothesis =>
      obtain ⟨terms, pool, recent, traffic, positions, generator, found, someLeft, drawing, same,
        entered, current⟩ := replayable.next_enters used order
      let after : PagedStore := { store with
        pool, recent, traffic, generator, cursor := ⟨rest, []⟩ }
      have goesOn : after.Replayable folder pages := { entered with
        shelved := entered.shelved.congr rfl rfl rfl
        positionsInRange := fun _ member => absurd member List.not_mem_nil }
      obtain ⟨parts, last, owes, lends⟩ := inductionHypothesis goesOn rfl rfl
      have pageOwed := entered.owes_positions owes
      have count : terms.length = (terms.map store.override).length := (List.length_map _).symm
      have shown := store.present_of_found found
      have drawn := arrange_perm store.settings.shuffle store.settings.shufflePage terms.length store.generator
      rw [drawing, count] at drawn
      refine ⟨positions.filterMap ((terms.map store.override)[·]?) :: parts, last, ?_,
        .cons ⟨?_, ?_⟩ lends⟩
      · rw [← current]
        obtain ⟨position, positions, rfl⟩ := List.exists_cons_of_ne_nil someLeft
        obtain ⟨term, first, -, -⟩ := entered.next_lends false rfl
        rw [List.filterMap_cons, first] at pageOwed ⊢
        -- the request that enters the page lends its first term
        cases pageOwed with
        | lends lent later =>
            exact .enters (nextTerm_ends replayable.phase used (.inl rfl))
              (same.trans (lent false)) later
      · rw [shown]
        exact filterMap_getElem?_perm drawn
      · intro sequential
        obtain rfl : List.range terms.length = positions := by
          simpa [arrange, sequential] using congrArg Prod.fst drawing
        rw [shown, count]
        exact filterMap_getElem?_range _

/-- A sweep that is begun owes all pages, in the order that is drawn for them. -/
theorem Replayable.owes_begin (replayable : store.Replayable folder pages) :
    ∃ begun parts last, store.beginSweep = .ok begun ∧ Owes folder last begun [] parts ∧
      begun.cursor.pages.Perm (List.range pages.length) ∧
      (store.settings.randomizePageAccess = false →
        begun.cursor.pages = List.range pages.length) ∧
      List.Forall₂ (fun page part => part.Perm (store.present pages page) ∧
        (store.settings.shufflePage = false → part = store.present pages page))
        begun.cursor.pages parts := by
  generalize drawing : arrange store.settings.shuffle store.settings.randomizePageAccess
    pages.length store.generator = drawn
  obtain ⟨order, generator⟩ := drawn
  obtain ⟨begun, again⟩ := replayable.begin drawing
  obtain ⟨parts, last, owes, lends⟩ := again.owes rfl
  have drawn := arrange_perm store.settings.shuffle store.settings.randomizePageAccess pages.length store.generator
  rw [drawing] at drawn
  refine ⟨_, parts, last, begun, owes, drawn, fun inOrder => ?_, lends⟩
  have kept := congrArg Prod.fst drawing
  simp only [arrange, inOrder, Bool.false_eq_true, if_false] at kept
  exact kept.symm

end PagedStore

end HingeLoss
