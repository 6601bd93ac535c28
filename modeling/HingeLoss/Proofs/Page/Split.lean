import Mathlib.Data.List.Chain
import HingeLoss.Proofs.Page.Exact
import HingeLoss.Settings.Basic

/-! There is only one greedy way to split a sequence of terms into pages. -/

namespace HingeLoss

/-- Whether terms are too many for one page, or their records too long. -/
def PagingSettings.Exceeded (settings : PagingSettings) (terms : List (Term Single)) : Prop :=
  settings.pageTerms < terms.length ∨
    ∃ budget, settings.pageBytes = some budget ∧ budget < (Page.body terms).length

theorem PagingSettings.Exceeded.append {settings : PagingSettings} {terms : List (Term Single)}
    (exceeded : settings.Exceeded terms) (more : List (Term Single)) :
    settings.Exceeded (terms ++ more) := by
  rcases exceeded with many | ⟨budget, set, long⟩
  · refine .inl ?_
    rw [List.length_append]
    omega
  · refine .inr ⟨budget, set, ?_⟩
    simp only [Page.body, List.flatMap_append, List.length_append] at long ⊢
    omega

namespace Page

/-- The bounds of a page. A single term may be longer than the budget. -/
structure Bounded (settings : PagingSettings) (page : List (Term Single)) : Prop where
  nonempty : page ≠ []
  count : page.length ≤ settings.pageTerms
  bytes : ∀ budget, settings.pageBytes = some budget →
    (body page).length ≤ budget ∨ page.length = 1

/-- Pages that hold a sequence of terms in its order, each within its bounds, and each but the last
one so full that the first term of the next page would have broken them. -/
structure GreedySplit (settings : PagingSettings) (terms : List (Term Single))
    (pages : List (List (Term Single))) : Prop where
  joined : pages.flatten = terms
  bounded : ∀ page ∈ pages, Bounded settings page
  maximal : pages.IsChain fun page next =>
    ∀ first ∈ next.head?, settings.Exceeded (page ++ [first])

variable {settings : PagingSettings} {terms page other : List (Term Single)}
  {pages others : List (List (Term Single))}

theorem Bounded.not_exceeded (bounded : Bounded settings page) (several : 1 < page.length) :
    ¬ settings.Exceeded page := by
  rintro (many | ⟨budget, set, long⟩)
  · exact Nat.not_lt.mpr bounded.count many
  · rcases bounded.bytes budget set with short | single
    · omega
    · omega

/-- Terms that do not break the bounds make a page. -/
theorem bounded_of_not_exceeded (nonempty : page ≠ []) (fits : ¬ settings.Exceeded page) :
    Bounded settings page where
  nonempty := nonempty
  count := Nat.le_of_not_lt fun many => fits (.inl many)
  bytes budget set := .inl (Nat.le_of_not_lt fun long => fits (.inr ⟨budget, set, long⟩))

theorem bounded_singleton (room : 0 < settings.pageTerms) (term : Term Single) :
    Bounded settings [term] where
  nonempty := List.cons_ne_nil _ _
  count := room
  bytes _ _ := .inr rfl

namespace GreedySplit

theorem nil (settings : PagingSettings) : GreedySplit settings [] [] where
  joined := rfl
  bounded := by simp
  maximal := .nil

theorem singleton (room : 0 < settings.pageTerms) (term : Term Single) :
    GreedySplit settings [term] [[term]] where
  joined := rfl
  bounded := by simpa using bounded_singleton room term
  maximal := .singleton _

theorem last (split : GreedySplit settings terms (pages ++ [page])) : Bounded settings page :=
  split.bounded page (by simp)

/-- The next term goes to the last page if it breaks no bound there. -/
theorem extend (split : GreedySplit settings terms (pages ++ [page])) {term : Term Single}
    (fits : ¬ settings.Exceeded (page ++ [term])) :
    GreedySplit settings (terms ++ [term]) (pages ++ [page ++ [term]]) where
  joined := by
    rw [← split.joined]
    simp
  bounded := by
    intro one member
    rcases List.mem_append.mp member with old | new
    · exact split.bounded one (List.mem_append_left _ old)
    · obtain rfl := List.mem_singleton.mp new
      exact bounded_of_not_exceeded (by simp) fits
  maximal := by
    have chained := split.maximal
    rw [List.isChain_append] at chained ⊢
    refine ⟨chained.1, .singleton _, fun before member after same first head => ?_⟩
    -- the first term of the last page stays the same
    obtain rfl : page ++ [term] = after := by simpa using same
    rw [List.head?_append_of_ne_nil _ split.last.nonempty] at head
    exact chained.2.2 before member page rfl first head

/-- A term that breaks a bound of the last page begins another one. -/
theorem turn (room : 0 < settings.pageTerms)
    (split : GreedySplit settings terms (pages ++ [page])) {term : Term Single}
    (full : settings.Exceeded (page ++ [term])) :
    GreedySplit settings (terms ++ [term]) (pages ++ [page] ++ [[term]]) where
  joined := by
    rw [← split.joined]
    simp
  bounded := by
    intro one member
    rcases List.mem_append.mp member with old | new
    · exact split.bounded one old
    · obtain rfl := List.mem_singleton.mp new
      exact bounded_singleton room term
  maximal := by
    rw [List.isChain_append]
    refine ⟨split.maximal, .singleton _, fun before member after same first head => ?_⟩
    obtain rfl : page = before := by simpa using member
    obtain rfl : [term] = after := by simpa using same
    obtain rfl : term = first := by simpa using head
    exact full

theorem tail (split : GreedySplit settings terms (page :: pages)) :
    GreedySplit settings pages.flatten pages where
  joined := rfl
  bounded one member := split.bounded one (List.mem_cons_of_mem _ member)
  maximal := split.maximal.tail

/-- No page within its bounds goes on where the first page ends. -/
theorem nil_of_prefix (split : GreedySplit settings terms (page :: pages))
    {more later : List (Term Single)} (bounded : Bounded settings (page ++ more))
    (rest : pages.flatten = more ++ later) : more = [] := by
  cases more with
  | nil => rfl
  | cons first more =>
      exfalso
      cases pages with
      | nil => cases rest
      | cons next after =>
          have someNext := (split.bounded next (by simp)).nonempty
          obtain ⟨head, last, rfl⟩ := List.exists_cons_of_ne_nil someNext
          obtain ⟨rfl, -⟩ := List.cons_eq_cons.mp rest
          have full := (List.isChain_cons_cons.mp split.maximal).1 head rfl
          have several : 1 < (page ++ head :: more).length := by
            have somePage := List.length_pos_iff.mpr (split.bounded page (by simp)).nonempty
            simp only [List.length_append, List.length_cons]
            omega
          apply bounded.not_exceeded several
          simpa using full.append more

/-- A sequence has at most one greedy split. -/
theorem unique (split : GreedySplit settings terms pages)
    (otherSplit : GreedySplit settings terms others) : others = pages := by
  induction pages generalizing terms others with
  | nil =>
      cases others with
      | nil => rfl
      | cons other later =>
          have nothing := otherSplit.joined.trans split.joined.symm
          have some := (otherSplit.bounded other (by simp)).nonempty
          simp [some] at nothing
  | cons page rest inductionHypothesis =>
      cases others with
      | nil =>
          have nothing := split.joined.trans otherSplit.joined.symm
          have some := (split.bounded page (by simp)).nonempty
          simp [some] at nothing
      | cons other later =>
          have joined := split.joined.trans otherSplit.joined.symm
          rw [List.flatten_cons, List.flatten_cons] at joined
          obtain rfl : page = other := by
            rcases List.append_eq_append_iff.mp joined with ⟨more, same, left⟩ | ⟨more, same, left⟩
            · have bounded := otherSplit.bounded other (by simp)
              rw [same] at bounded
              rw [same, split.nil_of_prefix bounded left, List.append_nil]
            · have bounded := split.bounded page (by simp)
              rw [same] at bounded
              rw [same, otherSplit.nil_of_prefix bounded left, List.append_nil]
          have left := List.append_cancel_left joined
          have otherTail := otherSplit.tail
          rw [← left] at otherTail
          rw [inductionHypothesis split.tail otherTail]

end GreedySplit

end Page

end HingeLoss
