import HingeLoss.Proofs.Paged.Recent
import Mathlib.Data.Finset.Card

/-! The recent pages are the first ones in the order in which pages were entered last. -/

namespace HingeLoss

namespace Recency

/-- The pages of a history without repetition. The first page of a history was entered last. -/
def mostRecent : List Nat → List Nat
  | [] => []
  | page :: earlier => page :: (mostRecent earlier).filter (· ≠ page)

/-- The number of entries of pages that were not among a number of the most recent ones before. -/
def misses (room : Nat) : List Nat → Nat
  | [] => 0
  | page :: earlier =>
      misses room earlier + if page ∈ (mostRecent earlier).take room then 0 else 1

variable {page room : Nat} {entered : List Nat}

@[simp] theorem mem_mostRecent : page ∈ mostRecent entered ↔ page ∈ entered := by
  induction entered with
  | nil => rfl
  | cons last earlier inductionHypothesis =>
      by_cases same : page = last
      · simp [mostRecent, same]
      · simp [mostRecent, same, inductionHypothesis]

theorem nodup_mostRecent (entered : List Nat) : (mostRecent entered).Nodup := by
  induction entered with
  | nil => exact List.nodup_nil
  | cons last earlier inductionHypothesis =>
      refine List.nodup_cons.mpr ⟨fun member => ?_, inductionHypothesis.filter _⟩
      simpa using List.of_mem_filter member

theorem length_mostRecent (entered : List Nat) :
    (mostRecent entered).length = entered.toFinset.card := by
  rw [← List.toFinset_card_of_nodup (nodup_mostRecent entered)]
  congr 1
  ext page
  simp

/-- Pages that were entered again are not listed behind their later entry. -/
theorem mostRecent_append (later earlier : List Nat) :
    mostRecent (later ++ earlier) =
      mostRecent later ++ (mostRecent earlier).filter (· ∉ later) := by
  induction later with
  | nil => simp [mostRecent]
  | cons last others inductionHypothesis =>
      rw [List.cons_append, mostRecent, inductionHypothesis, List.filter_append,
        List.filter_filter, mostRecent, List.cons_append]
      simp only [List.mem_cons, not_or, Bool.decide_and]

/-- A page is among the most recent ones if fewer others have been entered since. -/
theorem mem_take_mostRecent : page ∈ (mostRecent entered).take room ↔
    ∃ later earlier, entered = later ++ page :: earlier ∧ page ∉ later ∧
      later.toFinset.card < room := by
  have position {later earlier : List Nat} (unseen : page ∉ later) :
      page ∈ (mostRecent (later ++ page :: earlier)).take room ↔
        later.toFinset.card < room := by
    have behind : (mostRecent (page :: earlier)).filter (· ∉ later) =
        page :: ((mostRecent earlier).filter (· ≠ page)).filter (· ∉ later) := by
      rw [mostRecent, List.filter_cons_of_pos (by simpa using unseen)]
    rw [mostRecent_append, behind, List.take_append, List.mem_append, length_mostRecent]
    constructor
    · rintro (before | after)
      · exact absurd (mem_mostRecent.mp (List.mem_of_mem_take before)) unseen
      · by_contra far
        rw [Nat.sub_eq_zero_of_le (Nat.not_lt.mp far)] at after
        cases after
    · intro near
      obtain ⟨more, split⟩ := Nat.exists_eq_add_of_lt near
      rw [split, Nat.add_assoc, Nat.add_sub_cancel_left]
      exact .inr List.mem_cons_self
  constructor
  · intro recent
    obtain ⟨later, earlier, rfl, unseen⟩ :=
      List.eq_append_cons_of_mem (mem_mostRecent.mp (List.mem_of_mem_take recent))
    exact ⟨later, earlier, rfl, unseen, (position unseen).mp recent⟩
  · rintro ⟨later, earlier, rfl, unseen, near⟩
    exact (position unseen).mpr near

/-- A page that is taken out makes room for at most one page. -/
theorem take_filter_take {list : List Nat} (distinct : list.Nodup) (page room : Nat) :
    ((list.take (room + 1)).filter (· ≠ page)).take room =
      (list.filter (· ≠ page)).take room := by
  induction list generalizing room with
  | nil => simp
  | cons first others inductionHypothesis =>
      obtain ⟨fresh, distinct⟩ := List.nodup_cons.mp distinct
      rw [List.take_succ_cons]
      by_cases same : first = page
      · subst same
        have unseen (part : List Nat) (within : ∀ other ∈ part, other ∈ others) :
            part.filter (· ≠ first) = part := by
          refine List.filter_eq_self.mpr fun other member => decide_eq_true ?_
          rintro rfl
          exact fresh (within other member)
        rw [List.filter_cons_of_neg (by simp), List.filter_cons_of_neg (by simp),
          unseen _ fun _ => List.mem_of_mem_take, unseen _ fun _ => id, List.take_take, min_self]
      · rw [List.filter_cons_of_pos (by simpa using same),
          List.filter_cons_of_pos (by simpa using same)]
        cases room with
        | zero => rfl
        | succ room => rw [List.take_succ_cons, List.take_succ_cons, inductionHypothesis distinct]

/-- With more room there are fewer misses. -/
theorem misses_le {larger : Nat} (more : room ≤ larger) (entered : List Nat) :
    misses larger entered ≤ misses room entered := by
  induction entered with
  | nil => exact Nat.le_refl 0
  | cons page earlier inductionHypothesis =>
      have kept (recent : page ∈ (mostRecent earlier).take room) :
          page ∈ (mostRecent earlier).take larger :=
        (List.take_sublist_take_left more).subset recent
      rw [misses, misses]
      split <;> split <;> first | omega | exact absurd (kept ‹_›) ‹_›

end Recency

namespace RecentPages

open Recency

variable {recent : RecentPages} {page : Nat} {terms : Array (Term Single)} {entered : List Nat}

theorem map_fst_use (recent : RecentPages) (page : Nat) (terms : Array (Term Single)) :
    (recent.use page terms).pages.map Prod.fst =
      (page :: (recent.pages.map Prod.fst).filter (· ≠ page)).take recent.capacity := by
  simp only [use, List.map_take, List.map_cons, List.filter_map, Function.comp_def]

theorem map_fst_reweigh (recent : RecentPages) (rule : RuleId) (weight : Weight Single) :
    (recent.reweigh rule weight).pages.map Prod.fst = recent.pages.map Prod.fst := by
  simp only [reweigh, List.map_map]
  exact List.map_congr_left fun _ _ => rfl

theorem isSome_terms?_iff : (recent.terms? page).isSome = true ↔
    page ∈ recent.pages.map Prod.fst := by
  simp [terms?]

/-- A page that is used is the most recent one. -/
theorem map_fst_use_of_mostRecent (room : 0 < recent.capacity)
    (ordered : recent.pages.map Prod.fst = (mostRecent entered).take recent.capacity) :
    (recent.use page terms).pages.map Prod.fst =
      (mostRecent (page :: entered)).take recent.capacity := by
  obtain ⟨others, capacity⟩ := Nat.exists_eq_add_of_lt room
  rw [Nat.zero_add] at capacity
  rw [map_fst_use, ordered, mostRecent, capacity, List.take_succ_cons, List.take_succ_cons,
    take_filter_take (nodup_mostRecent entered)]

end RecentPages

end HingeLoss
