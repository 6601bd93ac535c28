import HingeLoss.Paged.Recent

/-! What the recent pages hold after each operation. -/

namespace HingeLoss

namespace RecentPages

theorem mem_of_terms? {recent : RecentPages} {page : Nat} {terms : Array (Term Single)}
    (found : recent.terms? page = some terms) : (page, terms) ∈ recent.pages := by
  obtain ⟨capacity, pages⟩ := recent
  simp only [terms?] at found
  induction pages with
  | nil => cases found
  | cons held rest inductionHypothesis =>
      obtain ⟨key, value⟩ := held
      rw [List.lookup_cons] at found
      split at found
      · rename_i same
        cases found
        rw [beq_iff_eq.mp same]
        exact List.mem_cons_self
      · exact List.mem_cons_of_mem _ (inductionHypothesis found)

/-- A page is in memory with the terms with which it was used last. -/
theorem mem_use_cases {recent : RecentPages} {page : Nat} {terms : Array (Term Single)}
    {held : Nat × Array (Term Single)} (member : held ∈ (recent.use page terms).pages) :
    held = (page, terms) ∨ held ∈ recent.pages ∧ held.1 ≠ page := by
  rcases List.mem_cons.mp (List.mem_of_mem_take member) with same | other
  · exact Or.inl same
  · obtain ⟨held, different⟩ := List.mem_filter.mp other
    exact Or.inr ⟨held, by simpa using different⟩

theorem mem_use {recent : RecentPages} {page : Nat} {terms : Array (Term Single)}
    {held : Nat × Array (Term Single)} (member : held ∈ (recent.use page terms).pages) :
    held = (page, terms) ∨ held ∈ recent.pages :=
  (mem_use_cases member).imp_right And.left

@[simp] theorem capacity_use (recent : RecentPages) (page : Nat) (terms : Array (Term Single)) :
    (recent.use page terms).capacity = recent.capacity := rfl

theorem length_use_le (recent : RecentPages) (page : Nat) (terms : Array (Term Single)) :
    (recent.use page terms).pages.length ≤ recent.capacity :=
  List.length_take_le _ _

theorem current_use {recent : RecentPages} (room : recent.capacity ≠ 0) (page : Nat)
    (terms : Array (Term Single)) : (recent.use page terms).current = terms := by
  obtain ⟨capacity, more⟩ := Nat.exists_eq_succ_of_ne_zero room
  simp only [use, more, List.take_succ_cons, current]

theorem mem_reweigh {recent : RecentPages} {rule : RuleId} {weight : Weight Single}
    {held : Nat × Array (Term Single)} (member : held ∈ (recent.reweigh rule weight).pages) :
    ∃ before ∈ recent.pages, held = (before.1, before.2.map (Term.reweigh rule weight)) := by
  obtain ⟨before, known, same⟩ := List.mem_map.mp member
  exact ⟨before, known, same.symm⟩

@[simp] theorem capacity_reweigh (recent : RecentPages) (rule : RuleId) (weight : Weight Single) :
    (recent.reweigh rule weight).capacity = recent.capacity := rfl

@[simp] theorem length_reweigh (recent : RecentPages) (rule : RuleId) (weight : Weight Single) :
    (recent.reweigh rule weight).pages.length = recent.pages.length :=
  List.length_map _

theorem current_reweigh (recent : RecentPages) (rule : RuleId) (weight : Weight Single) :
    (recent.reweigh rule weight).current = recent.current.map (Term.reweigh rule weight) := by
  obtain ⟨capacity, pages⟩ := recent
  cases pages with
  | nil => simp [reweigh, current]
  | cons held rest => rfl

end RecentPages

end HingeLoss
