import HingeLoss.Proofs.Paged.Shelf

/-! Grounding the same terms into a paged and a resident store. -/

namespace HingeLoss

/-- The terms are added in turn; a refused one is skipped. The answers stand in the same order. -/
def ResidentStore.addAll (store : ResidentStore Single) (atoms : AtomStore Single) :
    List (Term Single) →
      List (Except (StoreFault Single) TermId) × ResidentStore Single × AtomStore Single
  | [] => ([], store, atoms)
  | term :: later =>
      let (answer, store, atoms) := store.add term atoms
      let (answers, store, atoms) := store.addAll atoms later
      (answer :: answers, store, atoms)

/-- The terms are added in turn; a refused one is skipped. The answers stand in the same order. -/
def PagedStore.addAll (store : PagedStore) (atoms : AtomStore Single) (folder : FoundFolder) :
    List (Term Single) →
      List (Except (StoreFault Single) TermId) × PagedStore × AtomStore Single × FoundFolder
  | [] => ([], store, atoms, folder)
  | term :: later =>
      let (answer, store, atoms, folder) := store.add term atoms folder
      let (answers, store, atoms, folder) := store.addAll atoms folder later
      (answer :: answers, store, atoms, folder)

theorem RuleCounts.getD_count (counts : RuleCounts) (rule other : RuleId) :
    (counts.count rule).getD other 0 = counts.getD other 0 + if rule = other then 1 else 0 := by
  simp only [RuleCounts.count, Std.TreeMap.getD_eq_getD_getElem?, Std.TreeMap.getElem?_alter,
    Std.LawfulEqCmp.compare_eq_iff_eq]
  split
  · rename_i same
    subst same
    rfl
  · rfl

namespace PagedStore

theorem settings_append (store : PagedStore) (term : Term Single) (atoms : AtomStore Single) :
    (store.append term atoms).2.1.settings = store.settings := by
  unfold append
  split
  · rfl
  · dsimp only
    split <;> rfl

theorem settings_add (store : PagedStore) (term : Term Single) (atoms : AtomStore Single)
    (folder : FoundFolder) : (store.add term atoms folder).2.1.settings = store.settings := by
  unfold add
  split
  · rfl
  · rfl
  · split
    · rfl
    · split
      · split
        · rfl
        · rename_i flushed
          exact (settings_append ..).trans (settings_flush flushed)
      · exact settings_append ..

/-- The settings of a store stay as they are while terms are added. -/
theorem settings_addAll (store : PagedStore) (atoms : AtomStore Single) (folder : FoundFolder)
    (terms : List (Term Single)) :
    (store.addAll atoms folder terms).2.1.settings = store.settings := by
  induction terms generalizing store atoms folder with
  | nil => rfl
  | cons term later inductionHypothesis =>
      exact (inductionHypothesis ..).trans (settings_add ..)

/-- A paged store that is grounding next to a resident one, with its pages in a folder. -/
structure Mirrors (paged : PagedStore) (folder : FoundFolder) (pages : List (List (Term Single)))
    (resident : ResidentStore Single) : Prop where
  pagedPhase : paged.phase = .grounding
  residentPhase : resident.phase = .grounding
  shelved : paged.Shelved folder pages
  terms : pages.flatten ++ paged.pool.terms = resident.terms.toList
  wellFormed : ∀ term ∈ paged.pool.terms, term.WellFormed
  room : paged.pool.count ≤ paged.pool.capacity
  capacity : 0 < paged.pool.capacity
  termCount : paged.termCount = resident.size
  components : paged.components = resident.components
  counts : paged.counts = resident.counts
  counted : ∀ rule, paged.counts.getD rule 0 = resident.terms.countP fun term => term.rule = rule
  overrides : paged.overrides = ∅
  recent : paged.recent.pages = []

theorem mirrors_fresh (settings : Paging) (directory : Path) (owned : Bool)
    (folder : FoundFolder) (room : 0 < settings.pageTerms) :
    Mirrors (fresh settings directory owned) folder [] ResidentStore.empty where
  pagedPhase := rfl
  residentPhase := rfl
  shelved := ⟨rfl, by simp, by simp⟩
  terms := rfl
  wellFormed := by simp [fresh]
  room := Nat.zero_le _
  capacity := room
  termCount := rfl
  components := rfl
  counts := rfl
  counted := by simp [fresh, ResidentStore.empty]
  overrides := rfl
  recent := rfl

/-- A flush that succeeds goes unnoticed by the resident store. -/
theorem Mirrors.flush {paged after : PagedStore} {folder left : FoundFolder}
    {pages : List (List (Term Single))} {resident : ResidentStore Single}
    (mirrors : paged.Mirrors folder pages resident)
    (flushed : paged.flush folder = (.ok after, left)) :
    after.pool.terms = [] ∧ ∃ all, after.Mirrors left all resident := by
  obtain ⟨⟨pool, pageSizes, pendingBytes, traffic, rfl, empty, capacity⟩, all, shelved, flat⟩ :=
    flush_ok mirrors.shelved mirrors.wellFormed mirrors.room flushed
  refine ⟨empty, all, { mirrors with
    shelved := shelved
    terms := ?_
    wellFormed := ?_
    room := ?_
    capacity := ?_ }⟩
  · dsimp only
    rw [empty, List.append_nil, flat, mirrors.terms]
  · dsimp only
    simp [empty]
  · dsimp only
    rw [← pool.length_terms, empty]
    exact Nat.zero_le _
  · dsimp only
    rw [capacity]
    exact mirrors.capacity

/-- A store whose pool is not full appends what the resident store appends. -/
theorem Mirrors.append {paged : PagedStore} {folder : FoundFolder}
    {pages : List (List (Term Single))} {resident : ResidentStore Single}
    (mirrors : paged.Mirrors folder pages resident) {term : Term Single}
    (wellFormed : term.WellFormed) (room : paged.pool.isFull = false) {atoms : AtomStore Single}
    (held : atoms.checkAll term.atoms = .ok ()) :
    (resident.add term atoms).1 = (paged.append term atoms).1 ∧
      (resident.add term atoms).2.2 = (paged.append term atoms).2.2 ∧
      (paged.append term atoms).2.1.Mirrors folder pages (resident.add term atoms).2.1 := by
  have sameSize : resident.size = paged.termCount := mirrors.termCount.symm
  simp only [ResidentStore.add, mirrors.residentPhase, held, PagedStore.append,
    mirrors.components, sameSize, TermPool.push_of_room room]
  generalize resident.components.insert paged.termCount term atoms = inserted
  obtain ⟨answer, components, joined⟩ := inserted
  cases answer with
  | error fault =>
      exact ⟨rfl, rfl, { mirrors with
        residentPhase := rfl
        shelved := mirrors.shelved.congr rfl rfl rfl
        components := rfl }⟩
  | ok root =>
      refine ⟨rfl, rfl, { mirrors with
        residentPhase := rfl
        shelved := mirrors.shelved.congr rfl rfl (by simp)
        terms := ?_
        wellFormed := ?_
        room := ?_
        capacity := ?_
        termCount := ?_
        components := rfl
        counts := ?_
        counted := ?_ }⟩
      · simp [← mirrors.terms]
      · intro other member
        rw [TermPool.terms_take_fill] at member
        rcases List.mem_append.mp member with old | new
        · exact mirrors.wellFormed other old
        · exact List.mem_singleton.mp new ▸ wellFormed
      · simp only [TermPool.isFull, decide_eq_false_iff_not] at room
        simp only [TermPool.count_fill, TermPool.count_take, TermPool.capacity_fill,
          TermPool.capacity_take]
        omega
      · simpa using mirrors.capacity
      · simp [← sameSize, ResidentStore.size]
      · dsimp only
        rw [mirrors.counts]
      · intro rule
        dsimp only
        rw [RuleCounts.getD_count, mirrors.counted rule, Array.countP_push]
        simp

/-- The pool of a store that needs no flush has room. -/
theorem isFull_of_not_needsFlush {store : PagedStore} {length : Nat}
    (kept : store.needsFlush length = false) : store.pool.isFull = false := by
  simp only [needsFlush, Bool.or_eq_false_iff] at kept
  exact kept.1

/-- Both stores answer alike to the addition of a term, unless a page cannot be saved. -/
theorem Mirrors.add {paged : PagedStore} {folder : FoundFolder} {pages : List (List (Term Single))}
    {resident : ResidentStore Single} (mirrors : paged.Mirrors folder pages resident)
    {term : Term Single} (wellFormed : term.WellFormed) (atoms : AtomStore Single)
    (saved : unsaved (paged.add term atoms folder).1 = false) :
    (resident.add term atoms).1 = (paged.add term atoms folder).1 ∧
      (resident.add term atoms).2.2 = (paged.add term atoms folder).2.2.1 ∧
      ∃ all, (paged.add term atoms folder).2.1.Mirrors (paged.add term atoms folder).2.2.2 all
        (resident.add term atoms).2.1 := by
  unfold PagedStore.add at saved ⊢
  rw [mirrors.pagedPhase] at saved ⊢
  dsimp only at saved ⊢
  cases checked : atoms.checkAll term.atoms with
  | error fault =>
      simp only [ResidentStore.add, mirrors.residentPhase, checked]
      exact ⟨trivial, trivial, pages, mirrors⟩
  | ok _ =>
      simp only [checked] at saved ⊢
      cases needs : paged.needsFlush term.encodedLength with
      | true =>
          simp only [needs, if_true] at saved ⊢
          generalize flushed : paged.flush folder = outcome at saved ⊢
          obtain ⟨result, left⟩ := outcome
          cases result with
          | error fault =>
              rw [flush_error flushed] at saved
              cases saved
          | ok after =>
              obtain ⟨empty, all, mirrors⟩ := mirrors.flush flushed
              have roomy : after.pool.isFull = false := by
                have capacity := mirrors.capacity
                have noneLeft : after.pool.count = 0 := by rw [← TermPool.length_terms, empty]; rfl
                simp only [TermPool.isFull, noneLeft, decide_eq_false_iff_not]
                omega
              obtain ⟨answers, joined, mirrors⟩ := mirrors.append wellFormed roomy checked
              exact ⟨answers, joined, all, mirrors⟩
      | false =>
          simp only [Bool.false_eq_true, if_false]
          obtain ⟨answers, joined, mirrors⟩ :=
            mirrors.append wellFormed (isFull_of_not_needsFlush needs) checked
          exact ⟨answers, joined, pages, mirrors⟩

/-- Both stores answer alike to all additions, unless a page cannot be saved. -/
theorem Mirrors.addAll {paged : PagedStore} {folder : FoundFolder}
    {pages : List (List (Term Single))} {resident : ResidentStore Single}
    (mirrors : paged.Mirrors folder pages resident) {terms : List (Term Single)}
    (wellFormed : ∀ term ∈ terms, term.WellFormed) (atoms : AtomStore Single)
    (saved : ∀ answer ∈ (paged.addAll atoms folder terms).1, unsaved answer = false) :
    (resident.addAll atoms terms).1 = (paged.addAll atoms folder terms).1 ∧
      (resident.addAll atoms terms).2.2 = (paged.addAll atoms folder terms).2.2.1 ∧
      ∃ all, (paged.addAll atoms folder terms).2.1.Mirrors
        (paged.addAll atoms folder terms).2.2.2 all (resident.addAll atoms terms).2.1 := by
  induction terms generalizing paged folder pages resident atoms with
  | nil => exact ⟨rfl, rfl, pages, mirrors⟩
  | cons term later inductionHypothesis =>
      simp only [PagedStore.addAll, ResidentStore.addAll, List.forall_mem_cons] at saved ⊢
      obtain ⟨answer, joined, all, mirrors⟩ :=
        mirrors.add (wellFormed term List.mem_cons_self) atoms saved.1
      rw [joined, answer]
      obtain ⟨answers, partition, all, mirrors⟩ := inductionHypothesis mirrors
        (fun term member => wellFormed term (List.mem_cons_of_mem _ member)) _ saved.2
      exact ⟨congrArg _ answers, partition, all, mirrors⟩

end PagedStore

end HingeLoss
