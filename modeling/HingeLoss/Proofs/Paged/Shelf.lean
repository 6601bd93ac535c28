import HingeLoss.Paged.Store
import HingeLoss.Proofs.Page.File

/-! The shelf of a paged store: the pages that it has written, as lists of terms. -/

namespace HingeLoss

/-- Terms that make a page which a pool of a capacity can take back. -/
structure Page.Sound (capacity : Nat) (terms : List (Term Single)) : Prop where
  nonempty : terms ≠ []
  wellFormed : ∀ term ∈ terms, term.WellFormed
  room : terms.length ≤ capacity
  fits : Page.fitsHeader (Page.body terms).length terms.length = true

namespace PagedStore

/-- Whether an operation failed because a page could not be saved. -/
def unsaved {β : Type} : Except (StoreFault Single) β → Bool
  | .error (.page fault) => fault.isUnsaved
  | _ => false

/-- The pages of a store, as they were written into its folder. -/
structure Shelved (store : PagedStore) (folder : FoundFolder)
    (pages : List (List (Term Single))) : Prop where
  sizes : store.pageSizes.toList = pages.map List.length
  sound : ∀ terms ∈ pages, Page.Sound store.pool.capacity terms
  held : ∀ index terms, pages[index]? = some terms →
    Page.fetch store.directory index folder = .ok (Page.encode terms)

theorem Shelved.size {store : PagedStore} {folder : FoundFolder} {pages : List (List (Term Single))}
    (shelved : store.Shelved folder pages) : store.pageSizes.size = pages.length := by
  rw [← Array.length_toList, shelved.sizes, List.length_map]

theorem Shelved.getD_pageSizes {store : PagedStore} {folder : FoundFolder}
    {pages : List (List (Term Single))} (shelved : store.Shelved folder pages) {index : Nat}
    {terms : List (Term Single)} (found : pages[index]? = some terms) :
    store.pageSizes.getD index 0 = terms.length := by
  rw [Array.getD_eq_getD_getElem?, ← Array.getElem?_toList, shelved.sizes, List.getElem?_map, found]
  rfl

/-- A store with the same directory, page sizes and capacity has the same shelf. -/
theorem Shelved.congr {store other : PagedStore} {folder : FoundFolder}
    {pages : List (List (Term Single))} (shelved : store.Shelved folder pages)
    (directory : other.directory = store.directory)
    (sizes : other.pageSizes = store.pageSizes)
    (capacity : other.pool.capacity = store.pool.capacity) : other.Shelved folder pages where
  sizes := sizes ▸ shelved.sizes
  sound := capacity ▸ shelved.sound
  held := directory ▸ shelved.held

/-- The shelf only depends on what is fetched from the folder. -/
theorem Shelved.withFolder {store : PagedStore} {folder other : FoundFolder}
    {pages : List (List (Term Single))} (shelved : store.Shelved folder pages)
    (same : ∀ index < store.pageSizes.size,
      Page.fetch store.directory index other = Page.fetch store.directory index folder) :
    store.Shelved other pages where
  sizes := shelved.sizes
  sound := shelved.sound
  held index terms found := by
    rw [same index (shelved.size ▸ (List.getElem?_eq_some_iff.mp found).1)]
    exact shelved.held index terms found

/-- All pages of a shelf can be removed. -/
theorem Shelved.removeAll {store : PagedStore} {folder : FoundFolder}
    {pages : List (List (Term Single))} (shelved : store.Shelved folder pages) :
    ∃ left, Page.removeAll store.directory (List.range store.pageSizes.size) folder =
      (.ok (), left) := by
  rw [shelved.size]
  cases pages with
  | nil => exact ⟨folder, rfl⟩
  | cons first rest =>
      cases entered : folder.entries with
      | error fault =>
          have held := shelved.held 0 first rfl
          simp only [Page.fetch, entered] at held
          cases held
      | ok entries =>
          refine Page.removeAll_of_files _ entered fun index member inner blocked => ?_
          have found := List.getElem?_eq_getElem (List.mem_range.mp member)
          have held := shelved.held index _ found
          simp only [Page.fetch, entered, Folder.read, blocked] at held
          cases held

/-- What stands in the folder can only be read as one list of pages. -/
theorem Shelved.unique {store other : PagedStore} {folder : FoundFolder}
    {pages otherPages : List (List (Term Single))} (shelved : store.Shelved folder pages)
    (otherShelved : other.Shelved folder otherPages) (directory : other.directory = store.directory)
    (sizes : other.pageSizes = store.pageSizes) : otherPages = pages := by
  have counted : otherPages.length = pages.length := by
    rw [← otherShelved.size, sizes, shelved.size]
  apply List.ext_getElem counted
  intro index otherInRange inRange
  have found := List.getElem?_eq_getElem inRange
  have otherFound := List.getElem?_eq_getElem otherInRange
  have held := shelved.held index _ found
  have otherHeld := otherShelved.held index _ otherFound
  rw [directory, held, Except.ok.injEq] at otherHeld
  have sound := shelved.sound _ (List.getElem_mem inRange)
  have otherSound := otherShelved.sound _ (List.getElem_mem otherInRange)
  exact Page.encode_injective otherSound.wellFormed sound.wellFormed otherSound.fits sound.fits
    otherHeld.symm

/-- A flush only fails because a page cannot be saved. -/
theorem flush_error {store : PagedStore} {folder left : FoundFolder} {fault : StoreFault Single}
    (failed : store.flush folder = (.error fault, left)) {β : Type} :
    unsaved (.error fault : Except _ β) = true := by
  unfold flush at failed
  split at failed
  · cases failed
  · split at failed
    · rename_i refused
      cases failed
      exact Page.isUnsaved_of_save refused
    · cases failed

/-- Pending terms that are written become the last page of the shelf. -/
theorem Shelved.flush {store after : PagedStore} {folder left : FoundFolder}
    {pages : List (List (Term Single))} (shelved : store.Shelved folder pages)
    (wellFormed : ∀ term ∈ store.pool.terms, term.WellFormed)
    (room : store.pool.count ≤ store.pool.capacity) (some : store.pool.terms ≠ [])
    (flushed : store.flush folder = (.ok after, left)) :
    after.Shelved left (pages ++ [store.pool.terms]) := by
  unfold PagedStore.flush at flushed
  split at flushed
  · rename_i noneLeft
    exact absurd (store.pool.isEmpty_iff.mp noneLeft) some
  · split at flushed
    · cases flushed
    · rename_i bytes found saved
      cases flushed
      obtain ⟨fits, image, others⟩ := Page.save_ok saved
      refine ⟨?_, ?_, ?_⟩
      · simp [shelved.sizes]
      · intro terms member
        rcases List.mem_append.mp member with old | new
        · exact shelved.sound terms old
        · obtain rfl := List.mem_singleton.mp new
          exact ⟨some, wellFormed, by simpa using room, fits⟩
      · intro index terms found
        rw [shelved.size] at image others
        by_cases last : index = pages.length
        · subst last
          simp only [List.getElem?_concat_length, Option.some.injEq] at found
          exact found ▸ image
        · have inRange := (List.getElem?_eq_some_iff.mp found).1
          rw [List.length_append, List.length_singleton] at inRange
          rw [List.getElem?_append_left (by omega)] at found
          exact (others index last).trans (shelved.held index terms found)

/-- Flushing changes the pool, the list of pages, the pending bytes and the traffic alone. It leaves
no pending terms, and the shelf holds what was pending. -/
theorem flush_ok {store after : PagedStore} {folder left : FoundFolder}
    {pages : List (List (Term Single))} (shelved : store.Shelved folder pages)
    (wellFormed : ∀ term ∈ store.pool.terms, term.WellFormed)
    (room : store.pool.count ≤ store.pool.capacity)
    (flushed : store.flush folder = (.ok after, left)) :
    (∃ pool pageSizes pendingBytes traffic,
      after = { store with pool, pageSizes, pendingBytes, traffic } ∧ pool.terms = [] ∧
        pool.capacity = store.pool.capacity) ∧
      ∃ all, after.Shelved left all ∧ all.flatten = pages.flatten ++ store.pool.terms := by
  by_cases empty : store.pool.terms = []
  · rw [flush, if_pos (store.pool.isEmpty_iff.mpr empty)] at flushed
    cases flushed
    exact ⟨⟨store.pool, store.pageSizes, store.pendingBytes, store.traffic, rfl, empty, rfl⟩,
      pages, shelved, by rw [empty, List.append_nil]⟩
  · have added := shelved.flush wellFormed room empty flushed
    refine ⟨?_, _, added, by simp⟩
    rw [flush, if_neg fun noneLeft => empty (store.pool.isEmpty_iff.mp noneLeft)] at flushed
    split at flushed
    · cases flushed
    · cases flushed
      exact ⟨_, _, _, _, rfl, store.pool.terms_clear, store.pool.capacity_clear⟩

/-- A flush that fails leaves the shelf as it was. -/
theorem Shelved.flush_error {store : PagedStore} {folder left : FoundFolder}
    {pages : List (List (Term Single))} (shelved : store.Shelved folder pages)
    {fault : StoreFault Single} (failed : store.flush folder = (.error fault, left)) :
    store.Shelved left pages := by
  unfold PagedStore.flush at failed
  split at failed
  · cases failed
  · split at failed
    · rename_i refused
      cases failed
      exact shelved.withFolder fun index _ => Page.fetch_of_save_error refused index
    · cases failed

theorem settings_flush {store after : PagedStore} {folder left : FoundFolder}
    (flushed : store.flush folder = (.ok after, left)) : after.settings = store.settings := by
  unfold flush at flushed
  split at flushed
  · cases flushed
    rfl
  · split at flushed
    · cases flushed
    · cases flushed
      rfl

end PagedStore

end HingeLoss
