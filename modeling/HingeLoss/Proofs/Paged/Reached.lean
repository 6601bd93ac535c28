import HingeLoss.Paged.Stream
import HingeLoss.Proofs.Paged.Replay
import Mathlib.Algebra.GroupWithZero.Nat

/-! The paged stores that can be reached, whatever happens to their folders in between. -/

namespace HingeLoss

/-- The recent pages fit, and each of them holds as many terms as were written, under their present
weights. -/
structure RecentPages.Whole (recent : RecentPages) (sizes : Array Nat)
    (present : Term Single → Term Single) : Prop where
  room : recent.pages.length ≤ recent.capacity
  whole : ∀ held ∈ recent.pages, held.2.size = sizes.getD held.1 0
  present : ∀ held ∈ recent.pages, held.2.toList.map present = held.2.toList

namespace RecentPages

variable {recent : RecentPages} {sizes : Array Nat} {present : Term Single → Term Single}

theorem whole_of_nil (none : recent.pages = []) (sizes : Array Nat)
    (present : Term Single → Term Single) : recent.Whole sizes present :=
  ⟨by simp [none], by simp [none], by simp [none]⟩

theorem Whole.use (whole : recent.Whole sizes present) {page : Nat} {terms : Array (Term Single)}
    (counted : terms.size = sizes.getD page 0) (settled : terms.toList.map present = terms.toList) :
    (recent.use page terms).Whole sizes present := by
  refine ⟨recent.length_use_le page terms, fun held member => ?_, fun held member => ?_⟩
  · rcases mem_use member with rfl | old
    · exact counted
    · exact whole.whole held old
  · rcases mem_use member with rfl | old
    · exact settled
    · exact whole.present held old

end RecentPages

namespace PagedStore

theorem override_override (store : PagedStore) (term : Term Single) :
    store.override (store.override term) = store.override term := by
  simp only [override_eq]
  cases store.overrides[term.rule]? <;> rfl

/-- Terms under their present weights stay so when a weight is set. -/
theorem map_override_of_reweigh {store other : PagedStore} {rule : RuleId} {weight : Weight Single}
    (inserted : other.overrides = store.overrides.insert rule weight) {terms : List (Term Single)}
    (settled : terms.map store.override = terms) :
    (terms.map (Term.reweigh rule weight)).map other.override =
      terms.map (Term.reweigh rule weight) := by
  have same : (terms.map store.override).map (Term.reweigh rule weight) =
      terms.map other.override := by
    rw [List.map_map]
    exact List.map_congr_left fun term _ =>
      (override_insert store other rule weight inserted term).symm
  rw [settled] at same
  rw [same, List.map_map]
  exact List.map_congr_left fun term _ => other.override_override term

theorem whole_reweighed {store : PagedStore} {sizes : Array Nat}
    (whole : store.recent.Whole sizes store.override) (rule : RuleId) (weight : Weight Single) :
    (store.reweighed rule weight).recent.Whole sizes (store.reweighed rule weight).override := by
  refine ⟨store.recent.length_reweigh rule weight ▸ whole.room, fun held member => ?_,
    fun held member => ?_⟩
  · obtain ⟨before, known, rfl⟩ := RecentPages.mem_reweigh member
    rw [Array.size_map]
    exact whole.whole before known
  · obtain ⟨before, known, rfl⟩ := RecentPages.mem_reweigh member
    rw [Array.toList_map]
    exact map_override_of_reweigh rfl (whole.present before known)

/-- What stands for a page: its copy in memory, or else the records of its file. -/
inductive Finds (store : PagedStore) (folder : FoundFolder) (page : Nat) :
    List (Term Single) → Prop
  | kept {terms : Array (Term Single)} (kept : store.recent.terms? page = some terms) :
      Finds store folder page terms.toList
  | file {image : Bytes} {records : List TermRecord} (missing : store.recent.terms? page = none)
      (fetched : Page.fetch store.directory page folder = .ok image)
      (isImage : Page.IsImage image records) :
      Finds store folder page (records.map TermRecord.term)

/-- The terms of a page are lent from now on, as they were found and under their present weights. -/
def Enters (store : PagedStore) (folder : FoundFolder) (page : Nat) (after : PagedStore) : Prop :=
  ∃ terms, store.Finds folder page terms ∧ terms.length = store.pageSizes.getD page 0 ∧
    after.currentTerms = terms.map store.override

theorem Enters.currentCount {store after : PagedStore} {folder : FoundFolder} {page : Nat}
    (enters : store.Enters folder page after) :
    after.currentCount = store.pageSizes.getD page 0 := by
  obtain ⟨terms, -, counted, current⟩ := enters
  rw [currentCount_eq, current, List.length_map, counted]

/-- A page that is read is whole, or it is refused with a fault of its file. Only the pool, the
recent pages and the traffic change. -/
theorem readPage_cases (store : PagedStore) (page : Nat) (folder : FoundFolder)
    (whole : store.recent.Whole store.pageSizes store.override)
    (missing : store.recent.terms? page = none) :
    ∃ pool recent traffic,
      (store.readPage page folder).2 = { store with pool, recent, traffic } ∧
        recent.Whole store.pageSizes store.override ∧
        ((∃ fault, (store.readPage page folder).1 = .error (.page fault)) ∨
          (store.readPage page folder).1 = .ok () ∧
            store.Enters folder page { store with pool, recent, traffic }) := by
  cases fetched : Page.fetch store.directory page folder with
  | error fault =>
      rw [readPage_of_fetch_error fetched]
      exact ⟨_, _, _, rfl, whole, .inl ⟨fault, rfl⟩⟩
  | ok bytes =>
      generalize loaded : Page.load (Page.path store.directory page) bytes store.pool = outcome
      obtain ⟨answer, filled⟩ := outcome
      cases answer with
      | error fault =>
          rw [readPage_of_load_error fetched loaded]
          exact ⟨_, _, _, rfl, whole, .inl ⟨fault, rfl⟩⟩
      | ok held =>
          -- A sound image of another number of terms is refused as well.
          by_cases written : held = store.pageSizes.getD page 0
          · rw [readPage_of_load fetched loaded written.symm]
            obtain ⟨records, isImage, -, counted, live⟩ :=
              Page.isImage_of_decode (Page.decode_of_load loaded)
            have settled : (filled.mapLive store.override).terms.map store.override =
                (filled.mapLive store.override).terms := by
              rw [TermPool.terms_mapLive, List.map_map]
              exact List.map_congr_left fun term _ => store.override_override term
            have size : (filled.mapLive store.override).terms.toArray.size =
                store.pageSizes.getD page 0 := by
              rw [List.size_toArray, TermPool.terms_mapLive, List.length_map, live, List.length_map,
                ← counted, written]
            refine ⟨_, _, _, rfl, whole.use size settled, .inr ⟨rfl,
              records.map TermRecord.term, .file missing fetched isImage, ?_, ?_⟩⟩
            · rw [List.length_map, ← counted, written]
            · rw [← live]
              by_cases room : store.recent.capacity = 0
              · simp [currentTerms, lendsFromPool, room]
              · simp [currentTerms, lendsFromPool, room, RecentPages.current_use room]
          · rw [readPage_of_miscount fetched loaded written]
            exact ⟨_, _, _, rfl, whole, .inl ⟨_, rfl⟩⟩

/-- The same holds of a page that is entered, because the pages kept in memory are whole. -/
theorem enterPage_cases (store : PagedStore) (page : Nat) (folder : FoundFolder)
    (whole : store.recent.Whole store.pageSizes store.override) :
    ∃ pool recent traffic,
      (store.enterPage page folder).2 = { store with pool, recent, traffic } ∧
        recent.Whole store.pageSizes store.override ∧
        ((∃ fault, (store.enterPage page folder).1 = .error (.page fault)) ∨
          (store.enterPage page folder).1 = .ok () ∧
            store.Enters folder page { store with pool, recent, traffic }) := by
  unfold enterPage
  cases kept : store.recent.terms? page with
  | some terms =>
      have member := RecentPages.mem_of_terms? kept
      have counted := whole.whole _ member
      have settled := whole.present _ member
      have room : store.recent.capacity ≠ 0 := by
        have := List.length_pos_of_mem member
        have := whole.room
        omega
      refine ⟨_, _, _, rfl, whole.use counted settled, .inr ⟨rfl, terms.toList, .kept kept, ?_, ?_⟩⟩
      · exact Array.length_toList.trans counted
      · rw [settled]
        simp [currentTerms, lendsFromPool, room, RecentPages.current_use room]
  | none => exact store.readPage_cases page folder whole kept

/-- Whatever a request finds, it only changes the pool, the recent pages, the traffic, the sweep and
the generator, and it leaves whole recent pages. -/
theorem advance_keeps (cancelled : Bool) (folder : FoundFolder) (pages : List Nat)
    (store : PagedStore) (whole : store.recent.Whole store.pageSizes store.override) :
    ∃ pool recent traffic cursor generator,
      (advance cancelled folder pages store).2 =
          { store with pool, recent, traffic, cursor, generator } ∧
        recent.Whole store.pageSizes store.override := by
  induction pages generalizing store with
  | nil => exact ⟨_, _, _, _, _, rfl, whole⟩
  | cons page rest inductionHypothesis =>
      rw [advance]
      cases cancelled with
      | true => exact ⟨_, _, _, _, _, rfl, whole⟩
      | false =>
          obtain ⟨pool, recent, traffic, left, stillWhole, -⟩ :=
            enterPage_cases { store with cursor := ⟨rest, []⟩ } page folder whole
          generalize enterPage { store with cursor := ⟨rest, []⟩ } page folder = outcome at left
          obtain ⟨answer, after⟩ := outcome
          dsimp only at left
          subst left
          cases answer with
          | error fault => exact ⟨_, _, _, _, _, rfl, stillWhole⟩
          | ok _ =>
              simp only [Bool.false_eq_true, if_false]
              split
              · obtain ⟨pool, recent, traffic, cursor, generator, left, stillWhole⟩ :=
                  inductionHypothesis
                    (orderTerms { store with cursor := ⟨rest, []⟩, pool, recent, traffic })
                    stillWhole
                exact ⟨pool, recent, traffic, cursor, generator, left, stillWhole⟩
              · exact ⟨_, _, _, _, _, rfl, stillWhole⟩

theorem lend_keeps (store : PagedStore) :
    ∃ cursor, store.lend.2 = { store with cursor } := by
  unfold lend
  split
  · exact ⟨store.cursor, rfl⟩
  · dsimp only
    split <;> exact ⟨_, rfl⟩

theorem nextTerm_keeps (store : PagedStore) (cancelled : Bool) (folder : FoundFolder)
    (whole : store.recent.Whole store.pageSizes store.override) :
    ∃ pool recent traffic cursor generator,
      (store.nextTerm cancelled folder).2 =
          { store with pool, recent, traffic, cursor, generator } ∧
        recent.Whole store.pageSizes store.override := by
  unfold nextTerm
  split
  · exact ⟨_, _, _, _, _, rfl, whole⟩
  · split
    · obtain ⟨pool, recent, traffic, cursor, generator, left, stillWhole⟩ :=
        advance_keeps cancelled folder store.cursor.pages store whole
      generalize advance cancelled folder store.cursor.pages store = outcome at left
      obtain ⟨answer, after⟩ := outcome
      dsimp only at left
      subst left
      rcases answer with fault | _ | _
      · exact ⟨_, _, _, _, _, rfl, stillWhole⟩
      · exact ⟨_, _, _, _, _, rfl, stillWhole⟩
      · obtain ⟨cursor, lent⟩ :=
          lend_keeps { store with pool, recent, traffic, cursor, generator }
        exact ⟨_, _, _, _, _, lent, stillWhole⟩
    · obtain ⟨cursor, lent⟩ := store.lend_keeps
      exact ⟨_, _, _, _, _, lent, whole⟩

/-- The stores that operations lead to. Folders are given to every operation anew, so whatever else
happens to them is covered. -/
inductive Reached : PagedStore → Prop
  | fresh (settings : Paging) (directory : Path) (owned : Bool) :
      Reached (fresh settings directory owned)
  | add {store : PagedStore} (reached : Reached store) (term : Term Single)
      (atoms : AtomStore Single) (folder : FoundFolder) : Reached (store.add term atoms folder).2.1
  | finish {store after : PagedStore} {folder left : FoundFolder} (reached : Reached store)
      (finished : store.finish folder = (.ok after, left)) : Reached after
  | setWeight {store after : PagedStore} {rule : RuleId} {weight : Weight Single} {count : Nat}
      (reached : Reached store) (reweighed : store.setWeight rule weight = .ok (count, after)) :
      Reached after
  | beginSweep {store after : PagedStore} (reached : Reached store)
      (begun : store.beginSweep = .ok after) : Reached after
  | nextTerm {store : PagedStore} (reached : Reached store) (cancelled : Bool)
      (folder : FoundFolder) : Reached (store.nextTerm cancelled folder).2
  | clear {store after : PagedStore} {folder left : FoundFolder} (reached : Reached store)
      (cleared : store.clear folder = (.ok after, left)) : Reached after
  | close {store : PagedStore} (reached : Reached store) (folder : FoundFolder) :
      Reached (store.close folder).2.1
  | resetTraffic {store : PagedStore} (reached : Reached store) (traffic : Traffic) :
      Reached { store with traffic }

/-- What always holds of the page sizes, the number of terms and the recent pages. -/
structure Consistent (store : PagedStore) : Prop where
  positive : ∀ size ∈ store.pageSizes.toList, 0 < size
  pending : store.phase = .grounding →
    store.termCount = store.pageSizes.toList.sum + store.pool.count
  unread : store.phase = .grounding → store.recent.pages = []
  written : store.phase = .ready → store.termCount = store.pageSizes.toList.sum
  whole : store.recent.Whole store.pageSizes store.override

theorem consistent_fresh (settings : Paging) (directory : Path) (owned : Bool) :
    (fresh settings directory owned).Consistent where
  positive := by simp [fresh]
  pending _ := rfl
  unread _ := rfl
  written := by simp [fresh]
  whole := RecentPages.whole_of_nil rfl _ _

/-- A sweep can begin in a sealed store alone, and goes through all of its pages. -/
theorem beginSweep_ok {store after : PagedStore} (begun : store.beginSweep = .ok after) :
    store.phase = .ready ∧ ∃ pages generator,
      after = { store with cursor := ⟨pages, []⟩, generator } ∧
        pages.Perm (List.range store.pageSizes.size) := by
  by_cases ready : store.phase = .ready
  · rw [beginSweep, ensureReady_of_ready ready] at begun
    cases begun
    exact ⟨ready, _, _, rfl, arrange_perm _ _ _ _⟩
  · obtain ⟨fault, refused⟩ := ensureReady_error ready
    rw [beginSweep, refused] at begun
    cases begun

/-- A page that is written has as many terms as were pending, so none is empty. -/
theorem Consistent.flush {store after : PagedStore} {folder left : FoundFolder}
    (consistent : store.Consistent) (grounding : store.phase = .grounding)
    (flushed : store.flush folder = (.ok after, left)) :
    after.Consistent ∧ after.phase = .grounding ∧ after.pool.count = 0 := by
  unfold PagedStore.flush at flushed
  split at flushed
  · rename_i noneLeft
    cases flushed
    exact ⟨consistent, grounding, beq_iff_eq.mp noneLeft⟩
  · rename_i someLeft
    split at flushed
    · cases flushed
    · cases flushed
      have pending := consistent.pending grounding
      -- The pending terms become the size of a page, so the total stays the same.
      refine ⟨⟨?_, ?_, fun _ => consistent.unread grounding, ?_, ?_⟩, grounding, rfl⟩
      · intro size member
        rw [Array.toList_push, List.mem_append, List.mem_singleton] at member
        rcases member with old | rfl
        · exact consistent.positive size old
        · simp only [TermPool.isEmpty, beq_iff_eq] at someLeft
          exact Nat.pos_of_ne_zero someLeft
      · intro _
        simp [pending]
      · intro ready
        cases grounding.symm.trans ready
      · exact RecentPages.whole_of_nil (consistent.unread grounding) _ _

theorem Consistent.append {store : PagedStore} (consistent : store.Consistent)
    (grounding : store.phase = .grounding) (term : Term Single) (atoms : AtomStore Single) :
    (store.append term atoms).2.1.Consistent := by
  have pending := consistent.pending grounding
  unfold PagedStore.append
  split
  · exact ⟨consistent.positive, consistent.pending, consistent.unread, consistent.written,
      consistent.whole⟩
  · dsimp only
    split
    · exact ⟨consistent.positive, consistent.pending, consistent.unread, consistent.written,
        consistent.whole⟩
    · rename_i pushed
      refine ⟨consistent.positive, fun _ => ?_, consistent.unread, ?_, consistent.whole⟩
      · unfold TermPool.push at pushed
        split at pushed
        · cases pushed
        · cases pushed
          simp [pending, Nat.add_assoc]
      · intro ready
        cases grounding.symm.trans ready

theorem Consistent.add {store : PagedStore} (consistent : store.Consistent) (term : Term Single)
    (atoms : AtomStore Single) (folder : FoundFolder) :
    (store.add term atoms folder).2.1.Consistent := by
  unfold PagedStore.add
  split
  · exact consistent
  · exact consistent
  · rename_i grounding
    split
    · exact consistent
    · split
      · split
        · exact consistent
        · rename_i flushed
          obtain ⟨flushedConsistent, stillGrounding, -⟩ := consistent.flush grounding flushed
          exact flushedConsistent.append stillGrounding term atoms
      · exact consistent.append grounding term atoms

theorem Consistent.finish {store after : PagedStore} {folder left : FoundFolder}
    (consistent : store.Consistent) (finished : store.finish folder = (.ok after, left)) :
    after.Consistent := by
  unfold PagedStore.finish at finished
  split at finished
  · cases finished
    exact consistent
  · cases finished
  · rename_i grounding
    split at finished
    · cases finished
    · rename_i flushed
      cases finished
      obtain ⟨flushedConsistent, stillGrounding, noneLeft⟩ := consistent.flush grounding flushed
      have pending := flushedConsistent.pending stillGrounding
      exact ⟨flushedConsistent.positive, nofun, nofun, fun _ => by simpa [noneLeft] using pending,
        flushedConsistent.whole⟩

theorem Consistent.setWeight {store after : PagedStore} {rule : RuleId} {weight : Weight Single}
    {count : Nat} (consistent : store.Consistent)
    (reweighed : store.setWeight rule weight = .ok (count, after)) : after.Consistent := by
  unfold PagedStore.setWeight at reweighed
  split at reweighed
  · cases reweighed
  · simp only [Except.map] at reweighed
    split at reweighed
    · cases reweighed
    cases reweighed
    refine ⟨consistent.positive, consistent.pending, fun grounding => ?_, consistent.written,
      whole_reweighed consistent.whole rule weight⟩
    simp [RecentPages.reweigh, consistent.unread grounding]

theorem Consistent.close {store : PagedStore} (consistent : store.Consistent)
    (folder : FoundFolder) : (store.close folder).2.1.Consistent := by
  have closed (store : PagedStore) (closing : store.phase = .closed)
      (noSizes : store.pageSizes = #[]) (noneRecent : store.recent.pages = []) :
      store.Consistent :=
    ⟨by simp [noSizes], by simp [closing], by simp [closing], by simp [closing],
      RecentPages.whole_of_nil noneRecent _ _⟩
  unfold PagedStore.close
  split
  · exact consistent
  · split
    · exact consistent
    · dsimp only
      split
      · split <;> exact closed _ rfl rfl rfl
      · exact closed _ rfl rfl rfl

theorem Consistent.nextTerm {store : PagedStore} (consistent : store.Consistent) (cancelled : Bool)
    (folder : FoundFolder) : (store.nextTerm cancelled folder).2.Consistent := by
  by_cases ready : store.phase = .ready
  · obtain ⟨pool, recent, traffic, cursor, generator, left, whole⟩ :=
      nextTerm_keeps store cancelled folder consistent.whole
    rw [left]
    exact ⟨consistent.positive, by simp [ready], by simp [ready], consistent.written, whole⟩
  · obtain ⟨fault, refused⟩ := ensureReady_error ready
    rw [PagedStore.nextTerm, refused]
    exact consistent

theorem consistent_of_clear {store after : PagedStore} {folder left : FoundFolder}
    (cleared : store.clear folder = (.ok after, left)) : after.Consistent := by
  unfold PagedStore.clear at cleared
  split at cleared
  · cases cleared
  · split at cleared
    · cases cleared
    · cases cleared
      exact ⟨by simp [emptied], fun _ => rfl, fun _ => rfl, nofun, RecentPages.whole_of_nil rfl _ _⟩

/-- Every operation keeps a store consistent. -/
theorem Reached.consistent {store : PagedStore} (reached : store.Reached) : store.Consistent := by
  induction reached with
  | fresh settings directory owned => exact consistent_fresh settings directory owned
  | add _ term atoms folder consistent => exact consistent.add term atoms folder
  | finish _ finished consistent => exact consistent.finish finished
  | setWeight _ reweighed consistent => exact consistent.setWeight reweighed
  | beginSweep _ begun consistent =>
      obtain ⟨-, pages, generator, rfl, -⟩ := beginSweep_ok begun
      exact ⟨consistent.positive, consistent.pending, consistent.unread, consistent.written,
        consistent.whole⟩
  | nextTerm _ cancelled folder consistent => exact consistent.nextTerm cancelled folder
  | clear _ cleared _ => exact consistent_of_clear cleared
  | close _ folder consistent => exact consistent.close folder
  | resetTraffic _ traffic consistent =>
      exact ⟨consistent.positive, consistent.pending, consistent.unread, consistent.written,
        consistent.whole⟩

end PagedStore

end HingeLoss
