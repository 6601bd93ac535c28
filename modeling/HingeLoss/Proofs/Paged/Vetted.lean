import HingeLoss.Proofs.Page.Numbers
import HingeLoss.Proofs.Paged.Reached
import HingeLoss.Proofs.Paged.Session

/-! A store that is given terms that were built and finds numbers on its pages lends such terms. -/

namespace HingeLoss

namespace Page

/-- Whatever page is looked for in a folder, its file holds numbers if it is an image. -/
def FilesHoldNumbers (folder : FoundFolder) : Prop :=
  ∀ directory page image, fetch directory page folder = .ok image → HoldsNumbers image

/-- The directory only serves the faults. -/
theorem fetch_of_fetch {directory other : Path} {page : Nat} {folder : FoundFolder} {image : Bytes}
    (fetched : fetch directory page folder = .ok image) : fetch other page folder = .ok image := by
  unfold fetch at fetched ⊢
  split at fetched
  · cases fetched
  · split at fetched
    · exact fetched
    · cases fetched
    · cases fetched

/-- The files of a folder still hold numbers once terms that were built are saved in it. -/
theorem FilesHoldNumbers.save {folder left : FoundFolder} (numbers : FilesHoldNumbers folder)
    {terms : List (Term Single)} (built : ∀ term ∈ terms, term.IsBuilt) {directory : Path}
    {index size : Nat} (saved : save directory index terms folder = (.ok size, left)) :
    FilesHoldNumbers left := by
  obtain ⟨fits, written, kept⟩ := save_ok saved
  intro other page image fetched
  have found : fetch directory page left = .ok image := fetch_of_fetch fetched
  by_cases same : page = index
  · rw [same, written] at found
    cases found
    exact holdsNumbers_encode built fits
  · rw [kept page same] at found
    exact numbers directory page image found

end Page

namespace PagedStore

/-- Every term in memory could have been built, and so it can with every weight that was set. -/
structure Vetted (store : PagedStore) : Prop where
  pool : ∀ term ∈ store.pool.terms, term.IsBuilt
  recent : ∀ held ∈ store.recent.pages, ∀ term ∈ held.2.toList, term.IsBuilt
  overrides : ∀ (rule : RuleId) (weight : Weight Single),
    store.overrides[rule]? = some weight → weight.isValid = true

variable {store after : PagedStore} {folder left : FoundFolder}

theorem Vetted.override (vetted : store.Vetted) {term : Term Single} (built : term.IsBuilt) :
    (store.override term).IsBuilt := by
  unfold PagedStore.override
  split
  · rename_i weight known
    exact built.withWeight (vetted.overrides term.rule weight known)
  · exact built

theorem Vetted.use (vetted : store.Vetted) {terms : Array (Term Single)}
    (built : ∀ term ∈ terms.toList, term.IsBuilt) (page : Nat) :
    ∀ held ∈ (store.recent.use page terms).pages, ∀ term ∈ held.2.toList, term.IsBuilt := by
  intro held member
  rcases RecentPages.mem_use member with rfl | old
  · exact built
  · exact vetted.recent held old

/-- A page is read from a file that holds numbers, or the pool is left as it was or empty. -/
theorem Vetted.readPage (vetted : store.Vetted) (numbers : Page.FilesHoldNumbers folder)
    (page : Nat) : (store.readPage page folder).2.Vetted := by
  have withPool {pool : TermPool} (none : pool = store.pool ∨ pool.terms = [])
      (traffic : Traffic) : Vetted { store with pool, traffic } := by
    refine ⟨?_, vetted.recent, vetted.overrides⟩
    rcases none with rfl | none
    · exact vetted.pool
    · exact fun term member => absurd (none ▸ member) List.not_mem_nil
  cases fetched : Page.fetch store.directory page folder with
  | error fault =>
      rw [readPage_of_fetch_error fetched]
      exact vetted
  | ok image =>
      generalize loaded : Page.load (Page.path store.directory page) image store.pool = outcome
      obtain ⟨fault | count, filled⟩ := outcome
      · rw [readPage_of_load_error fetched loaded]
        exact withPool (Page.load_error loaded) store.traffic
      · obtain ⟨records, isImage, -, -, live⟩ :=
          Page.isImage_of_decode (Page.decode_of_load loaded)
        have built := isImage.holdsNumbers_iff.mp (numbers _ _ _ fetched)
        rw [← live] at built
        by_cases written : count = store.pageSizes.getD page 0
        · rw [readPage_of_load fetched loaded written.symm]
          have present : ∀ term ∈ (filled.mapLive store.override).terms, term.IsBuilt := by
            rw [TermPool.terms_mapLive]
            exact List.forall_mem_map.mpr fun term member => vetted.override (built term member)
          exact ⟨present, vetted.use present page, vetted.overrides⟩
        · rw [readPage_of_miscount fetched loaded written]
          exact withPool (.inr (TermPool.terms_clear filled)) _

theorem Vetted.enterPage (vetted : store.Vetted) (numbers : Page.FilesHoldNumbers folder)
    (page : Nat) : (store.enterPage page folder).2.Vetted := by
  unfold PagedStore.enterPage
  split
  · rename_i terms kept
    have built := vetted.recent _ (RecentPages.mem_of_terms? kept)
    exact ⟨vetted.pool, vetted.use built page, vetted.overrides⟩
  · exact vetted.readPage numbers page

theorem Vetted.advance (vetted : store.Vetted) (numbers : Page.FilesHoldNumbers folder)
    (cancelled : Bool) (pages : List Nat) :
    (PagedStore.advance cancelled folder pages store).2.Vetted := by
  induction pages generalizing store with
  | nil => exact vetted
  | cons page rest inductionHypothesis =>
      rw [PagedStore.advance]
      cases cancelled with
      | true => exact vetted
      | false =>
          have there : Vetted { store with cursor := ⟨rest, []⟩ } :=
            ⟨vetted.pool, vetted.recent, vetted.overrides⟩
          have entered := there.enterPage numbers page
          generalize PagedStore.enterPage { store with cursor := ⟨rest, []⟩ } page folder =
            outcome at entered
          obtain ⟨answer, after⟩ := outcome
          have ordered : after.orderTerms.Vetted :=
            ⟨entered.pool, entered.recent, entered.overrides⟩
          cases answer with
          | error fault => exact entered
          | ok _ =>
              simp only [Bool.false_eq_true, if_false]
              split
              · exact inductionHypothesis ordered
              · exact ordered

theorem Vetted.currentTerms (vetted : store.Vetted) :
    ∀ term ∈ store.currentTerms, term.IsBuilt := by
  unfold PagedStore.currentTerms
  split
  · exact vetted.pool
  · unfold RecentPages.current
    split
    · simp
    · rename_i first
      exact vetted.recent _ (first ▸ List.mem_cons_self)

theorem Vetted.lend (vetted : store.Vetted) :
    store.lend.2.Vetted ∧ ∀ term, store.lend.1 = .ok (some term) → term.IsBuilt := by
  unfold PagedStore.lend
  split
  · exact ⟨vetted, nofun⟩
  · rename_i position rest _
    have there : Vetted { store with cursor := { store.cursor with terms := rest } } :=
      ⟨vetted.pool, vetted.recent, vetted.overrides⟩
    dsimp only
    split
    · rename_i found lends
      rw [currentTerm?_eq] at lends
      refine ⟨there, fun term same => ?_⟩
      cases same
      exact vetted.currentTerms _ (List.mem_of_getElem? lends)
    · exact ⟨there, nofun⟩

/-- A request keeps the store vetted, and lends nothing but a term that could have been built. -/
theorem Vetted.nextTerm (vetted : store.Vetted) (numbers : Page.FilesHoldNumbers folder)
    (cancelled : Bool) :
    (store.nextTerm cancelled folder).2.Vetted ∧
      ∀ term, (store.nextTerm cancelled folder).1 = .ok (some term) → term.IsBuilt := by
  unfold PagedStore.nextTerm
  split
  · exact ⟨vetted, nofun⟩
  · split
    · have advanced := vetted.advance numbers cancelled store.cursor.pages
      generalize PagedStore.advance cancelled folder store.cursor.pages store = outcome
        at advanced
      obtain ⟨fault | _ | _, after⟩ := outcome
      · exact ⟨advanced, nofun⟩
      · exact ⟨advanced, nofun⟩
      · exact advanced.lend
    · exact vetted.lend

theorem Vetted.reweighed (vetted : store.Vetted) {rule : RuleId} {weight : Weight Single}
    (valid : weight.isValid = true) : (store.reweighed rule weight).Vetted := by
  refine ⟨?_, fun held member => ?_, fun other found known => ?_⟩
  · simp only [PagedStore.reweighed, TermPool.terms_mapLive]
    exact List.forall_mem_map.mpr fun term member =>
      (vetted.pool term member).reweigh valid rule
  · obtain ⟨before, old, rfl⟩ := RecentPages.mem_reweigh member
    rw [Array.toList_map]
    exact List.forall_mem_map.mpr fun term member =>
      (vetted.recent before old term member).reweigh valid rule
  · simp only [PagedStore.reweighed, Std.TreeMap.getElem?_insert] at known
    split at known
    · exact Option.some.inj known ▸ valid
    · exact vetted.overrides other found known

theorem Vetted.setWeight (vetted : store.Vetted) {rule : RuleId} {weight : Weight Single}
    {count : Nat} (reweighed : store.setWeight rule weight = .ok (count, after)) :
    after.Vetted := by
  rcases store.setWeight_cases rule weight with ⟨fault, refused⟩ | ⟨-, accepted, same⟩
  · rw [refused] at reweighed
    cases reweighed
  · rw [same] at reweighed
    cases reweighed
    exact vetted.reweighed ((weight.validate_eq_ok_iff rule).mp accepted)

theorem Vetted.flush (vetted : store.Vetted) (flushed : store.flush folder = (.ok after, left)) :
    after.Vetted := by
  rcases store.flush_cases folder with ⟨-, same⟩ | ⟨fault, _, -, same⟩ | ⟨-, bytes, _, -, same⟩
  · rw [same] at flushed
    cases flushed
    exact vetted
  · rw [same] at flushed
    cases flushed
  · rw [same] at flushed
    cases flushed
    exact ⟨by simp, vetted.recent, vetted.overrides⟩

theorem Vetted.append (vetted : store.Vetted) {term : Term Single} (built : term.IsBuilt)
    (atoms : AtomStore Single) : (store.append term atoms).2.1.Vetted := by
  unfold PagedStore.append
  split
  · exact ⟨vetted.pool, vetted.recent, vetted.overrides⟩
  · dsimp only
    split
    · exact ⟨vetted.pool, vetted.recent, vetted.overrides⟩
    · rename_i pushed
      refine ⟨?_, vetted.recent, vetted.overrides⟩
      unfold TermPool.push at pushed
      split at pushed
      · cases pushed
      · cases pushed
        rw [TermPool.terms_take_fill]
        exact List.forall_mem_append.mpr ⟨vetted.pool, List.forall_mem_singleton.mpr built⟩

theorem Vetted.add (vetted : store.Vetted) {term : Term Single} (built : term.IsBuilt)
    (atoms : AtomStore Single) (folder : FoundFolder) :
    (store.add term atoms folder).2.1.Vetted := by
  rcases store.add_cases term atoms folder with
    ⟨fault, left, same, -⟩ | ⟨-, -, base, left, made, same⟩
  · rw [same]
    exact vetted
  · rw [same]
    rcases made with ⟨-, rfl, -⟩ | flushed
    · exact vetted.append built atoms
    · exact (vetted.flush flushed).append built atoms

theorem Vetted.finish (vetted : store.Vetted)
    (finished : store.finish folder = (.ok after, left)) : after.Vetted := by
  rcases store.finish_cases folder with
    ⟨fault, _, same, -⟩ | ⟨-, same⟩ | ⟨-, base, _, flushed, same⟩
  · rw [same] at finished
    cases finished
  · rw [same] at finished
    cases finished
    exact vetted
  · rw [same] at finished
    cases finished
    have there := vetted.flush flushed
    exact ⟨there.pool, there.recent, there.overrides⟩

theorem vetted_of_clear (cleared : store.clear folder = (.ok after, left)) : after.Vetted := by
  rcases store.clear_cases folder with ⟨-, fault, same⟩ | ⟨-, ⟨fault, _, -, same⟩ | ⟨_, -, same⟩⟩
  · rw [same] at cleared
    cases cleared
  · rw [same] at cleared
    cases cleared
  · rw [same] at cleared
    cases cleared
    exact ⟨by simp [emptied], by simp [emptied, RecentPages.clear, RecentPages.ofCapacity],
      by simp [emptied]⟩

theorem Vetted.close (vetted : store.Vetted) (folder : FoundFolder) :
    (store.close folder).2.1.Vetted := by
  rcases store.close_cases folder with
    ⟨-, same⟩ | ⟨-, ⟨fault, left, -, same⟩ | ⟨answer, left, same⟩⟩
  · rw [same]
    exact vetted
  · rw [same]
    exact vetted
  · rw [same]
    exact ⟨by simp, by simp [RecentPages.clear, RecentPages.ofCapacity], vetted.overrides⟩

/-- The stores that operations lead to while the terms that are added were built and the page files
that are found hold numbers. -/
inductive Undamaged : PagedStore → Prop
  | fresh (settings : Paging) (directory : Path) (owned : Bool) :
      Undamaged (fresh settings directory owned)
  | add {store : PagedStore} (undamaged : Undamaged store) {term : Term Single}
      (built : term.IsBuilt) (atoms : AtomStore Single) (folder : FoundFolder) :
      Undamaged (store.add term atoms folder).2.1
  | finish {store after : PagedStore} {folder left : FoundFolder} (undamaged : Undamaged store)
      (finished : store.finish folder = (.ok after, left)) : Undamaged after
  | setWeight {store after : PagedStore} {rule : RuleId} {weight : Weight Single} {count : Nat}
      (undamaged : Undamaged store) (reweighed : store.setWeight rule weight = .ok (count, after)) :
      Undamaged after
  | beginSweep {store after : PagedStore} (undamaged : Undamaged store)
      (begun : store.beginSweep = .ok after) : Undamaged after
  | nextTerm {store : PagedStore} (undamaged : Undamaged store) (cancelled : Bool)
      {folder : FoundFolder} (numbers : Page.FilesHoldNumbers folder) :
      Undamaged (store.nextTerm cancelled folder).2
  | clear {store after : PagedStore} {folder left : FoundFolder} (undamaged : Undamaged store)
      (cleared : store.clear folder = (.ok after, left)) : Undamaged after
  | close {store : PagedStore} (undamaged : Undamaged store) (folder : FoundFolder) :
      Undamaged (store.close folder).2.1
  | resetTraffic {store : PagedStore} (undamaged : Undamaged store) (traffic : Traffic) :
      Undamaged { store with traffic }

/-- Every operation on such a store keeps it vetted. -/
theorem Undamaged.vetted (undamaged : store.Undamaged) : store.Vetted := by
  induction undamaged with
  | fresh settings directory owned =>
      exact ⟨by simp [PagedStore.fresh, TermPool.terms, TermPool.ofCapacity],
        by simp [PagedStore.fresh, RecentPages.ofCapacity], by simp [PagedStore.fresh]⟩
  | add _ built atoms folder vetted => exact vetted.add built atoms folder
  | finish _ finished vetted => exact vetted.finish finished
  | setWeight _ reweighed vetted => exact vetted.setWeight reweighed
  | beginSweep _ begun vetted =>
      obtain ⟨-, pages, generator, rfl, -⟩ := beginSweep_ok begun
      exact ⟨vetted.pool, vetted.recent, vetted.overrides⟩
  | nextTerm _ cancelled numbers vetted => exact (vetted.nextTerm numbers cancelled).1
  | clear _ cleared _ => exact vetted_of_clear cleared
  | close _ folder vetted => exact vetted.close folder
  | resetTraffic _ traffic vetted => exact ⟨vetted.pool, vetted.recent, vetted.overrides⟩

end PagedStore

/-- Every image that is read is one of records, whose terms could have been built exactly if their
words are finite numbers and their weights hard or not negative. -/
theorem decoded_terms_built (image : Bytes) (folder : FoundFolder) :
    (∀ (path : String) (pool filled : TermPool) (count : Nat),
      Page.decode path image pool = (.ok count, filled) →
        (∃ records, Page.IsImage image records) ∧
          ∀ records, Page.IsImage image records →
            filled.terms = records.map TermRecord.term ∧
              ∀ record ∈ records, record.term.WellFormed ∧
                (record.term.IsBuilt ↔ record.IsNumeric)) ∧
    (Page.FilesHoldNumbers folder →
      (∀ (store after : PagedStore) (cancelled : Bool) (term : Term Single), store.Undamaged →
        store.nextTerm cancelled folder = (.ok (some term), after) → term.IsBuilt) ∧
      ∀ (directory : Path) (index size : Nat) (terms : List (Term Single)) (left : FoundFolder),
        (∀ term ∈ terms, term.IsBuilt) →
          Page.save directory index terms folder = (.ok size, left) →
            Page.FilesHoldNumbers left) := by
  refine ⟨?_, fun numbers => ⟨?_, ?_⟩⟩
  · intro path pool filled count decoded
    obtain ⟨found, isImage, -, -, live⟩ := Page.isImage_of_decode decoded
    refine ⟨⟨found, isImage⟩, fun records other => ⟨?_, fun record member => ?_⟩⟩
    · rw [live, isImage.map_term_unique other]
    · have sound := other.sound record member
      exact ⟨sound.wellFormed_term, sound.isBuilt_term_iff⟩
  · intro store after cancelled term undamaged lent
    exact (undamaged.vetted.nextTerm numbers cancelled).2 term (congrArg Prod.fst lent)
  · intro directory index size terms left built saved
    exact numbers.save built saved

/-- A hard record whose weight bytes are no number, and a sweep over the page of a term that was
built. -/
theorem decoded_terms_built_sample :
    let record : TermRecord := ⟨⟨0⟩, 1, 1, ⟨0x7fc00000⟩, 0, [(⟨0⟩, 1)]⟩
    let image := [24, 0, 0, 0, 1, 0, 0, 0] ++ record.bytes
    let term : Term Single := ⟨⟨0⟩, .hinge, .soft 1, 0, [⟨0⟩], [1]⟩
    let atoms : AtomStore Single := ⟨#[⟨0, false⟩], .singletons 1, rfl⟩
    let added :=
      (PagedStore.fresh (.sequential 1) (Path.ofText "pages") true).add term atoms (.ok [])
    let saved := Page.save (Path.ofText "pages") 0 [term] (.ok [])
    ((Page.decode "page" image (.ofCapacity 1)).1 = .ok 1 ∧ record.term.IsBuilt) ∧
      ∃ sealed left begun after, added.2.1.finish added.2.2.2 = (.ok sealed, left) ∧
        sealed.beginSweep = .ok begun ∧
        begun.nextTerm false saved.2 = (.ok (some term), after) ∧ term.IsBuilt := by
  intro record image term atoms added saved
  constructor
  · have isImage : Page.IsImage image [record] :=
      ⟨by decide, 24, 1, by decide, by decide, rfl⟩
    obtain ⟨filled, decoded, -⟩ := isImage.decode "page" (.ofCapacity 1) (Nat.le_refl 1)
    have numeric : record.IsNumeric := ⟨by decide, by decide, .inl rfl⟩
    have read := (decoded_terms_built image (.ok [])).1 _ _ _ _ decoded
    have terms := (read.2 [record] isImage).2
    exact ⟨congrArg Prod.fst decoded, (terms record List.mem_cons_self).2.mpr numeric⟩
  · have built : term.IsBuilt :=
      term.isBuilt_iff.mpr ⟨by decide, ⟨by decide, by decide⟩, by decide⟩
    have noFiles : Page.FilesHoldNumbers (.ok []) := nofun
    have numbers : Page.FilesHoldNumbers saved.2 :=
      ((decoded_terms_built image (.ok [])).2 noFiles).2 (Path.ofText "pages") 0 32 [term] saved.2
        (List.forall_mem_singleton.mpr built) rfl
    have undamaged : added.2.1.Undamaged := .add (.fresh _ _ _) built atoms _
    have lent : ((added.2.1.finish added.2.2.2).1.toOption.bind fun sealed =>
        sealed.beginSweep.toOption.bind fun begun =>
          (begun.nextTerm false saved.2).1.toOption.join) = some term := by decide +kernel
    generalize finished : added.2.1.finish added.2.2.2 = outcome at lent
    obtain ⟨_ | sealed, left⟩ := outcome
    · cases lent
    · cases swept : sealed.beginSweep with
      | error fault => simp [Except.toOption, swept] at lent
      | ok begun =>
          generalize requested : begun.nextTerm false saved.2 = request
          obtain ⟨_ | _ | _, after⟩ := request <;>
            simp [Except.toOption, swept, requested] at lent
          subst lent
          have sound := (undamaged.finish finished).beginSweep swept
          have lends := ((decoded_terms_built image saved.2).2 numbers).1
          exact ⟨sealed, left, begun, after, rfl, swept, requested,
            lends begun after false term sound requested⟩

/-- Records with a coefficient that is no number, with an infinite constant and with a negative
weight. They are decoded, and a sweep lends their terms, although none of them can be built. -/
theorem unfit_terms_lent :
    let store : PagedStore :=
      { PagedStore.fresh (.sequential 1) (Path.ofText "pages") false with
        phase := .ready
        pageSizes := #[1]
        termCount := 1
        cursor := ⟨[0], []⟩ }
    let noNumber : TermRecord := ⟨⟨0⟩, 0, 0, 1, 0, [(⟨0⟩, ⟨0x7fc00000⟩)]⟩
    let infinite : TermRecord := ⟨⟨0⟩, 0, 0, 1, ⟨0x7f800000⟩, [(⟨0⟩, 1)]⟩
    let negative : TermRecord := ⟨⟨0⟩, 0, 0, ⟨0xbf800000⟩, 0, [(⟨0⟩, 1)]⟩
    ∀ record ∈ [noNumber, infinite, negative],
      let image := [24, 0, 0, 0, 1, 0, 0, 0] ++ record.bytes
      let decoded := Page.decode "page" image (.ofCapacity 1)
      let requested := store.nextTerm false (.ok [(Page.fileName 0, .file image)])
      decoded.1.toOption = some 1 ∧ decoded.2.terms = [record.term] ∧
        requested.1.toOption = some (some record.term) ∧ ¬ record.term.IsBuilt := by
  intro store noNumber infinite negative
  rw [List.forall_mem_cons, List.forall_mem_cons, List.forall_mem_singleton]
  refine ⟨⟨by decide +kernel, by decide +kernel, by decide +kernel, fun built => ?_⟩,
    ⟨by decide +kernel, by decide +kernel, by decide +kernel, fun built => ?_⟩,
    ⟨by decide +kernel, by decide +kernel, by decide +kernel, fun built => ?_⟩⟩
  · have sound : noNumber.Sound := by decide
    have finite := (sound.isBuilt_term_iff.mp built).coefficients _ (List.mem_singleton_self _)
    exact absurd finite (by decide)
  · have sound : infinite.Sound := by decide
    exact absurd (sound.isBuilt_term_iff.mp built).constant (by decide)
  · have sound : negative.Sound := by decide
    exact absurd (sound.isBuilt_term_iff.mp built).weight (by decide)

end HingeLoss
