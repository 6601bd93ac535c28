import HingeLoss.Paged.Replay
import HingeLoss.Proofs.Paged.Recent
import HingeLoss.Proofs.Paged.Shelf
import HingeLoss.Proofs.Random.Shuffle

/-! What a sweep has left is a list of terms, of which each request takes the first. -/

namespace HingeLoss

namespace PagedStore

/-- A drawn order goes through all numbers below the count. -/
theorem arrange_perm (shuffle : Shuffle) (shuffled : Bool) (count : Nat) (generator : Generator) :
    (arrange shuffle shuffled count generator).1.Perm (List.range count) := by
  unfold arrange
  cases shuffled with
  | false => exact .refl _
  | true =>
      rw [← Array.toList_range]
      exact (shuffle.run_perm generator (Array.range count)).toList

theorem ensureReady_of_ready {store : PagedStore} (ready : store.phase = .ready) :
    store.ensureReady = .ok () := by
  rw [ensureReady, ready]

theorem ensureReady_error {store : PagedStore} (other : store.phase ≠ .ready) :
    ∃ fault, store.ensureReady = .error fault := by
  unfold ensureReady
  split
  · contradiction
  · exact ⟨_, rfl⟩
  · exact ⟨_, rfl⟩

/-- A request without positions or pages left finds that the sweep is over, and so does a cancelled
one without positions. -/
theorem nextTerm_ends {store : PagedStore} (ready : store.phase = .ready) {folder : FoundFolder}
    (used : store.cursor.terms = []) {cancelled : Bool}
    (spent : cancelled = true ∨ store.cursor.pages = []) :
    store.nextTerm cancelled folder = (.ok none, store) := by
  have noneLeft : advance cancelled folder store.cursor.pages store = (.ok false, store) := by
    cases order : store.cursor.pages with
    | nil => rfl
    | cons page rest =>
        rcases spent with rfl | spent
        · rfl
        · rw [order] at spent
          cases spent
  simp only [nextTerm, ensureReady_of_ready ready, used, List.isEmpty_nil, if_true, noneLeft]

/-- A request with positions left does not ask for the token. -/
theorem nextTerm_of_terms {store : PagedStore} (some : store.cursor.terms ≠ []) (cancelled : Bool)
    (folder : FoundFolder) :
    store.nextTerm cancelled folder = store.nextTerm false folder := by
  simp only [nextTerm, List.isEmpty_iff, some, if_false]

/-- The terms of the page entered last. -/
def currentTerms (store : PagedStore) : List (Term Single) :=
  if store.lendsFromPool then store.pool.terms else store.recent.current.toList

theorem currentTerm?_eq (store : PagedStore) (position : Nat) :
    store.currentTerm? position = store.currentTerms[position]? := by
  unfold currentTerm? currentTerms
  split
  · exact store.pool.get?_eq position
  · exact Array.getElem?_toList.symm

theorem currentCount_eq (store : PagedStore) : store.currentCount = store.currentTerms.length := by
  unfold currentCount currentTerms
  split
  · exact store.pool.length_terms.symm
  · exact Array.length_toList.symm

/-- The terms of a page under their present weights. -/
def present (store : PagedStore) (pages : List (List (Term Single))) (page : Nat) :
    List (Term Single) :=
  (pages.getD page []).map store.override

/-- The terms that are still to be lent in a sweep in order. -/
def remaining (store : PagedStore) (pages : List (List (Term Single))) : List (Term Single) :=
  store.cursor.terms.filterMap (store.currentTerms[·]?) ++
    store.cursor.pages.flatMap (store.present pages)

/-- A sealed store whose pages stand in a folder and whose copies of them are up to date. -/
structure Replayable (store : PagedStore) (folder : FoundFolder)
    (pages : List (List (Term Single))) : Prop where
  phase : store.phase = .ready
  shelved : store.Shelved folder pages
  recentRoom : store.recent.pages.length ≤ store.recent.capacity
  recentTerms : ∀ held ∈ store.recent.pages, ∃ terms, pages[held.1]? = some terms ∧
    held.2.toList = terms.map store.override
  pagesInRange : ∀ page ∈ store.cursor.pages, page < pages.length
  positionsInRange : ∀ position ∈ store.cursor.terms, position < store.currentTerms.length

/-- The bytes stand for themselves here: an image spelled out would be evaluated by the kernel. -/
theorem readPage_of_load {store : PagedStore} {folder : FoundFolder} {page count : Nat}
    {bytes : Bytes} {filled : TermPool}
    (held : Page.fetch store.directory page folder = .ok bytes)
    (loaded : Page.load (Page.path store.directory page) bytes store.pool = (.ok count, filled))
    (written : store.pageSizes.getD page 0 = count) :
    store.readPage page folder = (.ok (), { store with
      pool := filled.mapLive store.override
      recent := store.recent.use page (filled.mapLive store.override).terms.toArray
      traffic := store.traffic.recordRead bytes.length }) := by
  simp only [readPage, held, loaded, written, ne_eq, not_true_eq_false, if_false]

theorem readPage_of_fetch_error {store : PagedStore} {folder : FoundFolder} {page : Nat}
    {fault : PageFault} (fetched : Page.fetch store.directory page folder = .error fault) :
    store.readPage page folder = (.error (.page fault), store) := by
  unfold readPage
  rw [fetched]

theorem readPage_of_load_error {store : PagedStore} {folder : FoundFolder} {page : Nat}
    {bytes : Bytes} {fault : PageFault} {filled : TermPool}
    (fetched : Page.fetch store.directory page folder = .ok bytes)
    (loaded : Page.load (Page.path store.directory page) bytes store.pool =
      (.error fault, filled)) :
    store.readPage page folder = (.error (.page fault), { store with pool := filled }) := by
  unfold readPage
  dsimp only
  rw [fetched]
  dsimp only
  rw [loaded]

theorem readPage_of_miscount {store : PagedStore} {folder : FoundFolder} {page count : Nat}
    {bytes : Bytes} {filled : TermPool}
    (fetched : Page.fetch store.directory page folder = .ok bytes)
    (loaded : Page.load (Page.path store.directory page) bytes store.pool = (.ok count, filled))
    (differs : count ≠ store.pageSizes.getD page 0) :
    store.readPage page folder =
      (.error (.page (.corrupt (Page.path store.directory page)
          (.count count (store.pageSizes.getD page 0)))),
        { store with
          pool := filled.clear
          traffic := store.traffic.recordRead bytes.length }) := by
  unfold readPage
  dsimp only
  rw [fetched]
  dsimp only
  rw [loaded]
  dsimp only
  rw [if_pos differs]

/-- A page that is read from its file fills the pool and becomes the page used last. -/
theorem readPage_ok {store : PagedStore} {folder : FoundFolder} {pages : List (List (Term Single))}
    (shelved : store.Shelved folder pages) {page : Nat} {terms : List (Term Single)}
    (found : pages[page]? = some terms) :
    ∃ pool traffic,
      store.readPage page folder =
          (.ok (),
            { store with pool, recent := store.recent.use page pool.terms.toArray, traffic }) ∧
        pool.capacity = store.pool.capacity ∧ pool.terms = terms.map store.override := by
  have sound := shelved.sound terms (List.mem_of_getElem? found)
  obtain ⟨filled, loaded, live, capacity⟩ := Page.load_encode (Page.path store.directory page)
    terms sound.wellFormed sound.fits store.pool sound.room
  have read := readPage_of_load (shelved.held page terms found) loaded
    (shelved.getD_pageSizes found)
  exact ⟨_, _, read, capacity, by rw [TermPool.terms_mapLive, live]⟩

/-- Entering a page changes the pool, the recent pages and the traffic alone. The page is current
then, and the recent pages are still up to date. -/
theorem enterPage_ok {store : PagedStore} {folder : FoundFolder} {pages : List (List (Term Single))}
    (shelved : store.Shelved folder pages)
    (recentRoom : store.recent.pages.length ≤ store.recent.capacity)
    (recentTerms : ∀ held ∈ store.recent.pages, ∃ terms, pages[held.1]? = some terms ∧
      held.2.toList = terms.map store.override)
    {page : Nat} {terms : List (Term Single)} (found : pages[page]? = some terms) :
    ∃ pool recent traffic,
      store.enterPage page folder = (.ok (), { store with pool, recent, traffic }) ∧
        pool.capacity = store.pool.capacity ∧ recent.pages.length ≤ recent.capacity ∧
        (∀ held ∈ recent.pages, ∃ terms, pages[held.1]? = some terms ∧
          held.2.toList = terms.map store.override) ∧
        currentTerms { store with pool, recent, traffic } = terms.map store.override := by
  unfold enterPage
  cases kept : store.recent.terms? page with
  | some copies =>
      have member := RecentPages.mem_of_terms? kept
      obtain ⟨original, sameFound, upToDate⟩ := recentTerms _ member
      obtain rfl := Option.some.inj (found.symm.trans sameFound)
      have room : store.recent.capacity ≠ 0 := by
        have := List.length_pos_of_mem member
        omega
      refine ⟨store.pool, store.recent.use page copies, store.traffic.recordHit, rfl, rfl,
        store.recent.length_use_le page copies, ?_, ?_⟩
      · intro held heldMember
        rcases RecentPages.mem_use heldMember with rfl | old
        · exact ⟨terms, found, upToDate⟩
        · exact recentTerms held old
      · simpa [currentTerms, lendsFromPool, room, RecentPages.current_use room] using upToDate
  | none =>
      obtain ⟨pool, traffic, read, capacity, live⟩ := readPage_ok shelved found
      refine ⟨pool, _, traffic, read, capacity, RecentPages.length_use_le _ _ _, ?_, ?_⟩
      · intro held heldMember
        rcases RecentPages.mem_use heldMember with rfl | old
        · exact ⟨terms, found, live⟩
        · exact recentTerms held old
      · by_cases room : store.recent.capacity = 0
        · simp [currentTerms, lendsFromPool, room, live]
        · simp [currentTerms, lendsFromPool, room, RecentPages.current_use room, live]

theorem flatMap_range_present (store : PagedStore) (pages : List (List (Term Single))) :
    (List.range pages.length).flatMap (store.present pages) =
      pages.flatten.map store.override := by
  induction pages with
  | nil => rfl
  | cons first rest inductionHypothesis =>
      rw [List.length_cons, List.range_succ_eq_map, List.flatMap_cons, List.flatMap_map,
        List.flatten_cons, List.map_append, ← inductionHypothesis]
      rfl

theorem present_of_found (store : PagedStore) {pages : List (List (Term Single))} {page : Nat}
    {terms : List (Term Single)} (found : pages[page]? = some terms) :
    store.present pages page = terms.map store.override := by
  rw [present, List.getD_eq_getElem?_getD, found, Option.getD_some]

/-- Lending takes the first of the remaining terms. -/
theorem Replayable.lend {store : PagedStore} {folder : FoundFolder}
    {pages : List (List (Term Single))} (replayable : store.Replayable folder pages)
    (some : store.cursor.terms ≠ []) :
    ∃ cursor, store.lend = (.ok (store.remaining pages).head?, { store with cursor }) ∧
      Replayable { store with cursor } folder pages ∧
      remaining { store with cursor } pages = (store.remaining pages).tail := by
  unfold PagedStore.lend
  cases positions : store.cursor.terms with
  | nil => exact absurd positions some
  | cons position rest =>
      have inRange := replayable.positionsInRange
      rw [positions, List.forall_mem_cons] at inRange
      have found := List.getElem?_eq_getElem inRange.1
      refine ⟨{ store.cursor with terms := rest }, ?_, { replayable with
        shelved := replayable.shelved.congr rfl rfl rfl
        positionsInRange := inRange.2 }, ?_⟩
      · simp [currentTerm?_eq, remaining, positions, found]
      · have sameTerms (cursor : PageCursor) :
            currentTerms { store with cursor } = store.currentTerms := rfl
        have samePresent (cursor : PageCursor) :
            present { store with cursor } pages = store.present pages := rfl
        simp [remaining, positions, found, sameTerms, samePresent]

/-- A page that is next in the order of a sweep is entered and its positions are drawn. -/
theorem Replayable.enter {store : PagedStore} {folder : FoundFolder}
    {pages : List (List (Term Single))} (replayable : store.Replayable folder pages) {page : Nat}
    {rest : List Nat} (order : store.cursor.pages = page :: rest) :
    ∃ terms pool recent traffic positions generator,
      pages[page]? = some terms ∧ positions ≠ [] ∧
        arrange store.settings.shuffle store.settings.shufflePage terms.length store.generator =
          (positions, generator) ∧
        PagedStore.advance false folder store.cursor.pages store = (.ok true,
          { store with pool, recent, traffic, generator, cursor := ⟨rest, positions⟩ }) ∧
        Replayable { store with pool, recent, traffic, generator, cursor := ⟨rest, positions⟩ }
          folder pages ∧
        currentTerms { store with pool, recent, traffic, generator, cursor := ⟨rest, positions⟩ } =
          terms.map store.override := by
  have inRange := replayable.pagesInRange
  rw [order, List.forall_mem_cons] at inRange
  have found := List.getElem?_eq_getElem inRange.1
  have sound := replayable.shelved.sound _ (List.getElem_mem inRange.1)
  have shelved : Shelved { store with cursor := ⟨rest, []⟩ } folder pages :=
    replayable.shelved.congr rfl rfl rfl
  obtain ⟨pool, recent, traffic, entered, capacity, recentRoom, recentTerms, current⟩ :=
    enterPage_ok shelved replayable.recentRoom replayable.recentTerms found
  have counted : currentCount { store with cursor := ⟨rest, []⟩, pool, recent, traffic } =
      pages[page].length := by
    rw [currentCount_eq, current, List.length_map]
  generalize drawing : arrange store.settings.shuffle store.settings.shufflePage
    pages[page].length store.generator = drawn
  obtain ⟨positions, generator⟩ := drawn
  have drawn := arrange_perm store.settings.shuffle store.settings.shufflePage pages[page].length store.generator
  rw [drawing] at drawn
  have someLeft : positions ≠ [] := by
    rintro rfl
    have empty := drawn.length_eq
    rw [List.length_range, List.length_nil] at empty
    exact sound.nonempty (List.length_eq_zero_iff.mp empty.symm)
  have ordered : orderTerms { store with cursor := ⟨rest, []⟩, pool, recent, traffic } =
      { store with pool, recent, traffic, generator, cursor := ⟨rest, positions⟩ } := by
    simp only [orderTerms, counted, drawing]
  refine ⟨_, pool, recent, traffic, positions, generator, found, someLeft, drawing, ?_,
    { replayable with
      shelved := replayable.shelved.congr rfl rfl capacity
      recentRoom := recentRoom
      recentTerms := recentTerms
      pagesInRange := inRange.2
      positionsInRange := ?_ }, current⟩
  · rw [order, PagedStore.advance, entered]
    simp only [Bool.false_eq_true, if_false, ordered, List.isEmpty_iff, someLeft]
  · intro position member
    have sameTerms : currentTerms
        { store with pool, recent, traffic, generator, cursor := ⟨rest, positions⟩ } =
          pages[page].map store.override := current
    rw [sameTerms, List.length_map]
    exact List.mem_range.mp (drawn.mem_iff.mp member)

/-- Without a shuffle the page lends its terms in order. -/
theorem Replayable.advance {store : PagedStore} {folder : FoundFolder}
    {pages : List (List (Term Single))} (replayable : store.Replayable folder pages)
    (sequential : store.settings.shufflePage = false) (used : store.cursor.terms = []) {page : Nat}
    {rest : List Nat} (order : store.cursor.pages = page :: rest) :
    ∃ pool recent traffic cursor generator,
      PagedStore.advance false folder store.cursor.pages store =
          (.ok true, { store with pool, recent, traffic, cursor, generator }) ∧
        Replayable { store with pool, recent, traffic, cursor, generator } folder pages ∧
        cursor.terms ≠ [] ∧
        remaining { store with pool, recent, traffic, cursor, generator } pages =
          store.remaining pages := by
  obtain ⟨terms, pool, recent, traffic, positions, generator, found, someLeft, drawing, advanced,
    replayable, current⟩ := replayable.enter order
  refine ⟨pool, recent, traffic, ⟨rest, positions⟩, generator, advanced, replayable, someLeft, ?_⟩
  obtain rfl : List.range terms.length = positions := by
    simpa [arrange, sequential] using congrArg Prod.fst drawing
  have samePresent : present
      { store with pool, recent, traffic, generator, cursor := ⟨rest, List.range terms.length⟩ }
      pages = store.present pages := rfl
  have firstPresent := store.present_of_found found
  rw [remaining, remaining, used, order, current, samePresent, List.filterMap_nil,
    List.nil_append, List.flatMap_cons, firstPresent]
  have counted : terms.length = (terms.map store.override).length := (List.length_map _).symm
  rw [counted, filterMap_getElem?_range]

/-- A request takes the first of the remaining terms, or finds that none remains. -/
theorem Replayable.nextTerm {store : PagedStore} {folder : FoundFolder}
    {pages : List (List (Term Single))} (replayable : store.Replayable folder pages)
    (sequential : store.settings.shufflePage = false) :
    ∃ pool recent traffic cursor generator,
      store.nextTerm false folder = (.ok (store.remaining pages).head?,
          { store with pool, recent, traffic, cursor, generator }) ∧
        Replayable { store with pool, recent, traffic, cursor, generator } folder pages ∧
        remaining { store with pool, recent, traffic, cursor, generator } pages =
          (store.remaining pages).tail := by
  have ready : store.ensureReady = .ok () := by rw [ensureReady, replayable.phase]
  unfold PagedStore.nextTerm
  rw [ready]
  dsimp only
  by_cases used : store.cursor.terms = []
  · rw [if_pos (by rw [used]; rfl)]
    cases order : store.cursor.pages with
    | nil =>
        have nothing : store.remaining pages = [] := by simp [remaining, used, order]
        refine ⟨store.pool, store.recent, store.traffic, store.cursor, store.generator, ?_,
          replayable, ?_⟩
        · rw [PagedStore.advance, nothing]
          rfl
        · change store.remaining pages = _
          rw [nothing]
          rfl
    | cons page rest =>
        obtain ⟨pool, recent, traffic, cursor, generator, advanced, replayable, some, same⟩ :=
          replayable.advance sequential used order
        obtain ⟨after, lent, replayable, left⟩ := replayable.lend some
        rw [← order, advanced]
        rw [same] at lent left
        exact ⟨pool, recent, traffic, after, generator, lent, replayable, left⟩
  · rw [if_neg (by rwa [List.isEmpty_iff])]
    obtain ⟨cursor, lent, replayable, left⟩ := replayable.lend used
    exact ⟨store.pool, store.recent, store.traffic, cursor, store.generator, lent, replayable, left⟩

/-- A beginning leaves all pages to be lent. -/
theorem Replayable.beginSweep {store : PagedStore} {folder : FoundFolder}
    {pages : List (List (Term Single))} (replayable : store.Replayable folder pages)
    (sequential : store.settings.randomizePageAccess = false) :
    ∃ cursor, store.beginSweep = .ok { store with cursor } ∧
      Replayable { store with cursor } folder pages ∧
      remaining { store with cursor } pages = pages.flatten.map store.override := by
  have ready : store.ensureReady = .ok () := by rw [ensureReady, replayable.phase]
  refine ⟨⟨List.range pages.length, []⟩, ?_, { replayable with
    shelved := replayable.shelved.congr rfl rfl rfl
    pagesInRange := fun page member => List.mem_range.mp member
    positionsInRange := by simp }, ?_⟩
  · rw [PagedStore.beginSweep, ready, sequential, replayable.shelved.size]
    rfl
  · exact store.flatMap_range_present pages

theorem override_eq (store : PagedStore) (term : Term Single) :
    store.override term =
      { term with weight := store.overrides[term.rule]?.getD term.weight } := by
  unfold override
  cases store.overrides[term.rule]? <;> rfl

/-- A weight that is set overrides those that were set for the rule before. -/
theorem override_insert (store other : PagedStore) (rule : RuleId) (weight : Weight Single)
    (inserted : other.overrides = store.overrides.insert rule weight) (term : Term Single) :
    other.override term = (store.override term).reweigh rule weight := by
  have known : other.overrides[term.rule]? =
      if rule = term.rule then some weight else store.overrides[term.rule]? := by
    simp only [inserted, Std.TreeMap.getElem?_insert, Std.LawfulEqCmp.compare_eq_iff_eq]
  rw [override_eq, override_eq, known, Term.reweigh]
  by_cases same : rule = term.rule
  · rw [if_pos same, if_pos same.symm]
    rfl
  · rw [if_neg same, if_neg (Ne.symm same)]

/-- The store after a weight has been set. -/
def reweighed (store : PagedStore) (rule : RuleId) (weight : Weight Single) : PagedStore :=
  { store with
    overrides := store.overrides.insert rule weight
    recent := store.recent.reweigh rule weight
    pool := store.pool.mapLive (Term.reweigh rule weight) }

theorem currentTerms_reweighed (store : PagedStore) (rule : RuleId) (weight : Weight Single) :
    (store.reweighed rule weight).currentTerms =
      store.currentTerms.map (Term.reweigh rule weight) := by
  simp only [currentTerms, lendsFromPool, reweighed, RecentPages.capacity_reweigh,
    TermPool.terms_mapLive, RecentPages.current_reweigh, Array.toList_map]
  exact (apply_ite (List.map (Term.reweigh rule weight)) _ _ _).symm

/-- A new weight changes the remaining terms of its rule and no other. -/
theorem Replayable.setWeight {store : PagedStore} {folder : FoundFolder}
    {pages : List (List (Term Single))} (replayable : store.Replayable folder pages)
    (rule : RuleId) {weight : Weight Single} (valid : weight.validate rule = .ok ()) :
    ∃ overrides pool recent,
      store.setWeight rule weight =
          .ok (store.counts.getD rule 0, { store with overrides, pool, recent }) ∧
        Replayable { store with overrides, pool, recent } folder pages ∧
        remaining { store with overrides, pool, recent } pages =
          (store.remaining pages).map (Term.reweigh rule weight) ∧
        ∀ term, override { store with overrides, pool, recent } term =
          (store.override term).reweigh rule weight := by
  have overridden := override_insert store { store with
    overrides := store.overrides.insert rule weight
    pool := store.pool.mapLive (Term.reweigh rule weight)
    recent := store.recent.reweigh rule weight } rule weight rfl
  have lent : currentTerms { store with
      overrides := store.overrides.insert rule weight
      pool := store.pool.mapLive (Term.reweigh rule weight)
      recent := store.recent.reweigh rule weight } =
      store.currentTerms.map (Term.reweigh rule weight) :=
    store.currentTerms_reweighed rule weight
  have shown (page : Nat) : present { store with
      overrides := store.overrides.insert rule weight
      pool := store.pool.mapLive (Term.reweigh rule weight)
      recent := store.recent.reweigh rule weight } pages page =
      (store.present pages page).map (Term.reweigh rule weight) := by
    rw [present, present, List.map_map]
    exact List.map_congr_left fun term _ => overridden term
  refine ⟨store.overrides.insert rule weight, store.pool.mapLive (Term.reweigh rule weight),
    store.recent.reweigh rule weight, ?_, { replayable with
      shelved := replayable.shelved.congr rfl rfl rfl
      recentRoom := ?_
      recentTerms := ?_
      positionsInRange := ?_ }, ?_, overridden⟩
  · rw [PagedStore.setWeight, replayable.phase, valid]
    rfl
  · dsimp only
    rw [RecentPages.length_reweigh, RecentPages.capacity_reweigh]
    exact replayable.recentRoom
  · intro held member
    obtain ⟨before, known, rfl⟩ := RecentPages.mem_reweigh member
    obtain ⟨terms, found, upToDate⟩ := replayable.recentTerms before known
    refine ⟨terms, found, ?_⟩
    rw [Array.toList_map, upToDate, List.map_map]
    exact List.map_congr_left fun term _ => (overridden term).symm
  · intro position member
    rw [lent, List.length_map]
    exact replayable.positionsInRange position member
  · rw [remaining, lent, remaining, List.map_append, List.map_filterMap, List.map_flatMap]
    congr 2
    · funext position
      exact List.getElem?_map
    · funext page
      exact shown page

end PagedStore

end HingeLoss
