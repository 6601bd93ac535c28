import HingeLoss.Proofs.Paged.Bookkeeping

/-! Sessions whose page files stay intact hold the terms of the round on pages or pending. -/

namespace HingeLoss

namespace PagedStore

/-- A beginning draws an order of the pages and leaves the positions of the last page. -/
theorem Replayable.begin {store : PagedStore} {folder : FoundFolder}
    {pages : List (List (Term Single))} (replayable : store.Replayable folder pages)
    {order : List Nat} {generator : Generator}
    (drawing : arrange store.settings.shuffle store.settings.randomizePageAccess pages.length
      store.generator = (order, generator)) :
    store.beginSweep = .ok { store with cursor := ⟨order, []⟩, generator } ∧
      Replayable { store with cursor := ⟨order, []⟩, generator } folder pages := by
  have drawn := arrange_perm store.settings.shuffle store.settings.randomizePageAccess pages.length store.generator
  rw [drawing] at drawn
  constructor
  · simp only [PagedStore.beginSweep, ensureReady_of_ready replayable.phase,
      replayable.shelved.size, drawing]
    rfl
  · exact { replayable with
      shelved := replayable.shelved.congr rfl rfl rfl
      pagesInRange := fun page member => List.mem_range.mp (drawn.mem_iff.mp member)
      positionsInRange := fun _ member => absurd member List.not_mem_nil }

/-- A request with positions left lends the next one, cancelled or not. -/
theorem Replayable.next_lends {store : PagedStore} {folder : FoundFolder}
    {pages : List (List (Term Single))} (replayable : store.Replayable folder pages)
    (cancelled : Bool) {position : Nat} {positions : List Nat}
    (left : store.cursor.terms = position :: positions) :
    ∃ term, store.currentTerms[position]? = some term ∧
      store.nextTerm cancelled folder =
        (.ok (some term), { store with cursor := ⟨store.cursor.pages, positions⟩ }) ∧
      Replayable { store with cursor := ⟨store.cursor.pages, positions⟩ } folder pages := by
  have inRange := replayable.positionsInRange
  rw [left, List.forall_mem_cons] at inRange
  have found := List.getElem?_eq_getElem inRange.1
  refine ⟨_, found, ?_, { replayable with
    shelved := replayable.shelved.congr rfl rfl rfl
    positionsInRange := inRange.2 }⟩
  simp only [PagedStore.nextTerm, ensureReady_of_ready replayable.phase, left, List.isEmpty_cons,
    Bool.false_eq_true, if_false, PagedStore.lend, currentTerm?_eq, found]

/-- A request without positions left enters the next page and goes on from there. -/
theorem Replayable.next_enters {store : PagedStore} {folder : FoundFolder}
    {pages : List (List (Term Single))} (replayable : store.Replayable folder pages)
    (used : store.cursor.terms = []) {page : Nat} {rest : List Nat}
    (order : store.cursor.pages = page :: rest) :
    ∃ terms pool recent traffic positions generator,
      pages[page]? = some terms ∧ positions ≠ [] ∧
        arrange store.settings.shuffle store.settings.shufflePage terms.length store.generator =
          (positions, generator) ∧
        store.nextTerm false folder = PagedStore.nextTerm
          { store with pool, recent, traffic, generator, cursor := ⟨rest, positions⟩ } false
          folder ∧
        Replayable { store with pool, recent, traffic, generator, cursor := ⟨rest, positions⟩ }
          folder pages ∧
        currentTerms { store with pool, recent, traffic, generator, cursor := ⟨rest, positions⟩ } =
          terms.map store.override := by
  obtain ⟨terms, pool, recent, traffic, positions, generator, found, someLeft, drawing, advanced,
    entered, current⟩ := replayable.enter order
  refine ⟨terms, pool, recent, traffic, positions, generator, found, someLeft, drawing, ?_, entered,
    current⟩
  simp only [PagedStore.nextTerm, ensureReady_of_ready replayable.phase,
    ensureReady_of_ready entered.phase, used, List.isEmpty_nil, if_true, advanced,
    List.isEmpty_iff, someLeft, if_false]

/-- A request changes nothing but where the sweep stands and what is kept in memory. -/
theorem Replayable.next {store : PagedStore} {folder : FoundFolder}
    {pages : List (List (Term Single))} (replayable : store.Replayable folder pages)
    (cancelled : Bool) :
    ∃ pool recent traffic generator cursor,
      (store.nextTerm cancelled folder).2 =
          { store with pool, recent, traffic, generator, cursor } ∧
        Replayable { store with pool, recent, traffic, generator, cursor } folder pages := by
  cases left : store.cursor.terms with
  | cons position positions =>
      obtain ⟨term, -, lent, after⟩ := replayable.next_lends cancelled left
      rw [lent]
      exact ⟨_, _, _, _, _, rfl, after⟩
  | nil =>
      by_cases spent : cancelled = true ∨ store.cursor.pages = []
      · rw [nextTerm_ends replayable.phase left spent]
        exact ⟨_, _, _, _, _, rfl, replayable⟩
      · obtain ⟨going, some⟩ := not_or.mp spent
        obtain ⟨page, rest, order⟩ := List.exists_cons_of_ne_nil some
        obtain ⟨terms, pool, recent, traffic, positions, generator, -, someLeft, -, same, entered,
          -⟩ := replayable.next_enters left order
        obtain ⟨position, later, rfl⟩ := List.exists_cons_of_ne_nil someLeft
        obtain ⟨term, -, lent, after⟩ := entered.next_lends false rfl
        rw [Bool.not_eq_true] at going
        rw [going, same, lent]
        exact ⟨_, _, _, _, _, rfl, after⟩

/-- Every term is under its present weight once a weight has been set. -/
theorem map_override_reweighed (store : PagedStore) (rule : RuleId) (weight : Weight Single)
    (terms : List (Term Single)) :
    terms.map (store.reweighed rule weight).override =
      (terms.map store.override).map (Term.reweigh rule weight) := by
  rw [List.map_map]
  exact List.map_congr_left fun term _ => override_insert store _ rule weight rfl term

/-- A term that has taken the weight is overridden like the term that has not. -/
theorem map_override_reweigh (store : PagedStore) (rule : RuleId) (weight : Weight Single)
    (terms : List (Term Single)) :
    (terms.map (Term.reweigh rule weight)).map (store.reweighed rule weight).override =
      terms.map (store.reweighed rule weight).override := by
  rw [List.map_map]
  refine List.map_congr_left fun term _ => ?_
  have known : (store.reweighed rule weight).overrides[rule]? = some weight := by
    simp [reweighed]
  simp only [Function.comp_apply, override_eq, Term.reweigh_eq]
  by_cases same : term.rule = rule
  · simp [same, known]
  · simp [same]

end PagedStore

namespace PagedSession

/-- What does not touch the page files: terms are well-formed, and whoever else changes the folder
leaves the pages as they are. -/
def Undisturbed (session : PagedSession) : PagedCall → Prop
  | .changeFolder folder => ∀ index < session.store.pageSizes.size,
      Page.fetch session.store.directory index folder =
        Page.fetch session.store.directory index session.folder
  | call => ∀ term ∈ call.terms, term.WellFormed

/-- The pages of a session, as they were written, with the terms of the present round. -/
structure Intact (settings : Paging) (directory : Path) (owned : Bool)
    (terms : List (Term Single)) (session : PagedSession) (pages : List (List (Term Single))) :
    Prop where
  kept : Kept settings directory owned terms session
  shelved : session.store.Shelved session.folder pages
  wellFormed : session.store.phase = .grounding →
    ∀ term ∈ session.store.pool.terms, term.WellFormed
  pending : session.store.phase = .grounding →
    (pages.flatten ++ session.store.pool.terms).map session.store.override =
      terms.map session.store.override
  replayable : session.store.phase = .ready → session.store.Replayable session.folder pages
  written : session.store.phase = .ready →
    pages.flatten.map session.store.override = terms.map session.store.override

variable {settings : Paging} {directory : Path} {owned : Bool}
  {terms : List (Term Single)} {session : PagedSession} {pages : List (List (Term Single))}

theorem intact_opened (settings : Paging) (directory : Path) (owned : Bool)
    (folder : FoundFolder) :
    Intact settings directory owned [] (opened settings directory owned folder) [] where
  kept := kept_opened settings directory owned folder
  shelved := ⟨rfl, by simp, by simp⟩
  wellFormed := by simp [opened, PagedStore.fresh]
  pending _ := rfl
  replayable := nofun
  written := nofun

/-- A page that is written goes to the end of the shelf. -/
theorem Intact.flush (intact : Intact settings directory owned terms session pages)
    (grounding : session.store.phase = .grounding) {base : PagedStore} {left : FoundFolder}
    (flushed : session.store.flush session.folder = (.ok base, left)) :
    ∃ all, Intact settings directory owned terms { session with store := base, folder := left }
      all ∧ base.phase = .grounding ∧ base.pool.terms = [] := by
  obtain ⟨kept, stillGrounding, -⟩ := intact.kept.flush grounding flushed
  have capacity := intact.kept.poolCapacity (by simp [grounding])
  obtain ⟨⟨pool, pageSizes, pendingBytes, traffic, rfl, empty, -⟩, all, shelved, flat⟩ :=
    PagedStore.flush_ok intact.shelved (intact.wellFormed grounding)
      (capacity ▸ intact.kept.pendingRoom grounding) flushed
  have notReady : session.store.phase ≠ .ready := by simp [grounding]
  refine ⟨all, ⟨kept, shelved, fun _ => ?_, fun _ => ?_, fun ready => absurd ready notReady,
    fun ready => absurd ready notReady⟩, grounding, empty⟩
  · simp [empty]
  · dsimp only
    rw [empty, List.append_nil, flat]
    exact intact.pending grounding

/-- A term that is appended is pending. -/
theorem Intact.append (intact : Intact settings directory owned terms session pages)
    (grounding : session.store.phase = .grounding) (room : session.store.pool.isFull = false)
    {term : Term Single} (wellFormed : term.WellFormed)
    (checked : session.atoms.checkAll term.atoms = .ok ()) :
    Intact settings directory owned
      (PagedCall.note terms (.add term) (.added (session.store.append term session.atoms).1))
      { session with
        store := (session.store.append term session.atoms).2.1
        atoms := (session.store.append term session.atoms).2.2 } pages := by
  have kept := intact.kept.append grounding room checked
  have notReady : session.store.phase ≠ .ready := by simp [grounding]
  rcases PagedStore.append_cases room term session.atoms with
    ⟨fault, -, same⟩ | ⟨key, -, same⟩
  · rw [same] at kept ⊢
    exact ⟨kept, intact.shelved.congr rfl rfl rfl, intact.wellFormed, intact.pending,
      fun ready => absurd ready notReady, fun ready => absurd ready notReady⟩
  · rw [same] at kept ⊢
    refine ⟨kept, intact.shelved.congr rfl rfl (by simp), fun _ other member => ?_, fun _ => ?_,
      fun ready => absurd ready notReady, fun ready => absurd ready notReady⟩
    · rw [TermPool.terms_take_fill, List.mem_append, List.mem_singleton] at member
      rcases member with old | rfl
      · exact intact.wellFormed grounding other old
      · exact wellFormed
    · have before := intact.pending grounding
      dsimp only [PagedCall.note]
      rw [TermPool.terms_take_fill, ← List.append_assoc]
      exact List.map_append.trans ((congrArg (· ++ _) before).trans List.map_append.symm)

theorem Intact.add (room : 0 < settings.pageTerms)
    (intact : Intact settings directory owned terms session pages) {term : Term Single}
    (wellFormed : term.WellFormed) :
    ∃ all, Intact settings directory owned
      (PagedCall.note terms (.add term) (session.respond (.add term)).1)
      (session.respond (.add term)).2 all := by
  have kept := intact.kept.add room term
  simp only [respond] at kept ⊢
  rcases session.store.add_cases term session.atoms session.folder with
    ⟨fault, left, same, failed⟩ | ⟨grounding, checked, base, left, made, same⟩
  · rw [same] at kept ⊢
    have shelved : session.store.Shelved left pages := by
      rcases failed with rfl | ⟨-, flushed⟩
      · exact intact.shelved
      · exact intact.shelved.flush_error flushed
    exact ⟨pages, { intact with
      kept := kept
      shelved := shelved
      replayable := fun ready => { intact.replayable ready with shelved := shelved } }⟩
  · rw [same]
    rcases made with ⟨needless, rfl, rfl⟩ | flushed
    · exact ⟨pages, intact.append grounding (PagedStore.isFull_of_not_needsFlush needless)
        wellFormed checked⟩
    · obtain ⟨all, base, stillGrounding, empty⟩ := intact.flush grounding flushed
      have capacity := base.kept.poolCapacity (by simp [stillGrounding])
      refine ⟨all, base.append stillGrounding (PagedStore.isFull_of_count_zero ?_ ?_) wellFormed
        checked⟩
      · rw [← TermPool.length_terms, empty, List.length_nil]
      · rw [capacity]
        exact room

theorem Intact.finish (intact : Intact settings directory owned terms session pages) :
    ∃ all, Intact settings directory owned terms (session.respond .finish).2 all := by
  have kept := intact.kept.finish
  simp only [respond] at kept ⊢
  rcases session.store.finish_cases session.folder with
    ⟨fault, left, same, failed⟩ | ⟨ready, same⟩ | ⟨grounding, base, left, flushed, same⟩
  · rw [same] at kept ⊢
    have shelved : session.store.Shelved left pages := by
      rcases failed with rfl | ⟨-, flushed⟩
      · exact intact.shelved
      · exact intact.shelved.flush_error flushed
    exact ⟨pages, { intact with
      kept := kept
      shelved := shelved
      replayable := fun ready => { intact.replayable ready with shelved := shelved } }⟩
  · rw [same]
    exact ⟨pages, { intact with }⟩
  · obtain ⟨all, keptBase, stillGrounding, empty⟩ := intact.flush grounding flushed
    have unread : base.recent.pages = [] := keptBase.kept.consistent.unread stillGrounding
    have flat := keptBase.pending stillGrounding
    rw [same] at kept ⊢
    dsimp only at flat
    rw [empty, List.append_nil] at flat
    exact ⟨all, {
      kept := kept
      shelved := keptBase.shelved.congr rfl rfl rfl
      wellFormed := fun grounding => by cases grounding
      pending := fun grounding => by cases grounding
      replayable := fun _ => {
        phase := rfl
        shelved := keptBase.shelved.congr rfl rfl rfl
        recentRoom := by simp [unread]
        recentTerms := by simp [unread]
        pagesInRange := by simp [PageCursor.finished]
        positionsInRange := by simp [PageCursor.finished] }
      written := fun _ => flat }⟩

theorem Intact.setWeight (intact : Intact settings directory owned terms session pages)
    (rule : RuleId) (weight : Weight Single) :
    Intact settings directory owned terms (session.respond (.setWeight rule weight)).2 pages := by
  have kept := intact.kept.setWeight rule weight
  simp only [respond] at kept ⊢
  rcases session.store.setWeight_cases rule weight with ⟨fault, same⟩ | ⟨-, valid, same⟩
  · rw [same]
    exact intact
  · rw [same] at kept ⊢
    refine ⟨kept, intact.shelved.congr rfl rfl rfl, fun grounding term member => ?_,
      fun grounding => ?_, fun ready => ?_, fun ready => ?_⟩
    · dsimp only [PagedStore.reweighed] at member
      rw [TermPool.terms_mapLive] at member
      obtain ⟨before, old, rfl⟩ := List.mem_map.mp member
      exact (intact.wellFormed grounding before old).reweigh rule weight
    · have pool : (session.store.reweighed rule weight).pool.terms =
          session.store.pool.terms.map (Term.reweigh rule weight) := TermPool.terms_mapLive _ _
      dsimp only
      rw [pool, List.map_append, PagedStore.map_override_reweigh, ← List.map_append,
        PagedStore.map_override_reweighed, PagedStore.map_override_reweighed,
        intact.pending grounding]
    · obtain ⟨overrides, pool, recent, reweighed, replayable, -⟩ :=
        (intact.replayable ready).setWeight rule valid
      rw [same] at reweighed
      cases reweighed
      exact replayable
    · dsimp only
      rw [PagedStore.map_override_reweighed, PagedStore.map_override_reweighed,
        intact.written ready]

theorem Intact.clear (intact : Intact settings directory owned terms session pages) :
    ∃ all, Intact settings directory owned
      (PagedCall.note terms .clear (session.respond .clear).1) (session.respond .clear).2 all := by
  have kept := intact.kept.clear
  simp only [respond] at kept ⊢
  rcases session.store.clear_cases session.folder with
    ⟨-, fault, same⟩ | ⟨-, ⟨fault, left, failed, -⟩ | ⟨left, -, same⟩⟩
  · rw [same]
    exact ⟨pages, { intact with }⟩
  · obtain ⟨_, removed⟩ := intact.shelved.removeAll
    rw [removed] at failed
    cases failed
  · rw [same] at kept ⊢
    exact ⟨[], {
      kept := kept
      shelved := ⟨rfl, by simp, by simp⟩
      wellFormed := fun _ => by simp [PagedStore.emptied]
      pending := fun _ => by simp [PagedStore.emptied, PagedCall.note]
      replayable := fun ready => by cases ready
      written := fun ready => by cases ready }⟩

theorem Intact.close (intact : Intact settings directory owned terms session pages) :
    ∃ all, Intact settings directory owned terms (session.respond .close).2 all := by
  have kept := intact.kept.close
  simp only [respond] at kept ⊢
  rcases session.store.close_cases session.folder with
    ⟨-, same⟩ | ⟨-, ⟨fault, left, failed, -⟩ | ⟨answer, left, same⟩⟩
  · rw [same]
    exact ⟨pages, { intact with }⟩
  · obtain ⟨_, removed⟩ := intact.shelved.removeAll
    rw [removed] at failed
    cases failed
  · rw [same] at kept ⊢
    exact ⟨[], {
      kept := kept
      shelved := ⟨rfl, by simp, by simp⟩
      wellFormed := fun grounding => by cases grounding
      pending := fun grounding => by cases grounding
      replayable := fun ready => by cases ready
      written := fun ready => by cases ready }⟩

theorem Intact.beginSweep (intact : Intact settings directory owned terms session pages) :
    Intact settings directory owned terms (session.respond .beginSweep).2 pages := by
  have kept := intact.kept.beginSweep
  simp only [respond] at kept ⊢
  by_cases ready : session.store.phase = .ready
  · obtain ⟨begun, replayable⟩ := (intact.replayable ready).begin rfl
    rw [begun] at kept ⊢
    have notGrounding : session.store.phase ≠ .grounding := by simp [ready]
    exact ⟨kept, replayable.shelved, fun grounding => absurd grounding notGrounding,
      fun grounding => absurd grounding notGrounding, fun _ => replayable, intact.written⟩
  · obtain ⟨fault, refused⟩ := PagedStore.ensureReady_error ready
    have same : session.store.beginSweep = .error fault := by
      rw [PagedStore.beginSweep, refused]
      rfl
    rw [same]
    exact intact

theorem Intact.nextTerm (intact : Intact settings directory owned terms session pages) :
    Intact settings directory owned terms (session.respond .nextTerm).2 pages := by
  have kept := intact.kept.nextTerm
  simp only [respond] at kept ⊢
  by_cases ready : session.store.phase = .ready
  · obtain ⟨pool, recent, traffic, generator, cursor, same, replayable⟩ :=
      (intact.replayable ready).next session.cancelled
    rw [same] at kept ⊢
    have notGrounding : session.store.phase ≠ .grounding := by simp [ready]
    exact ⟨kept, replayable.shelved, fun grounding => absurd grounding notGrounding,
      fun grounding => absurd grounding notGrounding, fun _ => replayable, intact.written⟩
  · obtain ⟨fault, refused⟩ := PagedStore.ensureReady_error ready
    have same : session.store.nextTerm session.cancelled session.folder =
        (.error fault, session.store) := by
      rw [PagedStore.nextTerm, refused]
    rw [same]
    exact intact

/-- Some pages are those of the session. -/
def Stands (settings : Paging) (directory : Path) (owned : Bool)
    (terms : List (Term Single)) (session : PagedSession) : Prop :=
  ∃ pages, Intact settings directory owned terms session pages

theorem Stands.setToken (stands : Stands settings directory owned terms session)
    (cancelled : Bool) : Stands settings directory owned terms { session with cancelled } := by
  obtain ⟨pages, intact⟩ := stands
  exact ⟨pages, { intact with kept := { intact.kept with } }⟩

/-- Every call that does not touch the page files leaves them intact. -/
theorem Stands.respond (room : 0 < settings.pageTerms)
    (stands : Stands settings directory owned terms session) {call : PagedCall}
    (undisturbed : session.Undisturbed call) :
    Stands settings directory owned (PagedCall.note terms call (session.respond call).1)
      (session.respond call).2 := by
  have whole := stands
  obtain ⟨pages, intact⟩ := stands
  cases call with
  | add term => exact intact.add room (undisturbed term List.mem_cons_self)
  | finish => exact intact.finish
  | setWeight rule weight => exact ⟨pages, intact.setWeight rule weight⟩
  | clear => exact intact.clear
  | close => exact intact.close
  | beginSweep => exact ⟨pages, intact.beginSweep⟩
  | nextTerm => exact ⟨pages, intact.nextTerm⟩
  | ground source steps =>
      let pass := Grounding.start session.store session.atoms session.folder source
        session.cancelled
      have start : Stands settings directory owned terms pass.session := whole
      refine Grounding.trace_keeps (fun _ _ cancelled stands => stands.setToken cancelled)
        (fun _ _ ⟨_, kept⟩ => kept.finish)
        (fun _ _ term ⟨_, kept⟩ wellFormed => kept.add room wellFormed) steps start
        fun item member term made => undisturbed term ?_
      exact List.mem_filterMap.mpr ⟨item, member, by rw [made]; rfl⟩
  | setToken cancelled => exact whole.setToken cancelled
  | changeAtoms change =>
      exact ⟨pages, { intact with kept := { intact.kept with } }⟩
  | changeFolder folder =>
      have shelved := intact.shelved.withFolder undisturbed
      exact ⟨pages, { intact with
        kept := { intact.kept with }
        shelved := shelved
        replayable := fun ready => { intact.replayable ready with shelved := shelved } }⟩

theorem stands_opened (settings : Paging) (directory : Path) (owned : Bool)
    (folder : FoundFolder) :
    Stands settings directory owned [] (opened settings directory owned folder) :=
  ⟨[], intact_opened settings directory owned folder⟩

theorem stands_performAll (room : 0 < settings.pageTerms) {folder : FoundFolder}
    {calls : List PagedCall}
    (undisturbed : Throughout PagedSession.respond Undisturbed
      (opened settings directory owned folder) calls) :
    Stands settings directory owned
      (notes PagedCall.note [] calls
        (performAll PagedSession.respond (opened settings directory owned folder) calls).1)
      (performAll PagedSession.respond (opened settings directory owned folder) calls).2 := by
  have step (terms : List (Term Single)) (session : PagedSession) (call : PagedCall)
      (stands : Stands settings directory owned terms session)
      (admitted : session.Undisturbed call) := stands.respond room admitted
  exact performAll_keeps step (stands_opened settings directory owned folder) undisturbed

end PagedSession

end HingeLoss
