import HingeLoss.Proofs.Paged.Intact
import HingeLoss.Proofs.Paged.Vary

/-! The pages kept in memory do not show in any answer. -/

namespace HingeLoss

namespace PagedStore

/-- Stores that only differ in the pages that they keep in memory. The pending terms of one are
those of the other, and so are the terms of the page entered last while some are to be lent. -/
structure Twins (cachePages : Nat) (first second : PagedStore) : Prop where
  rest : ∃ recent pool traffic, second = first.vary cachePages recent pool traffic
  pending : first.phase = .grounding → first.pool.Alike second.pool
  current : first.phase = .ready → first.cursor.terms ≠ [] →
    second.currentTerms = first.currentTerms

variable {cachePages : Nat} {first second : PagedStore} {folder : FoundFolder}
  {pages : List (List (Term Single))}

theorem Twins.phase (twins : Twins cachePages first second) : second.phase = first.phase := by
  obtain ⟨recent, pool, traffic, rfl⟩ := twins.rest
  rfl

theorem Twins.cursor (twins : Twins cachePages first second) : second.cursor = first.cursor := by
  obtain ⟨recent, pool, traffic, rfl⟩ := twins.rest
  rfl

/-- While both are grounding, the stores vary in what does not show. -/
theorem Twins.varies (twins : Twins cachePages first second)
    (grounding : first.phase = .grounding) : Varies cachePages second.recent first second := by
  obtain ⟨⟨recent, pool, traffic, rfl⟩, pending, -⟩ := twins
  exact ⟨pool, traffic, rfl, pending grounding⟩

theorem Varies.twins {recent : RecentPages} (varies : Varies cachePages recent first second)
    (idle : first.phase = .ready → first.cursor.terms = []) : Twins cachePages first second := by
  obtain ⟨pool, traffic, rfl, alike⟩ := varies
  exact ⟨⟨recent, pool, traffic, rfl⟩, fun _ => alike,
    fun ready some => absurd (idle ready) some⟩

/-- While terms of a page are left, both lend the same one. -/
theorem Twins.next_lends (twins : Twins cachePages first second)
    (replayable : first.Replayable folder pages) (otherReplayable : second.Replayable folder pages)
    (someLeft : first.cursor.terms ≠ []) (cancelled : Bool) :
    (first.nextTerm cancelled folder).1 = (second.nextTerm cancelled folder).1 ∧
      Twins cachePages (first.nextTerm cancelled folder).2
        (second.nextTerm cancelled folder).2 := by
  obtain ⟨position, positions, left⟩ := List.exists_cons_of_ne_nil someLeft
  have current := twins.current replayable.phase someLeft
  obtain ⟨term, found, lent, -⟩ := replayable.next_lends cancelled left
  obtain ⟨otherTerm, otherFound, otherLent, -⟩ :=
    otherReplayable.next_lends cancelled (twins.cursor ▸ left)
  rw [current, found] at otherFound
  cases otherFound
  rw [lent, otherLent]
  refine ⟨rfl, ?_, fun grounding => ?_, fun _ _ => current⟩
  · obtain ⟨recent, pool, traffic, rfl⟩ := twins.rest
    exact ⟨recent, pool, traffic, rfl⟩
  · exact twins.pending grounding

/-- Both lend the same term, from whichever page. -/
theorem Twins.next (twins : Twins cachePages first second)
    (replayable : first.Replayable folder pages) (otherReplayable : second.Replayable folder pages)
    (cancelled : Bool) :
    (first.nextTerm cancelled folder).1 = (second.nextTerm cancelled folder).1 ∧
      Twins cachePages (first.nextTerm cancelled folder).2
        (second.nextTerm cancelled folder).2 := by
  by_cases used : first.cursor.terms = []
  · have otherUsed : second.cursor.terms = [] := twins.cursor ▸ used
    by_cases spent : cancelled = true ∨ first.cursor.pages = []
    · rw [PagedStore.nextTerm_ends replayable.phase used spent,
        PagedStore.nextTerm_ends otherReplayable.phase otherUsed (twins.cursor ▸ spent)]
      exact ⟨rfl, twins⟩
    · obtain ⟨going, some⟩ := not_or.mp spent
      rw [Bool.not_eq_true] at going
      subst going
      obtain ⟨page, rest, order⟩ := List.exists_cons_of_ne_nil some
      obtain ⟨terms, pool, recent, traffic, positions, generator, found, someLeft, drawing, same,
        entered, current⟩ := replayable.next_enters used order
      obtain ⟨otherTerms, otherPool, otherRecent, otherTraffic, otherPositions, otherGenerator,
        otherFound, -, otherDrawing, otherSame, otherEntered, otherCurrent⟩ :=
        otherReplayable.next_enters otherUsed (twins.cursor ▸ order)
      rw [found] at otherFound
      cases otherFound
      rw [same, otherSame]
      obtain ⟨before, poolBefore, trafficBefore, rfl⟩ := twins.rest
      -- Both draw from the same state of the generator.
      have drawn := drawing.symm.trans otherDrawing
      obtain ⟨rfl, rfl⟩ := Prod.mk.inj drawn
      have notGrounding : first.phase ≠ .grounding := by simp [replayable.phase]
      let after : PagedStore := { first with
        pool, recent, traffic, generator, cursor := ⟨rest, positions⟩ }
      have afterTwins : Twins cachePages after
          (after.vary cachePages otherRecent otherPool otherTraffic) :=
        ⟨⟨otherRecent, otherPool, otherTraffic, rfl⟩,
          fun grounding => absurd grounding notGrounding,
          fun _ _ => otherCurrent.trans current.symm⟩
      exact afterTwins.next_lends entered otherEntered someLeft false
  · exact twins.next_lends replayable otherReplayable used cancelled

end PagedStore

namespace PagedSession

/-- Sessions with the same surroundings whose stores are twins. -/
structure Twins (cachePages : Nat) (first second : PagedSession) : Prop where
  store : first.store.Twins cachePages second.store
  atoms : second.atoms = first.atoms
  folder : second.folder = first.folder
  cancelled : second.cancelled = first.cancelled

variable {cachePages : Nat} {first second : PagedSession}

theorem Twins.add (twins : Twins cachePages first second) (term : Term Single) :
    (first.respond (.add term)).1 = (second.respond (.add term)).1 ∧
      Twins cachePages (first.respond (.add term)).2 (second.respond (.add term)).2 := by
  obtain ⟨store, atoms, folder, cancelled⟩ := twins
  simp only [respond, atoms, folder]
  by_cases grounding : first.store.phase = .grounding
  · obtain ⟨answer, after, other, joined, left, same, otherSame, varies, steady⟩ :=
      (store.varies grounding).add term first.atoms first.folder
    rw [same, otherSame]
    have notReady : after.phase ≠ .ready := by simp [steady.phase, grounding]
    exact ⟨rfl, varies.twins fun ready => absurd ready notReady, rfl, rfl, cancelled⟩
  · obtain ⟨recent, pool, traffic, rest⟩ := store.rest
    obtain ⟨fault, same, otherSame⟩ := PagedStore.add_vary first.store cachePages recent pool
      traffic grounding term first.atoms first.folder
    rw [← rest] at otherSame
    rw [same, otherSame]
    exact ⟨rfl, store, rfl, rfl, cancelled⟩

theorem Twins.finish (twins : Twins cachePages first second) :
    (first.respond .finish).1 = (second.respond .finish).1 ∧
      Twins cachePages (first.respond .finish).2 (second.respond .finish).2 := by
  obtain ⟨store, atoms, folder, cancelled⟩ := twins
  simp only [respond, folder]
  by_cases grounding : first.store.phase = .grounding
  · rcases (store.varies grounding).finish grounding first.folder with
      ⟨fault, left, same, otherSame⟩ |
      ⟨after, other, left, same, otherSame, varies, -, -, cursor, -⟩
    · rw [same, otherSame]
      exact ⟨rfl, store, atoms, rfl, cancelled⟩
    · rw [same, otherSame]
      have idle : after.cursor.terms = [] := by rw [cursor]; rfl
      exact ⟨rfl, varies.twins fun _ => idle, atoms, rfl, cancelled⟩
  · obtain ⟨recent, pool, traffic, rest⟩ := store.rest
    have otherSame := PagedStore.finish_vary first.store cachePages recent pool traffic grounding
      first.folder
    rw [← rest] at otherSame
    rw [otherSame]
    rcases first.store.finish_cases first.folder with
      ⟨fault, left, same, -⟩ | ⟨ready, same⟩ | ⟨isGrounding, -⟩
    · rw [same]
      exact ⟨rfl, store, atoms, rfl, cancelled⟩
    · rw [same]
      exact ⟨rfl, rest ▸ store, atoms, rfl, cancelled⟩
    · exact absurd isGrounding grounding

theorem Twins.setWeight (twins : Twins cachePages first second) (rule : RuleId)
    (weight : Weight Single) :
    (first.respond (.setWeight rule weight)).1 = (second.respond (.setWeight rule weight)).1 ∧
      Twins cachePages (first.respond (.setWeight rule weight)).2
        (second.respond (.setWeight rule weight)).2 := by
  obtain ⟨store, atoms, folder, cancelled⟩ := twins
  obtain ⟨recent, pool, traffic, rest⟩ := store.rest
  have otherSame :=
    PagedStore.setWeight_vary first.store cachePages recent pool traffic rule weight
  rw [← rest] at otherSame
  simp only [respond, otherSame]
  rcases first.store.setWeight_cases rule weight with ⟨fault, same⟩ | ⟨-, -, same⟩
  · rw [same]
    exact ⟨rfl, store, atoms, folder, cancelled⟩
  · rw [same]
    have current := store.current
    have pending := store.pending
    rw [rest] at current pending
    refine ⟨rfl, ⟨⟨_, _, _, rfl⟩, fun grounding => ?_, fun ready someLeft => ?_⟩, atoms, folder,
      cancelled⟩
    · exact (pending grounding).mapLive _
    · have otherTerms := PagedStore.currentTerms_reweighed
        (first.store.vary cachePages recent pool traffic) rule weight
      rw [current ready someLeft, ← PagedStore.currentTerms_reweighed] at otherTerms
      exact otherTerms

theorem Twins.clear (twins : Twins cachePages first second)
    (capacity : first.store.phase ≠ .closed →
      second.store.pool.capacity = first.store.pool.capacity) :
    (first.respond .clear).1 = (second.respond .clear).1 ∧
      Twins cachePages (first.respond .clear).2 (second.respond .clear).2 := by
  obtain ⟨store, atoms, folder, cancelled⟩ := twins
  obtain ⟨recent, pool, traffic, rest⟩ := store.rest
  have otherSame := PagedStore.clear_vary first.store cachePages recent pool traffic first.folder
  rw [← rest] at otherSame
  simp only [respond, folder, otherSame]
  rcases first.store.clear_cases first.folder with
    ⟨-, fault, same⟩ | ⟨notClosed, ⟨fault, left, -, same⟩ | ⟨left, -, same⟩⟩
  · rw [same]
    exact ⟨rfl, store, atoms, rfl, cancelled⟩
  · rw [same]
    exact ⟨rfl, store, atoms, rfl, cancelled⟩
  · rw [same]
    have sameCapacity := capacity notClosed
    rw [rest] at sameCapacity
    exact ⟨rfl, ⟨⟨_, _, _, rfl⟩, fun _ => TermPool.alike_clear sameCapacity,
      (fun ready => by cases ready)⟩, atoms, rfl, cancelled⟩

theorem Twins.close (twins : Twins cachePages first second) :
    (first.respond .close).1 = (second.respond .close).1 ∧
      Twins cachePages (first.respond .close).2 (second.respond .close).2 := by
  obtain ⟨store, atoms, folder, cancelled⟩ := twins
  obtain ⟨recent, pool, traffic, rest⟩ := store.rest
  have outcome := PagedStore.close_vary first.store cachePages recent pool traffic first.folder
  rw [← rest] at outcome
  simp only [respond, folder]
  rcases outcome with ⟨same, otherSame⟩ | ⟨closed, -, -, -, otherSame⟩
  · rw [same, otherSame]
    exact ⟨rfl, store, atoms, rfl, cancelled⟩
  · rw [otherSame]
    refine ⟨rfl, ⟨⟨_, _, _, rfl⟩, fun grounding => ?_, fun ready => ?_⟩, atoms, rfl, cancelled⟩
    · cases closed.symm.trans grounding
    · cases closed.symm.trans ready

theorem Twins.beginSweep (twins : Twins cachePages first second) :
    (first.respond .beginSweep).1 = (second.respond .beginSweep).1 ∧
      Twins cachePages (first.respond .beginSweep).2 (second.respond .beginSweep).2 := by
  obtain ⟨store, atoms, folder, cancelled⟩ := twins
  obtain ⟨recent, pool, traffic, rest⟩ := store.rest
  have otherSame := PagedStore.beginSweep_vary first.store cachePages recent pool traffic
  rw [← rest] at otherSame
  simp only [respond, otherSame]
  cases begun : first.store.beginSweep with
  | error fault => exact ⟨rfl, store, atoms, folder, cancelled⟩
  | ok after =>
      obtain ⟨ready, pages, generator, rfl, -⟩ := PagedStore.beginSweep_ok begun
      have notGrounding : first.store.phase ≠ .grounding := by simp [ready]
      exact ⟨rfl, ⟨⟨_, _, _, rfl⟩, fun grounding => absurd grounding notGrounding,
        fun _ someLeft => absurd rfl someLeft⟩, atoms, folder, cancelled⟩

/-- A request finds the same page in the folder that another store may have kept in memory. -/
theorem Twins.nextTerm (twins : Twins cachePages first second)
    {settings otherSettings : Paging} {directory : Path} {owned : Bool}
    {terms : List (Term Single)} {pages otherPages : List (List (Term Single))}
    (intact : Intact settings directory owned terms first pages)
    (otherIntact : Intact otherSettings directory owned terms second otherPages) :
    (first.respond .nextTerm).1 = (second.respond .nextTerm).1 ∧
      Twins cachePages (first.respond .nextTerm).2 (second.respond .nextTerm).2 := by
  obtain ⟨store, atoms, folder, cancelled⟩ := twins
  simp only [respond, cancelled, folder]
  by_cases ready : first.store.phase = .ready
  · have otherReplayable := otherIntact.replayable (store.phase.trans ready)
    have samePages : otherPages = pages := by
      obtain ⟨recent, pool, traffic, rest⟩ := store.rest
      have otherShelved := otherIntact.shelved
      rw [rest, folder] at otherShelved
      exact intact.shelved.unique otherShelved rfl rfl
    rw [samePages, folder] at otherReplayable
    obtain ⟨answers, after⟩ :=
      store.next (intact.replayable ready) otherReplayable first.cancelled
    rw [answers]
    exact ⟨rfl, after, atoms, rfl, rfl⟩
  · have unready : second.store.ensureReady = first.store.ensureReady := by
      rw [PagedStore.ensureReady, store.phase, PagedStore.ensureReady]
    obtain ⟨fault, refused⟩ := PagedStore.ensureReady_error ready
    rw [PagedStore.nextTerm, PagedStore.nextTerm, unready, refused]
    exact ⟨rfl, store, atoms, rfl, rfl⟩

/-- Twins whose page files are intact, with the terms of the present round. -/
structure Transparent (settings : Paging) (cachePages : Nat) (directory : Path)
    (owned : Bool) (terms : List (Term Single)) (first second : PagedSession) : Prop where
  twins : Twins cachePages first second
  stands : Stands settings directory owned terms first
  otherStands : Stands { settings with cachePages } directory owned terms second

variable {settings : Paging} {directory : Path} {owned : Bool}
  {terms : List (Term Single)}

theorem Twins.undisturbed (twins : Twins cachePages first second) {call : PagedCall}
    (undisturbed : first.Undisturbed call) : second.Undisturbed call := by
  obtain ⟨⟨⟨recent, pool, traffic, rest⟩, -, -⟩, -, folder, -⟩ := twins
  cases call with
  | changeFolder changed =>
      simp only [Undisturbed, rest, folder]
      exact undisturbed
  | _ => exact undisturbed

/-- What both answer alike and what leaves them twins leaves them transparent. -/
theorem Transparent.after (room : 0 < settings.pageTerms)
    (transparent : Transparent settings cachePages directory owned terms first second)
    {call : PagedCall} (undisturbed : first.Undisturbed call)
    (answered : (first.respond call).1 = (second.respond call).1 ∧
      Twins cachePages (first.respond call).2 (second.respond call).2) :
    (first.respond call).1 = (second.respond call).1 ∧
      Transparent settings cachePages directory owned
        (PagedCall.note terms call (first.respond call).1) (first.respond call).2
        (second.respond call).2 := by
  have otherRoom : 0 < { settings with cachePages }.pageTerms := room
  have otherStands := transparent.otherStands.respond otherRoom
    (transparent.twins.undisturbed undisturbed)
  rw [← answered.1] at otherStands
  exact ⟨answered.1, answered.2, transparent.stands.respond room undisturbed, otherStands⟩

theorem Transparent.add (room : 0 < settings.pageTerms)
    (transparent : Transparent settings cachePages directory owned terms first second)
    {term : Term Single} (wellFormed : term.WellFormed) :
    (first.respond (.add term)).1 = (second.respond (.add term)).1 ∧
      Transparent settings cachePages directory owned
        (PagedCall.note terms (.add term) (first.respond (.add term)).1)
        (first.respond (.add term)).2 (second.respond (.add term)).2 :=
  transparent.after room (by simpa [Undisturbed, PagedCall.terms] using wellFormed)
    (transparent.twins.add term)

theorem Transparent.setToken
    (transparent : Transparent settings cachePages directory owned terms first second)
    (cancelled : Bool) :
    Transparent settings cachePages directory owned terms { first with cancelled }
      { second with cancelled } :=
  ⟨{ transparent.twins with cancelled := rfl }, transparent.stands.setToken cancelled,
    transparent.otherStands.setToken cancelled⟩

/-- A grounding pass only adds terms and seals the store. -/
theorem transparent_bisimulation (room : 0 < settings.pageTerms) :
    Grounding.Bisimulation (Transparent settings cachePages directory owned)
      Term.WellFormed where
  cancelled _ _ _ transparent := transparent.twins.cancelled.symm
  pageSizes _ _ _ transparent := by
    obtain ⟨recent, pool, traffic, rest⟩ := transparent.twins.store.rest
    rw [rest]
    rfl
  setToken _ _ _ cancelled transparent := transparent.setToken cancelled
  finish _ first second transparent :=
    transparent.after room (by simp [Undisturbed, PagedCall.terms]) transparent.twins.finish
  add _ _ _ term transparent wellFormed := transparent.add room wellFormed

/-- Every call that does not touch the page files is answered alike. -/
theorem Transparent.respond (room : 0 < settings.pageTerms)
    (transparent : Transparent settings cachePages directory owned terms first second)
    {call : PagedCall} (undisturbed : first.Undisturbed call) :
    (first.respond call).1 = (second.respond call).1 ∧
      Transparent settings cachePages directory owned
        (PagedCall.note terms call (first.respond call).1) (first.respond call).2
        (second.respond call).2 := by
  have twins := transparent.twins
  obtain ⟨pages, intact⟩ := transparent.stands
  obtain ⟨otherPages, otherIntact⟩ := transparent.otherStands
  cases call with
  | add term => exact transparent.after room undisturbed (twins.add term)
  | finish => exact transparent.after room undisturbed twins.finish
  | setWeight rule weight => exact transparent.after room undisturbed (twins.setWeight rule weight)
  | clear =>
      refine transparent.after room undisturbed (twins.clear fun notClosed => ?_)
      rw [intact.kept.poolCapacity notClosed,
        otherIntact.kept.poolCapacity (twins.store.phase ▸ notClosed)]
  | close => exact transparent.after room undisturbed twins.close
  | beginSweep => exact transparent.after room undisturbed twins.beginSweep
  | nextTerm => exact transparent.after room undisturbed (twins.nextTerm intact otherIntact)
  | ground source steps =>
      let pass := Grounding.start first.store first.atoms first.folder source first.cancelled
      let otherPass :=
        Grounding.start second.store second.atoms second.folder source second.cancelled
      have start : Transparent settings cachePages directory owned terms pass.session
        otherPass.session := transparent
      obtain ⟨answers, after⟩ := (transparent_bisimulation room).trace steps start rfl rfl
        fun item member term made => undisturbed term
          (List.mem_filterMap.mpr ⟨item, member, by rw [made]; rfl⟩)
      exact ⟨congrArg PagedAnswer.grounded answers, after⟩
  | setToken cancelled =>
      exact transparent.after room undisturbed ⟨rfl, { twins with cancelled := rfl }⟩
  | changeAtoms change =>
      exact transparent.after room undisturbed
        ⟨rfl, { twins with atoms := congrArg (·.change change) twins.atoms }⟩
  | changeFolder folder =>
      exact transparent.after room undisturbed ⟨rfl, { twins with folder := rfl }⟩

end PagedSession

/-- The number of pages that are kept in memory does not show in any answer, as long as the page
files stay intact. -/
theorem cache_transparent (settings : Paging) (cachePages : Nat) (directory : Path)
    (owned : Bool) (folder : FoundFolder) (room : 0 < settings.pageTerms) (calls : List PagedCall)
    (undisturbed : Throughout PagedSession.respond PagedSession.Undisturbed
      (.opened settings directory owned folder) calls) :
    let first := performAll PagedSession.respond (.opened settings directory owned folder) calls
    let second := performAll PagedSession.respond
      (.opened { settings with cachePages } directory owned folder) calls
    first.1 = second.1 ∧ ∃ recent pool traffic,
      second.2 = { first.2 with store := { first.2.store with
        settings := { first.2.store.settings with cachePages }, recent, pool, traffic } } := by
  intro first second
  have opened : PagedSession.Transparent settings cachePages directory owned []
      (.opened settings directory owned folder)
      (.opened { settings with cachePages } directory owned folder) :=
    { twins := ⟨⟨⟨_, _, _, rfl⟩, fun _ => .refl _, nofun⟩, rfl, rfl, rfl⟩
      stands := PagedSession.stands_opened settings directory owned folder
      otherStands :=
        PagedSession.stands_opened { settings with cachePages } directory owned folder }
  have step (first second : PagedSession) (call : PagedCall)
      (alike : ∃ terms, PagedSession.Transparent settings cachePages directory owned terms first
        second)
      (undisturbed : first.Undisturbed call) :
      (first.respond call).1 = (second.respond call).1 ∧
        ∃ terms, PagedSession.Transparent settings cachePages directory owned terms
          (first.respond call).2 (second.respond call).2 := by
    obtain ⟨terms, transparent⟩ := alike
    obtain ⟨answers, after⟩ := transparent.respond room undisturbed
    exact ⟨answers, _, after⟩
  obtain ⟨answers, terms, transparent⟩ := performAll_alike step ⟨[], opened⟩ undisturbed
  refine ⟨answers, ?_⟩
  obtain ⟨⟨⟨⟨recent, pool, traffic, rest⟩, -, -⟩, atoms, sameFolder, cancelled⟩, -, -⟩ :=
    transparent
  exact ⟨recent, pool, traffic, by
    rw [PagedSession.mk.injEq]
    exact ⟨rest, atoms, sameFolder, cancelled⟩⟩

/-- Two pages of one term, swept twice, with a weight set in between. The second store reads each
page once. -/
theorem cache_transparent_sample :
    let term (rule : UInt32) : Term Single := ⟨⟨rule⟩, .linear, .soft 1, 0, [⟨0⟩], [1]⟩
    let settings : Paging := { pageTerms := 1 }
    let calls : List PagedCall :=
      [.changeAtoms (.register ⟨0, false⟩), .add (term 0), .add (term 1), .finish, .beginSweep,
        .nextTerm, .nextTerm, .setWeight ⟨1⟩ .hard, .beginSweep, .nextTerm, .setToken true,
        .nextTerm, .setToken false, .nextTerm]
    let first := performAll PagedSession.respond
      (.opened settings (Path.ofText "pages") true (.ok [])) calls
    let second := performAll PagedSession.respond
      (.opened { settings with cachePages := 2 } (Path.ofText "pages") true (.ok [])) calls
    first.1 = second.1 ∧ first.2.store.traffic.pagesRead = 4 ∧
      second.2.store.traffic.pagesRead = 2 := by
  intro term settings calls first second
  have wellFormed (rule : UInt32) : (term rule).WellFormed :=
    ⟨nofun, rfl, (by decide : 1 ≤ Term.maxArity)⟩
  have undisturbed : Throughout PagedSession.respond PagedSession.Undisturbed
      (.opened settings (Path.ofText "pages") true (.ok [])) calls := by
    refine ⟨?_, ?_, ?_, ?_, ?_, ?_, ?_, ?_, ?_, ?_, ?_, ?_, ?_, ?_, trivial⟩ <;>
      simp [PagedSession.Undisturbed, PagedCall.terms, wellFormed]
  exact ⟨(cache_transparent settings 2 _ true (.ok []) (by decide) calls undisturbed).1,
    by decide +kernel, by decide +kernel⟩

end HingeLoss
