import HingeLoss.Proofs.Paged.Event
import HingeLoss.Proofs.Paged.Mirrored
import HingeLoss.Proofs.Paged.Pooled

/-! Every index of a paged store is in range. -/

namespace HingeLoss

theorem PageSource.term?_reweigh (source : PageSource) (pool : TermPool) (cache : PageSlots)
    (rule : RuleId) (weight : Weight Single) (position : Nat) :
    source.term? (pool.mapLive (Term.reweigh rule weight))
        (cache.respond (.reweigh rule weight)).2 position =
      (source.term? pool cache position).map (Term.reweigh rule weight) := by
  cases source with
  | pool => simp only [term?, TermPool.get?_eq, TermPool.terms_mapLive, List.getElem?_map]
  | slot index =>
      simp only [term?, PageSlots.respond, List.getElem?_map]
      cases cache.slots[index]? with
      | none => rfl
      | some slot => exact Array.getElem?_map

namespace PagedStore

/-- What grounding leaves of a store. Sweeps end with its sealing, and nothing is grounded into a
store that is sealed. -/
structure Undisturbed (before after : PagedStore) : Prop where
  recent : after.recent = before.recent
  sealed : before.phase ≠ .grounding → after = before
  cursor : after.cursor = if after.phase = before.phase then before.cursor else .finished

theorem undisturbed_refl (store : PagedStore) : Undisturbed store store where
  recent := rfl
  sealed _ := rfl
  cursor := (if_pos rfl).symm

variable {before store : PagedStore}

/-- Terms are only added to a store that is grounding. -/
theorem add_sealed (sealed : store.phase ≠ .grounding) (term : Term Single)
    (atoms : AtomStore Single) (folder : FoundFolder) :
    (store.add term atoms folder).2.1 = store := by
  rcases store.add_cases term atoms folder with ⟨fault, left, same, -⟩ | ⟨grounding, -⟩
  · rw [same]
  · exact absurd grounding sealed

theorem Undisturbed.add (undisturbed : Undisturbed before store) (term : Term Single)
    (atoms : AtomStore Single) (folder : FoundFolder) :
    Undisturbed before (store.add term atoms folder).2.1 := by
  obtain ⟨pageSizes, traffic, components, counts, pool, pendingBytes, termCount, same⟩ :=
    store.add_changes term atoms folder
  refine ⟨?_, fun sealed => ?_, ?_⟩
  · rw [same]
    exact undisturbed.recent
  · obtain rfl := undisturbed.sealed sealed
    exact add_sealed sealed term atoms folder
  · rw [same]
    exact undisturbed.cursor

theorem Undisturbed.finish {session : PagedSession}
    (undisturbed : Undisturbed before session.store) :
    Undisturbed before (session.respond .finish).2.store := by
  simp only [PagedSession.respond]
  rcases session.store.finish_cases session.folder with
    ⟨fault, left, same, -⟩ | ⟨-, same⟩ | ⟨grounding, base, left, flushed, same⟩
  · rw [same]
    exact undisturbed
  · rw [same]
    exact undisturbed
  · rw [same]
    obtain ⟨pageSizes, pool, pendingBytes, traffic, rfl⟩ := flush_changes flushed
    have unsealed : before.phase = .grounding := by
      by_contra sealed
      rw [undisturbed.sealed sealed] at grounding
      exact sealed grounding
    exact ⟨undisturbed.recent, fun sealed => absurd unsealed sealed, by simp [unsealed]⟩

end PagedStore

namespace IndexedStore

variable {indexed : IndexedStore} {store after : PagedStore}

/-- A store that keeps its sweep and the pages in memory. -/
theorem Mirrors.keep (mirrors : indexed.Mirrors store) (recent : after.recent = store.recent)
    (cursor : after.cursor = store.cursor) (same : after.phase = .ready → after = store) :
    Mirrors { indexed with rest := after.resting } after where
  rest := rfl
  serves := recent ▸ mirrors.serves
  pages := mirrors.pages.trans (congrArg PageCursor.pages cursor.symm)
  terms := mirrors.terms.trans (congrArg PageCursor.terms cursor.symm)
  source ready := by
    obtain rfl := same ready
    exact mirrors.source ready

/-- A store whose sweep has ended. -/
theorem mirrors_start {cache : PageSlots} (serves : cache.Serves after.recent)
    (cursor : after.cursor = .finished) : Mirrors ⟨after.resting, cache, .start⟩ after where
  rest := rfl
  serves := serves
  pages := by rw [cursor]; rfl
  terms := by rw [cursor]; rfl
  source _ someLeft := by
    rw [cursor] at someLeft
    exact absurd rfl someLeft

theorem mirrors_new (settings : Paging) (directory : Path) (owned : Bool) :
    (new (.fresh settings directory owned)).Mirrors (.fresh settings directory owned) :=
  mirrors_start (PageSlots.serves_ofCapacity settings.cachePages) rfl

theorem Mirrors.add (mirrors : indexed.Mirrors store) (term : Term Single)
    (atoms : AtomStore Single) (folder : FoundFolder) :
    Mirrors { indexed with rest := (store.add term atoms folder).2.1.resting }
      (store.add term atoms folder).2.1 := by
  obtain ⟨pageSizes, traffic, components, counts, pool, pendingBytes, termCount, same⟩ :=
    store.add_changes term atoms folder
  refine mirrors.keep ?_ ?_ fun ready => PagedStore.add_sealed ?_ term atoms folder
  · rw [same]
  · rw [same]
  · have phase : (store.add term atoms folder).2.1.phase = store.phase := by rw [same]
    rw [← phase, ready]
    exact nofun

/-- A store that is sealed on the way starts its sweeps anew. -/
theorem Mirrors.undisturbed (mirrors : indexed.Mirrors store)
    (undisturbed : PagedStore.Undisturbed store after) :
    Mirrors { indexed with
      rest := after.resting
      cursor := if after.resting.phase = indexed.rest.phase then indexed.cursor else .start }
      after := by
  rw [mirrors.rest, PagedStore.phase_resting, PagedStore.phase_resting]
  have cursor := undisturbed.cursor
  by_cases same : after.phase = store.phase
  · rw [if_pos same] at cursor ⊢
    refine mirrors.keep undisturbed.recent cursor fun ready => undisturbed.sealed ?_
    rw [← same, ready]
    exact nofun
  · rw [if_neg same] at cursor ⊢
    exact mirrors_start (undisturbed.recent ▸ mirrors.serves) cursor

theorem Mirrors.reweigh (mirrors : indexed.Mirrors store) (rule : RuleId)
    (weight : Weight Single) :
    Mirrors { indexed with
      rest := (store.reweighed rule weight).resting
      cache := (indexed.cache.respond (.reweigh rule weight)).2 }
      (store.reweighed rule weight) where
  rest := rfl
  serves := mirrors.serves.reweigh rule weight
  pages := mirrors.pages
  terms := mirrors.terms
  source ready someLeft position := by
    rw [PagedStore.currentTerm?_eq, PagedStore.currentTerms_reweighed, List.getElem?_map,
      ← PagedStore.currentTerm?_eq, ← mirrors.source ready someLeft]
    exact indexed.cursor.source.term?_reweigh _ _ rule weight position

/-- A store that is closed gives up the pages in memory. Its cursor is not asked for any more. -/
theorem Mirrors.close (mirrors : indexed.Mirrors store) (folder : FoundFolder) :
    Mirrors { indexed with
      rest := (store.close folder).2.1.resting
      cache := if (store.close folder).2.1.resting.phase = indexed.rest.phase then indexed.cache
        else (indexed.cache.respond .clear).2 } (store.close folder).2.1 := by
  rw [mirrors.rest, PagedStore.phase_resting, PagedStore.phase_resting]
  rcases store.close_cases folder with
    ⟨-, same⟩ | ⟨notClosed, ⟨fault, left, -, same⟩ | ⟨answer, left, same⟩⟩
  · rw [same, if_pos rfl]
    exact mirrors.keep rfl rfl fun _ => rfl
  · rw [same, if_pos rfl]
    exact mirrors.keep rfl rfl fun _ => rfl
  · rw [same, if_neg (Ne.symm notClosed)]
    exact ⟨rfl, mirrors.serves.clear, mirrors.pages, mirrors.terms, nofun⟩

end IndexedStore

namespace IndexedSession

/-- A session whose sweeps go by index stands where another one stands. -/
structure Mirrors (indexed : IndexedSession) (session : PagedSession) : Prop where
  store : indexed.store.Mirrors session.store
  atoms : indexed.atoms = session.atoms
  folder : indexed.folder = session.folder
  cancelled : indexed.cancelled = session.cancelled

variable {indexed : IndexedSession} {session : PagedSession}

theorem Mirrors.rest (mirrors : indexed.Mirrors session) : indexed.rest = session.resting := by
  rw [IndexedSession.rest, mirrors.store.rest, mirrors.atoms, mirrors.folder, mirrors.cancelled]
  rfl

theorem undisturbed_ground (session : PagedSession) (source : List SourceItem) (steps : Nat) :
    PagedStore.Undisturbed session.store (session.respond (.ground source steps)).2.store := by
  let pass := Grounding.start session.store session.atoms session.folder source session.cancelled
  exact @Grounding.trace_keeps (fun _ => True) pass []
    (fun _ after => PagedStore.Undisturbed session.store after.store)
    (fun _ _ _ undisturbed => undisturbed) (fun _ _ undisturbed => undisturbed.finish)
    (fun _ after term undisturbed _ => undisturbed.add term after.atoms after.folder) steps
    (PagedStore.undisturbed_refl session.store) fun _ _ _ _ => trivial

/-- Whatever the store at rest has answered, the two sessions still go together. -/
theorem Mirrors.follow (mirrors : indexed.Mirrors session) (call : PagedCall)
    (apart : call ≠ .beginSweep ∧ call ≠ .nextTerm) :
    (indexed.store.follow (session.respond call).2.store.resting call
      (session.respond call).1).Mirrors (session.respond call).2.store := by
  have kept : IndexedStore.Mirrors { indexed.store with rest := session.store.resting }
      session.store :=
    mirrors.store.keep rfl rfl fun _ => rfl
  cases call with
  | add term => exact mirrors.store.add term session.atoms session.folder
  | finish =>
      exact mirrors.store.undisturbed (PagedStore.undisturbed_refl session.store).finish
  | ground source steps => exact mirrors.store.undisturbed (undisturbed_ground session source steps)
  | setWeight rule weight =>
      simp only [PagedSession.respond]
      rcases session.store.setWeight_cases rule weight with ⟨fault, same⟩ | ⟨-, -, same⟩
      · rw [same]
        exact kept
      · rw [same]
        exact mirrors.store.reweigh rule weight
  | clear =>
      simp only [PagedSession.respond]
      rcases session.store.clear_cases session.folder with
        ⟨-, fault, same⟩ | ⟨-, ⟨fault, left, -, same⟩ | ⟨left, -, same⟩⟩
      · rw [same]
        exact kept
      · rw [same]
        exact kept
      · rw [same]
        exact IndexedStore.mirrors_start mirrors.store.serves.clear rfl
  | close => exact mirrors.store.close session.folder
  | beginSweep => exact absurd rfl apart.1
  | nextTerm => exact absurd rfl apart.2
  | setToken cancelled => exact kept
  | changeAtoms change => exact kept
  | changeFolder folder => exact kept

/-- A call that is not about a sweep is answered by the store at rest. -/
theorem Mirrors.respond_apart (mirrors : indexed.Mirrors session) (call : PagedCall)
    (apart : call ≠ .beginSweep ∧ call ≠ .nextTerm) :
    ∃ after, indexed.respond call = .ok ((session.respond call).1, after) ∧
      after.Mirrors (session.respond call).2 := by
  have answered := session.respond_resting call apart
  rw [← mirrors.rest] at answered
  have same := mirrors.follow call apart
  unfold IndexedSession.respond
  split
  · exact absurd rfl apart.1
  · exact absurd rfl apart.2
  · rw [answered]
    exact ⟨_, rfl, same, rfl, rfl, rfl⟩

/-- Every call is answered alike, and no index of it strays. -/
theorem Mirrors.respond (mirrors : indexed.Mirrors session) (sweepable : session.store.Sweepable)
    (call : PagedCall) :
    ∃ after, indexed.respond call = .ok ((session.respond call).1, after) ∧
      after.Mirrors (session.respond call).2 := by
  cases call with
  | beginSweep =>
      rcases mirrors.store.beginSweep with
        ⟨fault, refused, alike⟩ | ⟨begun, after, began, alike, same⟩
      · simp only [IndexedSession.respond, PagedSession.respond, refused, alike]
        exact ⟨_, rfl, mirrors⟩
      · simp only [IndexedSession.respond, PagedSession.respond, began, alike]
        exact ⟨_, rfl, { mirrors with store := same }⟩
  | nextTerm =>
      obtain ⟨after, alike, same⟩ :=
        mirrors.store.nextTerm sweepable session.cancelled session.folder
      rw [← mirrors.cancelled, ← mirrors.folder] at alike same
      simp only [IndexedSession.respond, PagedSession.respond, alike, ← mirrors.cancelled,
        ← mirrors.folder]
      exact ⟨_, rfl, same, mirrors.atoms, rfl, rfl⟩
  | _ => exact mirrors.respond_apart _ (by simp)

end IndexedSession

/-- No request finds the cursor behind the page that it has entered. -/
theorem PagedStore.Sweepable.cursor_within {store : PagedStore} (sweepable : store.Sweepable)
    (cancelled : Bool) (folder : FoundFolder) :
    (store.nextTerm cancelled folder).1 ≠ .error (.misuse .cursorPastPage) := by
  cases phase : store.phase with
  | ready =>
      have request := sweepable.request cancelled folder
      generalize store.nextTerm cancelled folder = outcome at request
      obtain ⟨answer, after⟩ := outcome
      cases request with
      | refused misuse notReady => exact absurd phase notReady
      | _ => simp
  | _ => simp [nextTerm, ensureReady, phase]

/-- Nothing else than a request answers so. -/
theorem PagedSession.answer_within {session : PagedSession} (sweepable : session.store.Sweepable)
    (call : PagedCall) :
    (session.respond call).1 ≠ .lent (.error (.misuse .cursorPastPage)) := by
  cases call with
  | nextTerm =>
      intro lent
      exact sweepable.cursor_within session.cancelled session.folder (PagedAnswer.lent.inj lent)
  | finish | clear | beginSweep | setWeight =>
      simp only [respond]
      split <;> simp
  | _ => simp [respond]

/-- A store is new, and has room for a term on a page. -/
theorem PagedStore.create_ok {settings : Paging} {home temporary : Path}
    {disk left : Folder} {store : PagedStore}
    (created : create settings home temporary disk = (.ok store, left)) :
    0 < settings.pageTerms ∧ store = fresh settings store.directory store.owned := by
  unfold create at created
  split at created
  · cases created
  · rename_i room
    dsimp only at created
    split at created
    · cases created
    · cases created
      exact ⟨Nat.pos_of_ne_zero room, rfl⟩

/-- No request finds the cursor behind its page, and no index of the sizes, the drawn orders and the
slots is out of range. -/
theorem replay_in_range {settings : Paging} {home temporary : Path} {disk left : Folder}
    {store : PagedStore}
    (created : PagedStore.create settings home temporary disk = (.ok store, left))
    (calls : List PagedCall) :
    let session : PagedSession := ⟨store, .empty, store.folderOn left, false⟩
    let indexed : IndexedSession := ⟨.new store, .empty, store.folderOn left, false⟩
    let run := performAll PagedSession.respond session calls
    let pool := TermPool.ofCapacity settings.pageTerms
    .lent (.error (.misuse .cursorPastPage)) ∉ run.1 ∧
      (∃ last, performChecked IndexedSession.respond indexed calls = .ok (run.1, last)) ∧
      pool.Becomes run.2.store.pool ∧
      ∀ uses : List PoolCall, ∃ last,
        performChecked SlotPool.respond (.ofCapacity settings.pageTerms) uses =
          .ok ((performAll TermPool.respond pool uses).1, last) := by
  intro session indexed run pool
  obtain ⟨room, fresh⟩ := PagedStore.create_ok created
  have steady : session.Steady settings store.directory store.owned := by
    have opened := PagedSession.steady_opened settings store.directory store.owned
      (store.folderOn left)
    rwa [PagedSession.opened, ← fresh] at opened
  have mirrors : indexed.Mirrors session := by
    have new := IndexedStore.mirrors_new settings store.directory store.owned
    rw [← fresh] at new
    exact ⟨new, rfl, rfl, rfl⟩
  have empty : session.store.pool = pool := congrArg PagedStore.pool fresh
  obtain ⟨within, last, checked, -⟩ := @performChecked_ok _ _ _ _ PagedSession.respond
    IndexedSession.respond
    (fun session indexed => session.Steady settings store.directory store.owned ∧
      indexed.Mirrors session)
    (fun answer => answer ≠ .lent (.error (.misuse .cursorPastPage)))
    (fun session indexed call same => by
      obtain ⟨steady, mirrors⟩ := same
      obtain ⟨after, responds, stillSame⟩ := mirrors.respond steady.sweepable call
      exact ⟨session.answer_within steady.sweepable call, after, responds,
        steady.respond room call, stillSame⟩) session indexed ⟨steady, mirrors⟩ calls
  exact ⟨fun member => within _ member rfl, ⟨last, checked⟩,
    empty ▸ session.becomes_performAll calls, SlotPool.reaches_in_range settings.pageTerms⟩

/-- Two terms with room for one on a page and for one page in memory. The folder is lost before the
second page is read, a sweep is given up while the token has fired, and the rule becomes hard. Then
the first page is lent from memory. -/
theorem replay_in_range_sample :
    let settings := { Paging.sequential 1 with cachePages := 1 }
    let term : Term Single := ⟨⟨0⟩, .linear, .soft 1, 0, [⟨0⟩], [1]⟩
    let calls : List PagedCall :=
      [.changeAtoms (.register ⟨0, false⟩), .add term, .add term, .finish, .beginSweep, .nextTerm,
        .changeFolder (.error .notFound), .nextTerm, .beginSweep, .setToken true, .nextTerm,
        .beginSweep, .setToken false, .setWeight ⟨0⟩ .hard, .nextTerm]
    let home : Path := ⟨"home", ["home"], false⟩
    let pages : Path := ⟨"home/pages", ["home", "pages"], false⟩
    ∃ store left, PagedStore.create settings home pages (.fresh "home") = (.ok store, left) ∧
      let session : PagedSession := ⟨store, .empty, store.folderOn left, false⟩
      let indexed : IndexedSession := ⟨.new store, .empty, store.folderOn left, false⟩
      let answers := (performAll PagedSession.respond session calls).1
      .lent (.error (.page (.system (Page.path pages 1) .notFound))) ∈ answers ∧
        answers.getLast? = some (.lent (.ok (some { term with weight := .hard }))) ∧
        ∃ last, performChecked IndexedSession.respond indexed calls = .ok (answers, last) := by
  intro settings term calls home pages
  let made := (Folder.fresh "home").ensureFolder pages
  have ready : made.1 = .ok () := by decide +kernel
  have created : PagedStore.create settings home pages (.fresh "home") =
      (.ok (.fresh settings pages true), made.2) := by
    have same : (Folder.fresh "home").ensureFolder pages = (.ok (), made.2) := Prod.ext ready rfl
    rw [PagedStore.create, if_neg (by decide)]
    simp only [settings, Paging.sequential, PagingSettings.sequential, same]
    rfl
  refine ⟨_, _, created, ?_, ?_, (replay_in_range created calls).2.1⟩
  · decide +kernel
  · decide +kernel

end HingeLoss
