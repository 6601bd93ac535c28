import HingeLoss.Proofs.Page.Reuse
import HingeLoss.Proofs.Paged.Grounding
import HingeLoss.Proofs.Paged.Reached
import HingeLoss.Proofs.Paged.Session

/-! The books of a paged store agree after every call, whatever becomes of the folder. -/

namespace HingeLoss

/-- What a store is opened with, and how many terms and pages it keeps in memory. -/
structure PagedStore.Frame where
  settings : Paging
  directory : Path
  owned : Bool
  poolCapacity : Nat
  recentCapacity : Nat

namespace PagedStore

def frame (store : PagedStore) : Frame :=
  ⟨store.settings, store.directory, store.owned, store.pool.capacity, store.recent.capacity⟩

theorem frame_readPage (store : PagedStore) (page : Nat) (folder : FoundFolder) :
    (store.readPage page folder).2.frame = store.frame := by
  simp only [readPage]
  cases Page.fetch store.directory page folder with
  | error fault => rfl
  | ok bytes =>
      have kept := Page.capacity_load (Page.path store.directory page) bytes store.pool
      dsimp only
      generalize Page.load (Page.path store.directory page) bytes store.pool = outcome at kept ⊢
      obtain ⟨_ | held, filled⟩ := outcome
      · exact congrArg (Frame.mk _ _ _ · _) kept
      · dsimp only
        split
        · exact congrArg (Frame.mk _ _ _ · _) kept
        · exact congrArg (Frame.mk _ _ _ · _) kept

theorem frame_enterPage (store : PagedStore) (page : Nat) (folder : FoundFolder) :
    (store.enterPage page folder).2.frame = store.frame := by
  unfold enterPage
  split
  · rfl
  · exact store.frame_readPage page folder

theorem frame_advance (cancelled : Bool) (folder : FoundFolder) (pages : List Nat)
    (store : PagedStore) : (advance cancelled folder pages store).2.frame = store.frame := by
  induction pages generalizing store with
  | nil => rfl
  | cons page rest inductionHypothesis =>
      rw [advance]
      split
      · rfl
      · have entered := frame_enterPage { store with cursor := ⟨rest, []⟩ } page folder
        generalize enterPage { store with cursor := ⟨rest, []⟩ } page folder = outcome at entered ⊢
        obtain ⟨_ | _, after⟩ := outcome
        · exact entered
        · dsimp only
          split
          · exact (inductionHypothesis after.orderTerms).trans entered
          · exact entered

theorem frame_lend (store : PagedStore) : store.lend.2.frame = store.frame := by
  obtain ⟨cursor, same⟩ := store.lend_keeps
  rw [same]
  rfl

/-- A request leaves everything that the store was opened with. -/
theorem frame_nextTerm (store : PagedStore) (cancelled : Bool) (folder : FoundFolder) :
    (store.nextTerm cancelled folder).2.frame = store.frame := by
  unfold nextTerm
  split
  · rfl
  · split
    · have advanced := frame_advance cancelled folder store.cursor.pages store
      generalize advance cancelled folder store.cursor.pages store = outcome at advanced ⊢
      obtain ⟨_ | _ | _, after⟩ := outcome
      · exact advanced
      · exact advanced
      · exact after.frame_lend.trans advanced
    · exact store.frame_lend

theorem isFull_of_count_zero {store : PagedStore} (none : store.pool.count = 0)
    (room : 0 < store.pool.capacity) : store.pool.isFull = false := by
  simp only [TermPool.isFull, none, decide_eq_false_iff_not]
  omega

end PagedStore

namespace PagedSession

/-- The books of a session that was opened with some settings, directory and ownership, and the
terms of the present round. A closed store has no books any more. -/
structure Kept (settings : Paging) (directory : Path) (owned : Bool)
    (terms : List (Term Single)) (session : PagedSession) : Prop where
  consistent : session.store.Consistent
  framed : session.store.phase ≠ .closed →
    session.store.frame = ⟨settings, directory, owned, settings.pageTerms, settings.cachePages⟩
  tallied : session.store.phase ≠ .closed →
    Tallied terms session.store.termCount session.store.counts session.store.components
  pendingBytes : session.store.phase = .grounding →
    session.store.pendingBytes = (session.store.pool.terms.map Term.encodedLength).sum
  pendingRoom : session.store.phase = .grounding → session.store.pool.count ≤ settings.pageTerms
  sizes : ∀ size ∈ session.store.pageSizes.toList, size ≤ settings.pageTerms

variable {settings : Paging} {directory : Path} {owned : Bool} {folder : FoundFolder}
  {terms : List (Term Single)} {session : PagedSession}

theorem kept_opened (settings : Paging) (directory : Path) (owned : Bool)
    (folder : FoundFolder) :
    Kept settings directory owned [] (opened settings directory owned folder) where
  consistent := PagedStore.consistent_fresh settings directory owned
  framed _ := rfl
  tallied _ := tallied_nil
  pendingBytes _ := rfl
  pendingRoom _ := Nat.zero_le _
  sizes := by simp [opened, PagedStore.fresh]

theorem Kept.settings_eq (kept : Kept settings directory owned terms session)
    (notClosed : session.store.phase ≠ .closed) : session.store.settings = settings :=
  congrArg PagedStore.Frame.settings (kept.framed notClosed)

theorem Kept.poolCapacity (kept : Kept settings directory owned terms session)
    (notClosed : session.store.phase ≠ .closed) :
    session.store.pool.capacity = settings.pageTerms :=
  congrArg PagedStore.Frame.poolCapacity (kept.framed notClosed)

theorem Kept.recentCapacity (kept : Kept settings directory owned terms session)
    (notClosed : session.store.phase ≠ .closed) :
    session.store.recent.capacity = settings.cachePages :=
  congrArg PagedStore.Frame.recentCapacity (kept.framed notClosed)

/-- A page that is written is as large as the pool was full. -/
theorem Kept.flush (kept : Kept settings directory owned terms session)
    (grounding : session.store.phase = .grounding) {base : PagedStore} {left : FoundFolder}
    (flushed : session.store.flush session.folder = (.ok base, left)) :
    Kept settings directory owned terms { session with store := base, folder := left } ∧
      base.phase = .grounding ∧ base.pool.count = 0 := by
  obtain ⟨consistent, stillGrounding, noneLeft⟩ := kept.consistent.flush grounding flushed
  refine ⟨?_, stillGrounding, noneLeft⟩
  rcases session.store.flush_cases session.folder with
    ⟨-, same⟩ | ⟨fault, _, -, same⟩ | ⟨-, bytes, _, -, same⟩
  · rw [flushed] at same
    cases same
    exact { kept with }
  · rw [flushed] at same
    cases same
  · rw [flushed] at same
    cases same
    refine { kept with
      consistent := consistent
      pendingBytes := fun _ => by simp
      pendingRoom := fun _ => Nat.zero_le _
      sizes := fun size member => ?_ }
    rw [Array.toList_push, List.mem_append, List.mem_singleton] at member
    rcases member with old | rfl
    · exact kept.sizes size old
    · exact kept.pendingRoom grounding

/-- A term that the index takes is counted everywhere; one that it refuses is counted nowhere. -/
theorem Kept.append (kept : Kept settings directory owned terms session)
    (grounding : session.store.phase = .grounding) (room : session.store.pool.isFull = false)
    {term : Term Single} (checked : session.atoms.checkAll term.atoms = .ok ()) :
    Kept settings directory owned
      (PagedCall.note terms (.add term) (.added (session.store.append term session.atoms).1))
      { session with
        store := (session.store.append term session.atoms).2.1
        atoms := (session.store.append term session.atoms).2.2 } := by
  have notClosed : session.store.phase ≠ .closed := by simp [grounding]
  have consistent := kept.consistent.append grounding term session.atoms
  have outcome := (kept.tallied notClosed).numbered.insert (AtomStore.inRange_of_checkAll checked)
  rcases PagedStore.append_cases room term session.atoms with
    ⟨fault, refused, same⟩ | ⟨key, filed, same⟩
  · rw [same] at consistent ⊢
    rcases outcome with ⟨_, filed, -⟩ | ⟨_, -, unchanged, -⟩
    · rw [refused] at filed
      cases filed
    · exact { kept with
        consistent := consistent
        tallied := fun notClosed => by
          dsimp only
          rw [unchanged]
          exact kept.tallied notClosed }
  · rw [same] at consistent ⊢
    rcases outcome with ⟨_, -, dense⟩ | ⟨_, refused, -⟩
    · refine { kept with
        consistent := consistent
        framed := fun notClosed => ?_
        tallied := fun notClosed => (kept.tallied notClosed).append term dense
        pendingBytes := fun grounding => ?_
        pendingRoom := fun grounding => ?_ }
      · rw [← kept.framed notClosed]
        simp [PagedStore.frame]
      · simp [kept.pendingBytes grounding]
      · have capacity := kept.poolCapacity notClosed
        simp only [TermPool.isFull, decide_eq_false_iff_not] at room
        simp only [TermPool.count_fill, TermPool.count_take]
        omega
    · rw [filed] at refused
      cases refused

theorem Kept.add (room : 0 < settings.pageTerms)
    (kept : Kept settings directory owned terms session) (term : Term Single) :
    Kept settings directory owned
      (PagedCall.note terms (.add term) (session.respond (.add term)).1)
      (session.respond (.add term)).2 := by
  simp only [respond]
  rcases session.store.add_cases term session.atoms session.folder with
    ⟨fault, left, same, -⟩ | ⟨grounding, checked, base, left, made, same⟩
  · rw [same]
    exact { kept with }
  · rw [same]
    rcases made with ⟨needless, rfl, rfl⟩ | flushed
    · exact kept.append grounding (PagedStore.isFull_of_not_needsFlush needless) checked
    · obtain ⟨keptBase, stillGrounding, noneLeft⟩ := kept.flush grounding flushed
      have capacity := keptBase.poolCapacity (by simp [stillGrounding])
      exact keptBase.append stillGrounding
        (PagedStore.isFull_of_count_zero noneLeft (capacity ▸ room)) checked

theorem Kept.finish (kept : Kept settings directory owned terms session) :
    Kept settings directory owned terms (session.respond .finish).2 := by
  simp only [respond]
  rcases session.store.finish_cases session.folder with
    ⟨fault, left, same, -⟩ | ⟨ready, same⟩ | ⟨grounding, base, left, flushed, same⟩
  · rw [same]
    exact { kept with }
  · rw [same]
    exact { kept with }
  · have consistent := kept.consistent.finish same
    obtain ⟨keptBase, stillGrounding, -⟩ := kept.flush grounding flushed
    have notClosed : base.phase ≠ .closed := by simp [stillGrounding]
    rw [same]
    exact { keptBase with
      consistent := consistent
      framed := fun _ => keptBase.framed notClosed
      tallied := fun _ => keptBase.tallied notClosed
      pendingBytes := fun grounding => by cases grounding
      pendingRoom := fun grounding => by cases grounding }

theorem Kept.setWeight (kept : Kept settings directory owned terms session) (rule : RuleId)
    (weight : Weight Single) :
    Kept settings directory owned terms (session.respond (.setWeight rule weight)).2 := by
  simp only [respond]
  rcases session.store.setWeight_cases rule weight with ⟨fault, same⟩ | ⟨-, -, same⟩
  · rw [same]
    exact kept
  · have consistent := kept.consistent.setWeight same
    rw [same]
    refine { kept with
      consistent := consistent
      framed := fun notClosed => kept.framed notClosed
      pendingBytes := fun grounding => ?_ }
    have sameLength : Term.encodedLength ∘ Term.reweigh rule weight = Term.encodedLength :=
      funext fun term => term.encodedLength_reweigh rule weight
    simp [PagedStore.reweighed, kept.pendingBytes grounding, sameLength]

theorem Kept.clear (kept : Kept settings directory owned terms session) :
    Kept settings directory owned (PagedCall.note terms .clear (session.respond .clear).1)
      (session.respond .clear).2 := by
  simp only [respond]
  rcases session.store.clear_cases session.folder with
    ⟨-, fault, same⟩ | ⟨notClosed, ⟨fault, left, -, same⟩ | ⟨left, -, same⟩⟩
  · rw [same]
    exact { kept with }
  · rw [same]
    exact { kept with }
  · have consistent := PagedStore.consistent_of_clear same
    rw [same]
    exact {
      consistent := consistent
      framed := fun _ => kept.framed notClosed
      tallied := fun _ => tallied_nil
      pendingBytes := fun _ => by simp [PagedStore.emptied]
      pendingRoom := fun _ => Nat.zero_le _
      sizes := by simp [PagedStore.emptied] }

theorem Kept.close (kept : Kept settings directory owned terms session) :
    Kept settings directory owned terms (session.respond .close).2 := by
  have consistent := kept.consistent.close session.folder
  simp only [respond]
  rcases session.store.close_cases session.folder with
    ⟨closed, same⟩ | ⟨-, ⟨fault, left, -, same⟩ | ⟨answer, left, same⟩⟩
  · rw [same]
    exact { kept with }
  · rw [same]
    exact { kept with }
  · rw [same] at consistent ⊢
    exact {
      consistent := consistent
      framed := fun notClosed => absurd rfl notClosed
      tallied := fun notClosed => absurd rfl notClosed
      pendingBytes := fun grounding => by cases grounding
      pendingRoom := fun grounding => by cases grounding
      sizes := by simp }

theorem Kept.beginSweep (kept : Kept settings directory owned terms session) :
    Kept settings directory owned terms (session.respond .beginSweep).2 := by
  simp only [respond]
  cases begun : session.store.beginSweep with
  | error fault => exact kept
  | ok store =>
      obtain ⟨-, pages, generator, rfl, -⟩ := PagedStore.beginSweep_ok begun
      exact { kept with
        consistent := { kept.consistent with }
        framed := fun notClosed => kept.framed notClosed }

theorem Kept.nextTerm (kept : Kept settings directory owned terms session) :
    Kept settings directory owned terms (session.respond .nextTerm).2 := by
  have consistent := kept.consistent.nextTerm session.cancelled session.folder
  have frame := session.store.frame_nextTerm session.cancelled session.folder
  simp only [respond]
  by_cases ready : session.store.phase = .ready
  · obtain ⟨pool, recent, traffic, cursor, generator, same, -⟩ :=
      session.store.nextTerm_keeps session.cancelled session.folder kept.consistent.whole
    rw [same] at consistent frame ⊢
    have notGrounding : session.store.phase ≠ .grounding := by simp [ready]
    exact { kept with
      consistent := consistent
      framed := fun notClosed => frame.trans (kept.framed notClosed)
      pendingBytes := fun grounding => absurd grounding notGrounding
      pendingRoom := fun grounding => absurd grounding notGrounding }
  · obtain ⟨fault, refused⟩ := PagedStore.ensureReady_error ready
    have same : (session.store.nextTerm session.cancelled session.folder).2 = session.store := by
      rw [PagedStore.nextTerm, refused]
    rw [same]
    exact kept

/-- Every call keeps the books. -/
theorem Kept.respond (room : 0 < settings.pageTerms)
    (kept : Kept settings directory owned terms session) (call : PagedCall) :
    Kept settings directory owned (PagedCall.note terms call (session.respond call).1)
      (session.respond call).2 := by
  cases call with
  | add term => exact kept.add room term
  | finish => exact kept.finish
  | setWeight rule weight => exact kept.setWeight rule weight
  | clear => exact kept.clear
  | close => exact kept.close
  | beginSweep => exact kept.beginSweep
  | nextTerm => exact kept.nextTerm
  | ground source steps =>
      let pass := Grounding.start session.store session.atoms session.folder source
        session.cancelled
      have start : Kept settings directory owned terms pass.session := kept
      exact Grounding.trace_keeps (fun _ _ _ kept => { kept with }) (fun _ _ kept => kept.finish)
        (fun _ _ term kept _ => kept.add room term) steps start fun _ _ _ _ => trivial
  | setToken cancelled => exact { kept with }
  | changeAtoms change => exact { kept with }
  | changeFolder folder => exact { kept with }

theorem kept_performAll (settings : Paging) (directory : Path) (owned : Bool)
    (folder : FoundFolder) (room : 0 < settings.pageTerms) (calls : List PagedCall) :
    Kept settings directory owned
      (notes PagedCall.note [] calls
        (performAll PagedSession.respond (opened settings directory owned folder) calls).1)
      (performAll PagedSession.respond (opened settings directory owned folder) calls).2 := by
  have step (terms : List (Term Single)) (session : PagedSession) (call : PagedCall)
      (kept : Kept settings directory owned terms session) (_ : True) :=
    kept.respond room call
  exact performAll_keeps step (kept_opened settings directory owned folder)
    (throughout_true _ _ calls)

end PagedSession

/-- The books of a paged store agree with each other and with the terms of the round. -/
structure PagedStore.Balanced (pageTerms : Nat) (terms : List (Term Single)) (store : PagedStore) :
    Prop where
  counted : store.termCount = terms.length
  /-- While grounding, a term is on a page or pending. -/
  grounding : store.phase = .grounding →
    store.termCount = store.pageSizes.toList.sum + store.pool.count
  ready : store.phase = .ready → store.termCount = store.pageSizes.toList.sum
  pendingBytes : store.phase = .grounding →
    store.pendingBytes = (store.pool.terms.map Term.encodedLength).sum
  pendingRoom : store.phase = .grounding → store.pool.count ≤ pageTerms
  pageSizes : ∀ size ∈ store.pageSizes.toList, 1 ≤ size ∧ size ≤ pageTerms
  perRule : ∀ rule, store.counts[rule]? = Term.tally terms rule
  numbered : (store.components.toList.flatMap Prod.snd).Perm (List.range store.termCount)

/-- The same of a resident store, whose terms may have got other weights since they were added. -/
structure ResidentStore.Balanced {α : Type} (terms : List (Term α)) (store : ResidentStore α) :
    Prop where
  held : List.Forall₂ (fun held added => ∃ weight, held = { added with weight })
    store.terms.toList terms
  perRule : ∀ rule, store.counts[rule]? = Term.tally terms rule
  numbered : (store.components.toList.flatMap Prod.snd).Perm (List.range store.size)

/-- Whatever is asked of a store that was opened, and whether it succeeds or fails, the books agree
until the store is closed. -/
theorem books_agree (settings : Paging) (directory : Path) (owned : Bool)
    (folder : FoundFolder) (room : 0 < settings.pageTerms) :
    (∀ calls : List PagedCall,
      let run := performAll PagedSession.respond (.opened settings directory owned folder) calls
      run.2.store.phase ≠ .closed →
        run.2.store.Balanced settings.pageTerms (notes PagedCall.note [] calls run.1)) ∧
    ∀ (α : Type) [Scalar α] (calls : List (ResidentCall α)),
      let run := performAll GroundingSession.respond .opened calls
      run.2.store.phase ≠ .closed →
        run.2.store.Balanced (notes ResidentCall.note [] calls run.1) := by
  constructor
  · intro calls run notClosed
    have kept := PagedSession.kept_performAll settings directory owned folder room calls
    have tallied := kept.tallied notClosed
    exact {
      counted := tallied.counted
      grounding := kept.consistent.pending
      ready := kept.consistent.written
      pendingBytes := kept.pendingBytes
      pendingRoom := kept.pendingRoom
      pageSizes := fun size member => ⟨kept.consistent.positive size member, kept.sizes size member⟩
      perRule := tallied.perRule
      numbered := tallied.numbered.perm }
  · intro α _ calls run notClosed
    have step (terms : List (Term α)) (session : GroundingSession α) (call : ResidentCall α)
        (kept : GroundingSession.Kept terms session) (_ : True) := kept.respond call
    have kept := performAll_keeps step GroundingSession.kept_opened
      (throughout_true GroundingSession.respond .opened calls)
    have tallied := kept.tallied notClosed
    exact ⟨kept.held notClosed, tallied.perRule, tallied.numbered.perm⟩

/-- Two terms with room for one on a page. The folder is away when the first page is to be written,
so the second term is refused once; then both rounds of calls succeed. -/
theorem books_agree_sample :
    let term : Term Single := ⟨⟨0⟩, .linear, .soft 1, 0, [⟨0⟩], [1]⟩
    let calls : List PagedCall :=
      [.changeAtoms (.register ⟨0, false⟩), .add term, .changeFolder (.error .notFound), .add term,
        .changeFolder (.ok []), .add term, .setWeight ⟨0⟩ .hard, .finish, .beginSweep, .nextTerm]
    let run := performAll PagedSession.respond
      (.opened (.sequential 1) (Path.ofText "pages") true (.ok [])) calls
    run.2.store.pageSizes = #[1, 1] ∧
      run.2.store.Balanced 1 (notes PagedCall.note [] calls run.1) := by
  intro term calls run
  have reached : run.2.store.phase = .ready ∧ run.2.store.pageSizes = #[1, 1] := by
    decide +kernel
  refine ⟨reached.2, (books_agree (.sequential 1) _ true (.ok []) (by decide)).1 calls ?_⟩
  rw [reached.1]
  decide

end HingeLoss
