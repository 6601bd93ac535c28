import HingeLoss.Proofs.Paged.Bookkeeping
import HingeLoss.Proofs.Paged.Vary

/-! Stores that differ in unused slots and in counters of traffic answer alike for ever. -/

namespace HingeLoss

namespace PagedStore

/-- Stores that only differ in the slots of the pool that are not in use and in the counters of the
traffic. -/
def Alike (first second : PagedStore) : Prop :=
  ∃ pool traffic, second = { first with pool, traffic } ∧ first.pool.Alike pool

variable {first second : PagedStore} {folder : FoundFolder}

theorem Alike.varies (alike : first.Alike second) :
    Varies first.settings.cachePages first.recent first second := alike

theorem Varies.alike {cachePages : Nat} {recent : RecentPages}
    (varies : Varies cachePages recent first second)
    (room : cachePages = first.settings.cachePages) (kept : recent = first.recent) :
    first.Alike second := by
  subst room kept
  exact varies

/-- What stands in the folder is read alike, and so is what is damaged. -/
theorem Alike.readPage (alike : first.Alike second) (page : Nat) (folder : FoundFolder) :
    (first.readPage page folder).1 = (second.readPage page folder).1 ∧
      (first.readPage page folder).2.Alike (second.readPage page folder).2 := by
  obtain ⟨pool, traffic, rfl, alike⟩ := alike
  let second : PagedStore := { first with pool, traffic }
  change (first.readPage page folder).1 = (second.readPage page folder).1 ∧
    (first.readPage page folder).2.Alike (second.readPage page folder).2
  cases fetched : Page.fetch first.directory page folder with
  | error fault =>
      have otherFetched : Page.fetch second.directory page folder = .error fault := fetched
      rw [readPage_of_fetch_error fetched, readPage_of_fetch_error otherFetched]
      exact ⟨rfl, pool, traffic, rfl, alike⟩
  | ok bytes =>
      have otherFetched : Page.fetch second.directory page folder = .ok bytes := fetched
      obtain ⟨answer, filled, other, loaded, otherLoaded, same⟩ :=
        Page.load_alike (Page.path first.directory page) bytes alike
      cases answer with
      | error fault =>
          rw [readPage_of_load_error fetched loaded,
            readPage_of_load_error otherFetched otherLoaded]
          exact ⟨rfl, other, traffic, rfl, same⟩
      | ok count =>
          by_cases differs : count ≠ first.pageSizes.getD page 0
          · rw [readPage_of_miscount fetched loaded differs,
              readPage_of_miscount otherFetched otherLoaded differs]
            exact ⟨rfl, other.clear, _, rfl, TermPool.alike_clear same.capacity⟩
          · have written := (not_not.mp differs).symm
            have reweighed := same.mapLive first.override
            have kept : second.recent.use page (other.mapLive second.override).terms.toArray =
                first.recent.use page (filled.mapLive first.override).terms.toArray :=
              congrArg (first.recent.use page ·.toArray) reweighed.terms
            rw [readPage_of_load fetched loaded written,
              readPage_of_load otherFetched otherLoaded written, kept]
            exact ⟨rfl, other.mapLive first.override, traffic.recordRead bytes.length, rfl,
              reweighed⟩

theorem Alike.enterPage (alike : first.Alike second) (page : Nat) (folder : FoundFolder) :
    (first.enterPage page folder).1 = (second.enterPage page folder).1 ∧
      (first.enterPage page folder).2.Alike (second.enterPage page folder).2 := by
  have read := alike.readPage page folder
  obtain ⟨pool, traffic, rfl, same⟩ := alike
  unfold PagedStore.enterPage
  dsimp only
  cases first.recent.terms? page with
  | some terms => exact ⟨rfl, pool, _, rfl, same⟩
  | none => exact read

theorem Alike.orderTerms (alike : first.Alike second) :
    first.orderTerms.Alike second.orderTerms := by
  obtain ⟨pool, traffic, rfl, same⟩ := alike
  have counts : currentCount { first with pool, traffic } = first.currentCount := by
    unfold currentCount lendsFromPool
    dsimp only
    rw [same.count]
  simp only [PagedStore.orderTerms, counts]
  exact ⟨pool, traffic, rfl, same⟩

theorem Alike.lend (alike : first.Alike second) :
    first.lend.1 = second.lend.1 ∧ first.lend.2.Alike second.lend.2 := by
  obtain ⟨pool, traffic, rfl, same⟩ := alike
  have found (position : Nat) :
      currentTerm? { first with pool, traffic } position = first.currentTerm? position := by
    unfold currentTerm? lendsFromPool
    dsimp only
    rw [same.get?]
  simp only [PagedStore.lend, found]
  cases first.cursor.terms with
  | nil => exact ⟨rfl, pool, traffic, rfl, same⟩
  | cons position rest =>
      dsimp only
      cases first.currentTerm? position <;> exact ⟨rfl, pool, traffic, rfl, same⟩

theorem Alike.advance (alike : first.Alike second) (cancelled : Bool) (folder : FoundFolder)
    (pages : List Nat) :
    (PagedStore.advance cancelled folder pages first).1 =
        (PagedStore.advance cancelled folder pages second).1 ∧
      (PagedStore.advance cancelled folder pages first).2.Alike
        (PagedStore.advance cancelled folder pages second).2 := by
  induction pages generalizing first second with
  | nil => exact ⟨rfl, alike⟩
  | cons page rest inductionHypothesis =>
      rw [PagedStore.advance, PagedStore.advance]
      cases cancelled with
      | true => exact ⟨rfl, alike⟩
      | false =>
          have begun : Alike { first with cursor := ⟨rest, []⟩ }
              { second with cursor := ⟨rest, []⟩ } := by
            obtain ⟨pool, traffic, rfl, same⟩ := alike
            exact ⟨pool, traffic, rfl, same⟩
          obtain ⟨answers, entered⟩ := begun.enterPage page folder
          simp only [Bool.false_eq_true, if_false]
          generalize PagedStore.enterPage { first with cursor := ⟨rest, []⟩ } page folder = outcome
            at answers entered ⊢
          generalize PagedStore.enterPage { second with cursor := ⟨rest, []⟩ } page folder =
            otherOutcome at answers entered ⊢
          obtain ⟨_ | _, after⟩ := outcome <;> obtain ⟨_ | _, other⟩ := otherOutcome <;>
            cases answers
          · exact ⟨rfl, entered⟩
          · have ordered := entered.orderTerms
            have cursors : other.orderTerms.cursor = after.orderTerms.cursor := by
              obtain ⟨pool, traffic, rest, -⟩ := ordered
              rw [rest]
            dsimp only at ordered cursors ⊢
            rw [cursors]
            split
            · exact inductionHypothesis ordered
            · exact ⟨rfl, ordered⟩

/-- A request is answered alike. -/
theorem Alike.nextTerm (alike : first.Alike second) (cancelled : Bool) (folder : FoundFolder) :
    (first.nextTerm cancelled folder).1 = (second.nextTerm cancelled folder).1 ∧
      (first.nextTerm cancelled folder).2.Alike (second.nextTerm cancelled folder).2 := by
  have lent := alike.lend
  have advanced := alike.advance cancelled folder first.cursor.pages
  have ready : second.ensureReady = first.ensureReady := by
    obtain ⟨pool, traffic, rfl, -⟩ := alike
    rfl
  have cursor : second.cursor = first.cursor := by
    obtain ⟨pool, traffic, rfl, -⟩ := alike
    rfl
  unfold PagedStore.nextTerm
  rw [ready, cursor]
  cases first.ensureReady with
  | error fault => exact ⟨rfl, alike⟩
  | ok _ =>
      dsimp only
      split
      · obtain ⟨answers, entered⟩ := advanced
        generalize PagedStore.advance cancelled folder first.cursor.pages first = outcome
          at answers entered ⊢
        generalize PagedStore.advance cancelled folder first.cursor.pages second = otherOutcome
          at answers entered ⊢
        obtain ⟨_ | _ | _, after⟩ := outcome <;> obtain ⟨_ | _ | _, other⟩ := otherOutcome <;>
          cases answers
        · exact ⟨rfl, entered⟩
        · exact ⟨rfl, entered⟩
        · exact entered.lend
      · exact lent

end PagedStore

namespace PagedSession

/-- Sessions with the same surroundings whose stores are alike. -/
structure Alike (first second : PagedSession) : Prop where
  store : first.store.Alike second.store
  atoms : second.atoms = first.atoms
  folder : second.folder = first.folder
  cancelled : second.cancelled = first.cancelled

variable {first second : PagedSession}

theorem Alike.add (alike : first.Alike second) (term : Term Single) :
    (first.respond (.add term)).1 = (second.respond (.add term)).1 ∧
      (first.respond (.add term)).2.Alike (second.respond (.add term)).2 := by
  obtain ⟨store, atoms, folder, cancelled⟩ := alike
  obtain ⟨answer, after, other, joined, left, same, otherSame, varies, steady⟩ :=
    store.varies.add term first.atoms first.folder
  simp only [respond, atoms, folder]
  rw [same, otherSame]
  have alike := varies.alike (congrArg (·.cachePages) steady.settings.symm)
    steady.recent.symm
  exact ⟨rfl, alike, rfl, rfl, cancelled⟩

theorem Alike.finish (alike : first.Alike second) :
    (first.respond .finish).1 = (second.respond .finish).1 ∧
      (first.respond .finish).2.Alike (second.respond .finish).2 := by
  obtain ⟨store, atoms, folder, cancelled⟩ := alike
  simp only [respond, folder]
  by_cases grounding : first.store.phase = .grounding
  · rcases store.varies.finish grounding first.folder with ⟨fault, left, same, otherSame⟩ |
      ⟨after, other, left, same, otherSame, varies, settings, recent, -⟩
    · rw [same, otherSame]
      exact ⟨rfl, store, atoms, rfl, cancelled⟩
    · rw [same, otherSame]
      have alike := varies.alike (congrArg (·.cachePages) settings.symm) recent.symm
      exact ⟨rfl, alike, atoms, rfl, cancelled⟩
  · obtain ⟨pool, traffic, rest, -⟩ := store.varies
    have otherSame := PagedStore.finish_vary first.store first.store.settings.cachePages
      first.store.recent pool traffic grounding first.folder
    rw [← rest] at otherSame
    rw [otherSame]
    rcases first.store.finish_cases first.folder with
      ⟨fault, left, same, -⟩ | ⟨ready, same⟩ | ⟨isGrounding, -⟩
    · rw [same]
      exact ⟨rfl, store, atoms, rfl, cancelled⟩
    · rw [same]
      exact ⟨rfl, rest ▸ store, atoms, rfl, cancelled⟩
    · exact absurd isGrounding grounding

theorem Alike.setWeight (alike : first.Alike second) (rule : RuleId) (weight : Weight Single) :
    (first.respond (.setWeight rule weight)).1 = (second.respond (.setWeight rule weight)).1 ∧
      (first.respond (.setWeight rule weight)).2.Alike
        (second.respond (.setWeight rule weight)).2 := by
  obtain ⟨store, atoms, folder, cancelled⟩ := alike
  obtain ⟨pool, traffic, rest, same⟩ := store.varies
  have otherSame := PagedStore.setWeight_vary first.store first.store.settings.cachePages
    first.store.recent pool traffic rule weight
  rw [← rest] at otherSame
  simp only [respond, otherSame]
  rcases first.store.setWeight_cases rule weight with ⟨fault, refused⟩ | ⟨-, -, reweighed⟩
  · rw [refused]
    exact ⟨rfl, store, atoms, folder, cancelled⟩
  · rw [reweighed]
    exact ⟨rfl, ⟨_, traffic, rfl, same.mapLive _⟩, atoms, folder, cancelled⟩

theorem Alike.clear (alike : first.Alike second) :
    (first.respond .clear).1 = (second.respond .clear).1 ∧
      (first.respond .clear).2.Alike (second.respond .clear).2 := by
  obtain ⟨store, atoms, folder, cancelled⟩ := alike
  obtain ⟨pool, traffic, rest, same⟩ := store.varies
  have otherSame := PagedStore.clear_vary first.store first.store.settings.cachePages
    first.store.recent pool traffic first.folder
  rw [← rest] at otherSame
  simp only [respond, folder, otherSame]
  rcases first.store.clear_cases first.folder with
    ⟨-, fault, refused⟩ | ⟨-, ⟨fault, left, -, refused⟩ | ⟨left, -, cleared⟩⟩
  · rw [refused]
    exact ⟨rfl, store, atoms, rfl, cancelled⟩
  · rw [refused]
    exact ⟨rfl, store, atoms, rfl, cancelled⟩
  · rw [cleared]
    exact ⟨rfl, ⟨_, traffic, rfl, TermPool.alike_clear same.capacity⟩, atoms, rfl, cancelled⟩

theorem Alike.close (alike : first.Alike second) :
    (first.respond .close).1 = (second.respond .close).1 ∧
      (first.respond .close).2.Alike (second.respond .close).2 := by
  obtain ⟨store, atoms, folder, cancelled⟩ := alike
  obtain ⟨pool, traffic, rest, same⟩ := store.varies
  have outcome := PagedStore.close_vary first.store first.store.settings.cachePages
    first.store.recent pool traffic first.folder
  rw [← rest] at outcome
  simp only [respond, folder]
  rcases outcome with ⟨kept, otherSame⟩ | ⟨-, settings, recent, emptied, otherSame⟩
  · rw [kept, otherSame]
    exact ⟨rfl, store, atoms, rfl, cancelled⟩
  · rw [otherSame]
    have varies : PagedStore.Varies first.store.settings.cachePages first.store.recent.clear
        (first.store.close first.folder).2.1
        ((first.store.close first.folder).2.1.vary first.store.settings.cachePages
          first.store.recent.clear pool.clear traffic) :=
      ⟨pool.clear, traffic, rfl, emptied ▸ TermPool.alike_clear same.capacity⟩
    have alike := varies.alike (congrArg (·.cachePages) settings.symm) recent.symm
    exact ⟨rfl, alike, atoms, rfl, cancelled⟩

theorem Alike.beginSweep (alike : first.Alike second) :
    (first.respond .beginSweep).1 = (second.respond .beginSweep).1 ∧
      (first.respond .beginSweep).2.Alike (second.respond .beginSweep).2 := by
  obtain ⟨store, atoms, folder, cancelled⟩ := alike
  obtain ⟨pool, traffic, rest, same⟩ := store.varies
  have otherSame := PagedStore.beginSweep_vary first.store first.store.settings.cachePages
    first.store.recent pool traffic
  rw [← rest] at otherSame
  simp only [respond, otherSame]
  cases begun : first.store.beginSweep with
  | error fault => exact ⟨rfl, store, atoms, folder, cancelled⟩
  | ok after =>
      obtain ⟨-, pages, generator, rfl, -⟩ := PagedStore.beginSweep_ok begun
      exact ⟨rfl, ⟨pool, traffic, rfl, same⟩, atoms, folder, cancelled⟩

theorem Alike.nextTerm (alike : first.Alike second) :
    (first.respond .nextTerm).1 = (second.respond .nextTerm).1 ∧
      (first.respond .nextTerm).2.Alike (second.respond .nextTerm).2 := by
  obtain ⟨store, atoms, folder, cancelled⟩ := alike
  obtain ⟨answers, after⟩ := store.nextTerm first.cancelled first.folder
  simp only [respond, cancelled, folder]
  rw [answers]
  exact ⟨rfl, after, atoms, rfl, rfl⟩

/-- A grounding pass only adds terms and seals the store. -/
theorem alike_bisimulation :
    Grounding.Bisimulation (fun _ first second => Alike first second) fun _ => True where
  cancelled _ _ _ alike := alike.cancelled.symm
  pageSizes _ _ _ alike := by
    obtain ⟨pool, traffic, rest, -⟩ := alike.store
    rw [rest]
  setToken _ _ _ cancelled alike := { alike with cancelled := rfl }
  finish _ _ _ alike := alike.finish
  add _ _ _ term alike _ := alike.add term

/-- Whatever is asked of sessions that are alike, they answer alike and stay alike. -/
theorem Alike.respond (alike : first.Alike second) (call : PagedCall) :
    (first.respond call).1 = (second.respond call).1 ∧
      (first.respond call).2.Alike (second.respond call).2 := by
  cases call with
  | add term => exact alike.add term
  | finish => exact alike.finish
  | setWeight rule weight => exact alike.setWeight rule weight
  | clear => exact alike.clear
  | close => exact alike.close
  | beginSweep => exact alike.beginSweep
  | nextTerm => exact alike.nextTerm
  | ground source steps =>
      let pass := Grounding.start first.store first.atoms first.folder source first.cancelled
      let otherPass :=
        Grounding.start second.store second.atoms second.folder source second.cancelled
      have start : pass.session.Alike otherPass.session := alike
      obtain ⟨answers, after⟩ := @Grounding.Bisimulation.trace _ _ pass otherPass []
        alike_bisimulation steps start rfl rfl fun _ _ _ _ => trivial
      exact ⟨congrArg PagedAnswer.grounded answers, after⟩
  | setToken cancelled => exact ⟨rfl, { alike with cancelled := rfl }⟩
  | changeAtoms change =>
      exact ⟨rfl, { alike with atoms := congrArg (·.change change) alike.atoms }⟩
  | changeFolder folder => exact ⟨rfl, { alike with folder := rfl }⟩

theorem Alike.performAll (alike : first.Alike second) (calls : List PagedCall) :
    (performAll PagedSession.respond first calls).1 =
        (performAll PagedSession.respond second calls).1 ∧
      (performAll PagedSession.respond first calls).2.Alike
        (performAll PagedSession.respond second calls).2 := by
  have step (first second : PagedSession) (call : PagedCall) (alike : first.Alike second)
      (_ : True) := alike.respond call
  exact performAll_alike step alike (throughout_true _ _ calls)

end PagedSession

end HingeLoss
