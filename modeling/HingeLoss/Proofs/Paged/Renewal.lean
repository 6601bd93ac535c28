import HingeLoss.Proofs.Paged.Alike
import HingeLoss.Proofs.Store.Renewal

/-! A paged store that has been cleared next to a reset partition is as good as new. -/

namespace HingeLoss

namespace PagedStore

/-- An addition leaves the records of the atoms as they are. -/
theorem records_add (store : PagedStore) (term : Term Single) (atoms : AtomStore Single)
    (folder : FoundFolder) : (store.add term atoms folder).2.2.1.records = atoms.records := by
  rcases store.add_cases term atoms folder with ⟨fault, left, same, -⟩ | ⟨-, -, base, left, -, same⟩
  · rw [same]
  · have inserted := base.components.records_insert base.termCount term atoms
    rw [same]
    unfold append
    generalize base.components.insert base.termCount term atoms = outcome at inserted ⊢
    obtain ⟨_ | key, components, joined⟩ := outcome
    · exact inserted
    · dsimp only
      split <;> exact inserted

/-- A cleared store is a new one but for the slots of its pool and its counters. -/
theorem alike_emptied {settings : Paging} {directory : Path} {owned : Bool}
    {store : PagedStore}
    (framed : store.frame = ⟨settings, directory, owned, settings.pageTerms, settings.cachePages⟩) :
    (fresh settings directory owned).Alike store.emptied := by
  obtain ⟨rfl, rfl, rfl, poolCapacity, recentCapacity⟩ := Frame.mk.inj framed
  refine ⟨store.pool.clear, store.traffic, ?_, ?_⟩
  · simp [emptied, fresh, RecentPages.clear, recentCapacity]
  · exact ⟨by simp [fresh], poolCapacity⟩

end PagedStore

namespace PagedSession

variable {session : PagedSession}

/-- No call brings an invalid value. -/
theorem valid_respond (valid : session.atoms.Valid) (call : PagedCall) :
    (session.respond call).2.atoms.Valid := by
  have add (session : PagedSession) (term : Term Single) (valid : session.atoms.Valid) :
      (session.respond (.add term)).2.atoms.Valid := by
    have records := session.store.records_add term session.atoms session.folder
    unfold AtomStore.Valid
    simp only [respond, records]
    exact valid
  have finish (session : PagedSession) (valid : session.atoms.Valid) :
      (session.respond .finish).2.atoms.Valid := by
    simp only [respond]
    split <;> exact valid
  cases call with
  | add term => exact add session term valid
  | finish => exact finish session valid
  | setWeight rule weight =>
      simp only [respond]
      split <;> exact valid
  | clear =>
      simp only [respond]
      split <;> exact valid
  | close => exact valid
  | beginSweep =>
      simp only [respond]
      split <;> exact valid
  | nextTerm => exact valid
  | ground source steps =>
      let pass := Grounding.start session.store session.atoms session.folder source
        session.cancelled
      have start : pass.session.atoms.Valid := valid
      exact @Grounding.trace_keeps (fun _ => True) pass [] (fun _ session => session.atoms.Valid)
        (fun _ _ _ valid => valid) (fun _ session valid => finish session valid)
        (fun _ session term valid _ => add session term valid) steps start
        fun _ _ _ _ => trivial
  | setToken cancelled => exact valid
  | changeAtoms change => exact valid.change change
  | changeFolder folder => exact valid

theorem valid_performAll (settings : Paging) (directory : Path) (owned : Bool)
    (folder : FoundFolder) (calls : List PagedCall) :
    (performAll respond (opened settings directory owned folder) calls).2.atoms.Valid := by
  have step (session : PagedSession) (call : PagedCall) (valid : session.atoms.Valid) :=
    valid_respond valid call
  have noRecords : (opened settings directory owned folder).atoms.Valid := by
    simp [AtomStore.Valid, opened, AtomStore.empty]
  exact performAll_invariant step noRecords calls

/-- A session that is cleared has an emptied store, and its pages have been removed. -/
theorem performAll_clear_reset (cleared : (session.respond .clear).1 = .done (.ok ())) :
    session.store.phase ≠ .closed ∧ ∃ left,
      Page.removeAll session.store.directory (List.range session.store.pageSizes.size)
          session.folder = (.ok (), left) ∧
        (performAll respond session [.clear, .changeAtoms .resetPartition]).2 =
          ⟨session.store.emptied, session.atoms.resetPartition, left, session.cancelled⟩ := by
  simp only [performAll, respond] at cleared ⊢
  rcases session.store.clear_cases session.folder with
    ⟨-, fault, refused⟩ | ⟨notClosed, ⟨fault, left, -, refused⟩ | ⟨left, removed, same⟩⟩
  · rw [refused] at cleared
    cases cleared
  · rw [refused] at cleared
    cases cleared
  · rw [same]
    exact ⟨notClosed, left, removed, rfl⟩

end PagedSession

/-- A cleared store next to a reset partition answers every later call as one that was just opened
over the same folder, and it has removed nothing but its pages. -/
theorem clear_renews (settings : Paging) (directory : Path) (owned : Bool)
    (folder : FoundFolder) (room : 0 < settings.pageTerms) :
    (∀ history : List PagedCall,
      let before :=
        (performAll PagedSession.respond (.opened settings directory owned folder) history).2
      (before.respond .clear).1 = .done (.ok ()) →
      let renewed :=
        (performAll PagedSession.respond before [.clear, .changeAtoms .resetPartition]).2
      (∀ entries, before.folder.entries = .ok entries → ∃ rest : Folder,
        renewed.folder = before.folder.withEntries rest ∧ ∀ name, rest.get? name =
          if ∃ page < before.store.pageSizes.size, name = Page.fileName page then none
          else entries.get? name) ∧
      ∃ atoms, AtomStore.ofRecords before.atoms.records.toList = .ok atoms ∧
        ∀ calls : List PagedCall,
          let opened : PagedSession :=
            { store := .fresh settings directory owned
              atoms
              folder := renewed.folder
              cancelled := renewed.cancelled }
          let first := performAll PagedSession.respond opened calls
          let second := performAll PagedSession.respond renewed calls
          first.1 = second.1 ∧ ∃ pool traffic,
            second.2 = { first.2 with store := { first.2.store with pool, traffic } } ∧
              pool.terms = first.2.store.pool.terms ∧
              pool.capacity = first.2.store.pool.capacity) ∧
    ∀ history : List (ResidentCall Single),
      let before := (performAll GroundingSession.respond .opened history).2
      (before.respond .clear).1 = .done (.ok ()) →
      let renewed :=
        (performAll GroundingSession.respond before [.clear, .changeAtoms .resetPartition]).2
      ∃ atoms, AtomStore.ofRecords before.atoms.records.toList = .ok atoms ∧
        ∀ calls, performAll GroundingSession.respond renewed calls =
          performAll GroundingSession.respond ⟨.empty, atoms⟩ calls := by
  constructor
  · intro history before cleared renewed
    obtain ⟨notClosed, left, removed, same⟩ := PagedSession.performAll_clear_reset cleared
    have kept := PagedSession.kept_performAll settings directory owned folder room history
    obtain ⟨atoms, built⟩ :=
      (PagedSession.valid_performAll settings directory owned folder history).exists_ofRecords
    refine ⟨fun entries found => ?_, atoms, built, fun calls => ?_⟩
    · obtain ⟨rest, rfl, names⟩ := Page.removeAll_ok found removed
      refine ⟨rest, congrArg PagedSession.folder same, fun name => ?_⟩
      simpa using names name
    · intro opened first second
      have alike : opened.Alike renewed :=
        { store := by
            rw [congrArg PagedSession.store same]
            exact PagedStore.alike_emptied (kept.framed notClosed)
          atoms := (congrArg PagedSession.atoms same).trans (AtomStore.resetPartition_eq built)
          folder := rfl
          cancelled := rfl }
      obtain ⟨answers, ⟨pool, traffic, rest, terms, capacity⟩, sameAtoms, sameFolder, cancelled⟩ :=
        alike.performAll calls
      refine ⟨answers, pool, traffic, ?_, terms, capacity⟩
      rw [PagedSession.mk.injEq]
      exact ⟨rest, sameAtoms, sameFolder, cancelled⟩
  · intro history before cleared renewed
    obtain ⟨atoms, built⟩ := (GroundingSession.valid_performAll history).exists_ofRecords
    have same := GroundingSession.performAll_clear_reset cleared built
    exact ⟨atoms, built, fun calls => by rw [← same]⟩

/-- Two pages of one term. Before the store is cleared, a shuffled sweep is left after its first
term, and a rule takes another weight. -/
theorem clear_renews_sample :
    let term (rule : UInt32) : Term Single := ⟨⟨rule⟩, .linear, .soft 1, 0, [⟨0⟩], [1]⟩
    let settings : Paging := { pageTerms := 1, cachePages := 1 }
    let history : List PagedCall :=
      [.changeAtoms (.register ⟨0, false⟩), .add (term 0), .add (term 1), .finish, .beginSweep,
        .nextTerm, .setWeight ⟨1⟩ .hard]
    let calls : List PagedCall :=
      [.add (term 1), .add (term 2), .finish, .beginSweep, .nextTerm, .nextTerm, .nextTerm]
    let before := (performAll PagedSession.respond
      (.opened settings (Path.ofText "pages") true (.ok [])) history).2
    let renewed :=
      (performAll PagedSession.respond before [.clear, .changeAtoms .resetPartition]).2
    before.store.pageSizes = #[1, 1] ∧
      ∃ atoms, AtomStore.ofRecords before.atoms.records.toList = .ok atoms ∧
        (performAll PagedSession.respond
          ⟨.fresh settings (Path.ofText "pages") true, atoms, renewed.folder, false⟩ calls).1 =
            (performAll PagedSession.respond renewed calls).1 := by
  intro term settings history calls before renewed
  have cleared : (before.respond .clear).1 = .done (.ok ()) := by decide +kernel
  have quiet : renewed.cancelled = false := by decide +kernel
  obtain ⟨-, atoms, built, later⟩ :=
    (clear_renews settings (Path.ofText "pages") true (.ok []) (by decide)).1 history cleared
  have answers := (later calls).1
  rw [quiet] at answers
  exact ⟨by decide +kernel, atoms, built, answers⟩

end HingeLoss
