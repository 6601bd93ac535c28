import HingeLoss.Proofs.Paged.Indexed

/-! Nothing but a sweep asks for the cursor or for the pages in memory. -/

namespace HingeLoss

namespace PagedStore

variable (store : PagedStore)

@[simp] theorem phase_resting : store.resting.phase = store.phase := rfl

@[simp] theorem pool_resting : store.resting.pool = store.pool := rfl

@[simp] theorem directory_resting : store.resting.directory = store.directory := rfl

@[simp] theorem pageSizes_resting : store.resting.pageSizes = store.pageSizes := rfl

@[simp] theorem traffic_resting : store.resting.traffic = store.traffic := rfl

@[simp] theorem override_resting : store.resting.override = store.override := rfl

theorem flush_resting (folder : FoundFolder) :
    store.resting.flush folder =
      ((store.flush folder).1.map resting, (store.flush folder).2) := by
  by_cases empty : store.pool.isEmpty = true
  · have same : store.flush folder = (.ok store, folder) := if_pos empty
    have restingSame : store.resting.flush folder = (.ok store.resting, folder) := if_pos empty
    rw [same, restingSame]
    rfl
  · unfold flush
    rw [pool_resting, directory_resting, pageSizes_resting, if_neg empty, if_neg empty]
    generalize Page.save store.directory store.pageSizes.size store.pool.terms folder = saved
    obtain ⟨_ | bytes, left⟩ := saved <;> rfl

theorem append_resting (term : Term Single) (atoms : AtomStore Single) :
    store.resting.append term atoms =
      ((store.append term atoms).1, (store.append term atoms).2.1.resting,
        (store.append term atoms).2.2) := by
  have components : store.resting.components = store.components := rfl
  have termCount : store.resting.termCount = store.termCount := rfl
  simp only [append, pool_resting, components, termCount]
  generalize store.components.insert store.termCount term atoms = inserted
  obtain ⟨_ | key, components, joined⟩ := inserted
  · rfl
  · dsimp only
    cases store.pool.push term <;> rfl

theorem add_resting (term : Term Single) (atoms : AtomStore Single) (folder : FoundFolder) :
    store.resting.add term atoms folder =
      ((store.add term atoms folder).1, (store.add term atoms folder).2.1.resting,
        (store.add term atoms folder).2.2) := by
  have needs : store.resting.needsFlush term.encodedLength =
      store.needsFlush term.encodedLength := rfl
  simp only [add, phase_resting, needs, flush_resting, append_resting]
  cases store.phase with
  | ready => rfl
  | closed => rfl
  | grounding =>
      dsimp only
      cases atoms.checkAll term.atoms with
      | error fault => rfl
      | ok _ =>
          cases store.needsFlush term.encodedLength with
          | false => rfl
          | true =>
              simp only [if_true]
              generalize store.flush folder = flushed
              obtain ⟨_ | base, left⟩ := flushed
              · rfl
              · simp only [Except.map, append_resting]

theorem finish_resting (folder : FoundFolder) :
    store.resting.finish folder =
      ((store.finish folder).1.map resting, (store.finish folder).2) := by
  simp only [finish, phase_resting, flush_resting]
  cases store.phase with
  | ready => rfl
  | closed => rfl
  | grounding =>
      dsimp only
      generalize store.flush folder = flushed
      obtain ⟨_ | base, left⟩ := flushed <;> rfl

theorem setWeight_resting (rule : RuleId) (weight : Weight Single) :
    store.resting.setWeight rule weight =
      (store.setWeight rule weight).map fun outcome => (outcome.1, outcome.2.resting) := by
  simp only [setWeight, phase_resting]
  cases store.phase with
  | closed => rfl
  | _ => cases weight.validate rule <;> rfl

theorem clear_resting (folder : FoundFolder) :
    store.resting.clear folder =
      ((store.clear folder).1.map resting, (store.clear folder).2) := by
  simp only [clear, phase_resting, directory_resting, pageSizes_resting]
  cases store.phase with
  | closed => rfl
  | _ =>
      dsimp only
      generalize Page.removeAll store.directory (List.range store.pageSizes.size) folder = removed
      obtain ⟨_ | _, left⟩ := removed <;> rfl

theorem close_resting (folder : FoundFolder) :
    store.resting.close folder =
      ((store.close folder).1, (store.close folder).2.1.resting, (store.close folder).2.2) := by
  have owned : store.resting.owned = store.owned := rfl
  simp only [close, phase_resting, directory_resting, pageSizes_resting, owned]
  cases store.phase with
  | closed => rfl
  | _ =>
      dsimp only
      generalize Page.removeAll store.directory (List.range store.pageSizes.size) folder = removed
      obtain ⟨_ | _, left⟩ := removed
      · rfl
      · cases store.owned with
        | false => rfl
        | true => obtain ⟨_ | _, _, _⟩ := left <;> rfl

end PagedStore

namespace PagedSession

/-- The session with its store at rest. -/
def resting (session : PagedSession) : PagedSession :=
  { session with store := session.store.resting }

variable (session : PagedSession)

theorem add_resting (term : Term Single) :
    session.resting.respond (.add term) =
      ((session.respond (.add term)).1, (session.respond (.add term)).2.resting) := by
  simp only [respond, resting, PagedStore.add_resting]

theorem finish_resting :
    session.resting.respond .finish =
      ((session.respond .finish).1, (session.respond .finish).2.resting) := by
  simp only [respond, resting, PagedStore.finish_resting]
  generalize session.store.finish session.folder = sealing
  obtain ⟨_ | sealed, left⟩ := sealing <;> rfl

theorem resting_bisimulation :
    Grounding.Bisimulation (fun _ first second => second = first.resting) fun _ => True where
  cancelled := by rintro _ first _ rfl; rfl
  pageSizes := by rintro _ first _ rfl; rfl
  setToken := by rintro _ first _ cancelled rfl; rfl
  finish := by
    rintro _ first _ rfl
    rw [first.finish_resting]
    exact ⟨rfl, rfl⟩
  add := by
    rintro _ first _ term rfl -
    rw [first.add_resting]
    exact ⟨rfl, rfl⟩

/-- A call that is not about a sweep is answered alike at rest. -/
theorem respond_resting (call : PagedCall) (apart : call ≠ .beginSweep ∧ call ≠ .nextTerm) :
    session.resting.respond call =
      ((session.respond call).1, (session.respond call).2.resting) := by
  cases call with
  | add term => exact session.add_resting term
  | finish => exact session.finish_resting
  | setWeight rule weight =>
      simp only [respond, resting, PagedStore.setWeight_resting]
      cases session.store.setWeight rule weight <;> rfl
  | clear =>
      simp only [respond, resting, PagedStore.clear_resting]
      generalize session.store.clear session.folder = clearing
      obtain ⟨_ | cleared, left⟩ := clearing <;> rfl
  | close => simp only [respond, resting, PagedStore.close_resting]
  | beginSweep => exact absurd rfl apart.1
  | nextTerm => exact absurd rfl apart.2
  | ground source steps =>
      let pass :=
        Grounding.start session.store session.atoms session.folder source session.cancelled
      let restingPass := Grounding.start session.store.resting session.atoms session.folder source
        session.cancelled
      obtain ⟨answers, after⟩ := @Grounding.Bisimulation.trace _ _ pass restingPass []
        resting_bisimulation steps rfl rfl rfl fun _ _ _ _ => trivial
      exact Prod.ext (congrArg PagedAnswer.grounded answers.symm) after
  | setToken cancelled => rfl
  | changeAtoms change => rfl
  | changeFolder folder => rfl

end PagedSession

end HingeLoss
