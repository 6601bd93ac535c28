import HingeLoss.Proofs.Paged.Cancelled

/-! Closed stores refuse everything but another closing. -/

namespace HingeLoss

/-- The answers of the steps of a pass into a closed store, and the token as the items leave it. An
item whose term could be made is refused, and so is the sealing at the end of the source. -/
def SourceItem.refused : Nat → Bool → List SourceItem →
    List (Except (StoreFault Single) (Term Single × Nat)) × Bool
  | 0, cancelled, _ => ([], cancelled)
  | _ + 1, true, _ => ([], true)
  | _ + 1, false, [] => ([.error (.misuse (.onClosed .paged .seal))], false)
  | steps + 1, false, item :: later =>
      let fault := match item.term with
        | .error fault => fault
        | .ok _ => .misuse (.onClosed .paged .add)
      let (answers, cancelled) := refused steps item.fires later
      (.error fault :: answers, cancelled)

theorem SourceItem.added_refused (steps : Nat) (cancelled : Bool) (source : List SourceItem) :
    SourceItem.added source (refused steps cancelled source).1 = [] := by
  induction steps generalizing cancelled source with
  | zero => simp [refused, added]
  | succ steps inductionHypothesis =>
      cases cancelled with
      | true => simp [refused, added]
      | false =>
          cases source with
          | nil => rfl
          | cons item later => exact inductionHypothesis item.fires later

/-- What a closed paged store answers. -/
def PagedCall.refused (cancelled : Bool) : PagedCall → PagedAnswer
  | .add _ => .added (.error (.misuse (.onClosed .paged .add)))
  | .finish => .done (.error (.misuse (.onClosed .paged .seal)))
  | .setWeight _ _ => .reweighed (.error (.misuse (.onClosed .paged .setWeight)))
  | .clear => .done (.error (.misuse (.onClosed .paged .clear)))
  | .beginSweep => .done (.error (.misuse (.readWhenClosed .paged)))
  | .nextTerm => .lent (.error (.misuse (.readWhenClosed .paged)))
  | .ground source steps => .grounded (SourceItem.refused steps cancelled source).1
  | .close | .setToken _ | .changeAtoms _ | .changeFolder _ => .done (.ok ())

/-- A closed resident store. -/
def ResidentStore.closed {α : Type} : ResidentStore α := ⟨#[], .empty, ∅, .closed⟩

/-- What a closed resident store answers. -/
def ResidentCall.refused {α : Type} : ResidentCall α → ResidentAnswer α
  | .add _ => .added (.error (.misuse (.onClosed .resident .add)))
  | .finish => .done (.error (.misuse (.onClosed .resident .seal)))
  | .setWeight _ _ => .reweighed (.error (.misuse (.onClosed .resident .setWeight)))
  | .clear => .done (.error (.misuse (.onClosed .resident .clear)))
  | .get _ => .found (.error (.misuse (.onClosed .resident .get)))
  | .sweep _ _ => .swept (.error (.misuse (.readWhenClosed .resident)))
  | .close | .changeAtoms _ => .done (.ok ())

namespace Grounding

/-- A pass that has ended takes no step. -/
theorem trace_finished {pass : Grounding} (finished : pass.finished = true) (steps : Nat) :
    trace steps pass = ([], pass) := by
  cases steps with
  | zero => rfl
  | succ steps => simp only [trace, next, finished, if_true]

/-- Whatever the source yields, a pass into a closed store lends nothing and changes the token at
most. -/
theorem trace_closed {pass : Grounding} (closed : pass.store.phase = .closed)
    (running : pass.finished = false) (steps : Nat) :
    (trace steps pass).1 = (SourceItem.refused steps pass.cancelled pass.source).1 ∧
      (trace steps pass).2.session =
        pass.session.withToken (SourceItem.refused steps pass.cancelled pass.source).2 := by
  induction steps generalizing pass with
  | zero => exact ⟨rfl, rfl⟩
  | succ steps inductionHypothesis =>
      obtain ⟨store, atoms, folder, source, cancelled, finished, stopped⟩ := pass
      dsimp only at closed running
      subst running
      cases cancelled with
      | true => exact ⟨rfl, rfl⟩
      | false =>
          cases source with
          | nil =>
              simp only [trace, next, PagedStore.finish, closed, Bool.false_eq_true, if_false]
              rw [trace_finished rfl]
              exact ⟨rfl, rfl⟩
          | cons item later =>
              have pulled := @inductionHypothesis
                ⟨store, atoms, folder, later, item.fires, false, stopped⟩ closed rfl
              simp only [trace, next, PagedStore.add, closed, Bool.false_eq_true, if_false,
                Bool.false_or, SourceItem.refused]
              cases item.term with
              | error fault => exact ⟨congrArg _ pulled.1, pulled.2⟩
              | ok term => exact ⟨congrArg _ pulled.1, pulled.2⟩

end Grounding

namespace PagedSession

/-- A session after a call to its closed store: what others change is changed, and the items of a
pass may have fired the token. -/
def beside (session : PagedSession) : PagedCall → PagedSession
  | .ground source steps =>
      session.withToken (SourceItem.refused steps session.cancelled source).2
  | .setToken cancelled => session.withToken cancelled
  | .changeAtoms change => { session with atoms := session.atoms.change change }
  | .changeFolder folder => session.withFolder folder
  | _ => session

@[simp] theorem store_beside (session : PagedSession) (call : PagedCall) :
    (session.beside call).store = session.store := by
  cases call <;> rfl

/-- A closed store refuses everything but another closing, and stays as it is. -/
theorem respond_closed {session : PagedSession} (closed : session.store.phase = .closed)
    (call : PagedCall) :
    session.respond call = (call.refused session.cancelled, session.beside call) := by
  cases call with
  | add term => simp only [respond, PagedStore.add, closed]; rfl
  | finish => simp only [respond, PagedStore.finish, closed]; rfl
  | setWeight rule weight => simp only [respond, PagedStore.setWeight, closed]; rfl
  | clear => simp only [respond, PagedStore.clear, closed]; rfl
  | close => simp only [respond, PagedStore.close, closed]; rfl
  | beginSweep =>
      simp only [respond, PagedStore.beginSweep, PagedStore.ensureReady, closed]
      rfl
  | nextTerm =>
      simp only [respond, PagedStore.nextTerm, PagedStore.ensureReady, closed]
      rfl
  | ground source steps =>
      obtain ⟨answers, after⟩ := @Grounding.trace_closed
        (.start session.store session.atoms session.folder source session.cancelled) closed rfl
        steps
      simp only [respond, answers, after]
      rfl
  | setToken cancelled => rfl
  | changeAtoms change => rfl
  | changeFolder folder => rfl

/-- The folder is looked at by nobody, unless somebody else changes it. -/
theorem spares_closed {session : PagedSession} (closed : session.store.phase = .closed)
    {call : PagedCall} (own : ∀ folder, call ≠ .changeFolder folder) : session.Spares call := by
  constructor
  · intro folder
    have elsewhere : (session.withFolder folder).store.phase = .closed := closed
    rw [respond_closed closed, respond_closed elsewhere]
    cases call with
    | changeFolder changed => exact absurd rfl (own changed)
    | _ => rfl
  · rw [respond_closed closed]
    exact congrArg PagedStore.traffic (session.store_beside call)

/-- A call to a closed store: the store stays as it is, everything is refused but another closing,
and no page file is looked at. -/
structure Refuses (store : PagedStore) (session : PagedSession) (call : PagedCall) : Prop where
  same : session.store = store
  answered : session.respond call = (call.refused session.cancelled, session.beside call)
  spares : (∀ folder, call ≠ .changeFolder folder) → session.Spares call

theorem refuses_throughout {session : PagedSession} (closed : session.store.phase = .closed)
    (calls : List PagedCall) : Throughout respond (Refuses session.store) session calls := by
  generalize held : session.store = store
  induction calls generalizing session with
  | nil => trivial
  | cons call later inductionHypothesis =>
      have after : (session.respond call).2.store = session.store := by
        rw [respond_closed closed]
        exact session.store_beside call
      exact ⟨⟨held, respond_closed closed call, spares_closed closed⟩,
        inductionHypothesis (after ▸ closed) (after.trans held)⟩

end PagedSession

namespace PagedStore

/-- A store that holds nothing any more. -/
structure Vacated (store : PagedStore) : Prop where
  pageSizes : store.pageSizes = #[]
  pending : store.pool.count = 0
  recent : store.recent.pages = []
  counts : store.counts = ∅
  components : store.components = .empty

end PagedStore

namespace PagedSession

variable {settings : Paging} {directory : Path} {owned : Bool} {folder : FoundFolder}
  {terms : List (Term Single)} {session : PagedSession}

theorem open_add (notClosed : session.store.phase ≠ .closed) (term : Term Single) :
    (session.respond (.add term)).2.store.phase ≠ .closed := by
  obtain ⟨_, _, _, _, _, _, _, changed⟩ :=
    session.store.add_changes term session.atoms session.folder
  simp only [respond]
  rw [changed]
  exact notClosed

theorem open_finish (notClosed : session.store.phase ≠ .closed) :
    (session.respond .finish).2.store.phase ≠ .closed := by
  simp only [respond]
  rcases session.store.finish_cases session.folder with
    ⟨fault, left, same, -⟩ | ⟨-, same⟩ | ⟨-, base, left, -, same⟩ <;> rw [same]
  · exact notClosed
  · exact notClosed
  · intro closed
    cases closed

/-- Only a closing closes a store. -/
theorem Kept.remains_open (kept : Kept settings directory owned terms session)
    (notClosed : session.store.phase ≠ .closed) {call : PagedCall} (other : call ≠ .close) :
    (session.respond call).2.store.phase ≠ .closed := by
  cases call with
  | add term => exact open_add notClosed term
  | finish => exact open_finish notClosed
  | setWeight rule weight =>
      simp only [PagedSession.respond]
      rcases session.store.setWeight_cases rule weight with ⟨fault, same⟩ | ⟨-, -, same⟩ <;>
        rw [same]
      · exact notClosed
      · exact notClosed
  | clear =>
      simp only [PagedSession.respond]
      rcases session.store.clear_cases session.folder with
        ⟨closed, -⟩ | ⟨-, ⟨fault, left, -, same⟩ | ⟨left, -, same⟩⟩
      · exact absurd closed notClosed
      · rw [same]
        exact notClosed
      · rw [same]
        intro closed
        cases closed
  | close => exact absurd rfl other
  | beginSweep =>
      simp only [PagedSession.respond]
      cases begun : session.store.beginSweep with
      | error fault => exact notClosed
      | ok store =>
          obtain ⟨ready, pages, generator, rfl, -⟩ := PagedStore.beginSweep_ok begun
          exact notClosed
  | nextTerm =>
      obtain ⟨pool, recent, traffic, cursor, generator, same, -⟩ :=
        session.store.nextTerm_keeps session.cancelled session.folder kept.consistent.whole
      simp only [PagedSession.respond, same]
      exact notClosed
  | ground source steps =>
      have traced := @Grounding.trace_keeps (fun _ => True)
        (.start session.store session.atoms session.folder source session.cancelled) terms
        (fun _ session => session.store.phase ≠ .closed) (fun _ _ _ kept => kept)
        (fun _ _ kept => open_finish kept) (fun _ _ term kept _ => open_add kept term) steps
        notClosed fun _ _ _ _ => trivial
      exact traced
  | setToken cancelled => exact notClosed
  | changeAtoms change => exact notClosed
  | changeFolder folder => exact notClosed

/-- The number of terms of the last round, which a store reports even when it is closed and holds
nothing any more. -/
structure Reports (settings : Paging) (directory : Path) (owned : Bool)
    (terms : List (Term Single)) (session : PagedSession) : Prop where
  kept : Kept settings directory owned terms session
  counted : session.store.termCount = terms.length
  vacated : session.store.phase = .closed → session.store.Vacated

theorem reports_opened (settings : Paging) (directory : Path) (owned : Bool)
    (folder : FoundFolder) :
    Reports settings directory owned [] (opened settings directory owned folder) where
  kept := kept_opened settings directory owned folder
  counted := rfl
  vacated := nofun

/-- A refused call is not noted. -/
theorem note_refused (terms : List (Term Single)) (cancelled : Bool) (call : PagedCall) :
    PagedCall.note terms call (call.refused cancelled) = terms := by
  cases call with
  | ground source steps =>
      simp only [PagedCall.note, PagedCall.refused, SourceItem.added_refused, List.append_nil]
  | _ => rfl

/-- A closing takes everything away but the number of terms. -/
theorem respond_close (session : PagedSession) (notClosed : session.store.phase ≠ .closed) :
    (session.respond .close).2.store.termCount = session.store.termCount ∧
      ((session.respond .close).2.store.phase = .closed →
        (session.respond .close).2.store.Vacated) := by
  simp only [respond]
  rcases session.store.close_cases session.folder with
    ⟨closed, -⟩ | ⟨-, ⟨fault, left, -, same⟩ | ⟨answer, left, same⟩⟩
  · exact absurd closed notClosed
  · rw [same]
    exact ⟨rfl, fun closed => absurd closed notClosed⟩
  · rw [same]
    exact ⟨rfl, fun _ => ⟨rfl, rfl, rfl, rfl, rfl⟩⟩

/-- A closing that succeeds leaves a closed store. -/
theorem closed_of_close {session : PagedSession}
    (succeeds : (session.respond .close).1 = .done (.ok ())) :
    (session.respond .close).2.store.phase = .closed := by
  simp only [respond] at succeeds ⊢
  rcases session.store.close_cases session.folder with
    ⟨closed, same⟩ | ⟨-, ⟨fault, left, -, same⟩ | ⟨answer, left, same⟩⟩
  · rw [same]
    exact closed
  · rw [same] at succeeds
    cases succeeds
  · rw [same]

/-- Whatever is asked, the number of terms is that of the round. -/
theorem Reports.respond (room : 0 < settings.pageTerms)
    (reports : Reports settings directory owned terms session) (call : PagedCall) :
    Reports settings directory owned (PagedCall.note terms call (session.respond call).1)
      (session.respond call).2 := by
  have kept := reports.kept.respond room call
  refine ⟨kept, ?_, ?_⟩
  · by_cases closed : session.store.phase = .closed
    · rw [respond_closed closed, note_refused, store_beside]
      exact reports.counted
    · by_cases closing : call = .close
      · subst closing
        exact (session.respond_close closed).1.trans reports.counted
      · exact (kept.tallied (reports.kept.remains_open closed closing)).counted
  · intro after
    by_cases closed : session.store.phase = .closed
    · rw [respond_closed closed, store_beside]
      exact reports.vacated closed
    · by_cases closing : call = .close
      · subst closing
        exact (session.respond_close closed).2 after
      · exact absurd after (reports.kept.remains_open closed closing)

theorem reports_performAll (settings : Paging) (directory : Path) (owned : Bool)
    (folder : FoundFolder) (room : 0 < settings.pageTerms) (calls : List PagedCall) :
    Reports settings directory owned
      (notes PagedCall.note [] calls
        (performAll PagedSession.respond (opened settings directory owned folder) calls).1)
      (performAll PagedSession.respond (opened settings directory owned folder) calls).2 := by
  have step (terms : List (Term Single)) (session : PagedSession) (call : PagedCall)
      (reports : Reports settings directory owned terms session) (_ : True) :=
    reports.respond room call
  exact performAll_keeps step (reports_opened settings directory owned folder)
    (throughout_true _ _ calls)

end PagedSession

namespace GroundingSession

variable {α : Type} [Scalar α]

/-- A call to a closed resident store: it has no terms and stays as it is, everything is refused but
another closing, and no session can be opened. -/
structure Refuses (session : GroundingSession α) (call : ResidentCall α) : Prop where
  same : session.store = .closed
  answered : (session.respond call).1 = call.refused
  stays : (session.respond call).2.store = .closed
  beside : (session.respond call).2.atoms =
    match call with
    | .changeAtoms change => session.atoms.change change
    | _ => session.atoms
  noSession : ofStore session.store session.atoms = .error (.misuse (.sessionIn .closed))

theorem refuses_closed {session : GroundingSession α} (closed : session.store = .closed)
    (call : ResidentCall α) : session.Refuses call := by
  obtain ⟨store, atoms⟩ := session
  dsimp only at closed
  subst closed
  exact {
    same := rfl
    answered := by cases call <;> rfl
    stays := by cases call <;> rfl
    beside := by cases call <;> rfl
    noSession := rfl }

theorem refuses_throughout {session : GroundingSession α} (closed : session.store = .closed)
    (calls : List (ResidentCall α)) : Throughout respond Refuses session calls := by
  induction calls generalizing session with
  | nil => trivial
  | cons call later inductionHypothesis =>
      have refuses := refuses_closed closed call
      exact ⟨refuses, inductionHypothesis refuses.stays⟩

end GroundingSession

/-- A closed store refuses everything but another closing and looks at no page file, and a paged one
goes on reporting the number of terms of its last round. -/
theorem closed_stores_refuse {α : Type} [Scalar α] (settings : Paging) (directory : Path)
    (owned : Bool) (folder : FoundFolder) (room : 0 < settings.pageTerms)
    (calls later : List PagedCall) (residentCalls residentLater : List (ResidentCall α)) :
    let run := performAll PagedSession.respond (.opened settings directory owned folder) calls
    let closed := (run.2.respond .close).2
    let kept := performAll GroundingSession.respond .opened residentCalls
    ((run.2.respond .close).1 = .done (.ok ()) →
        closed.store.phase = .closed ∧ closed.store.Vacated ∧
          closed.store.termCount = (notes PagedCall.note [] calls run.1).length ∧
          Throughout PagedSession.respond (PagedSession.Refuses closed.store) closed later) ∧
      (kept.2.respond .close).1 = .done (.ok ()) ∧
        Throughout GroundingSession.respond GroundingSession.Refuses (kept.2.respond .close).2
          residentLater := by
  intro run closed kept
  refine ⟨fun succeeds => ?_, rfl, GroundingSession.refuses_throughout rfl residentLater⟩
  have reports := PagedSession.reports_performAll settings directory owned folder room calls
  have phase : closed.store.phase = .closed := PagedSession.closed_of_close succeeds
  have after := reports.respond room .close
  exact ⟨phase, after.vacated phase, after.counted, PagedSession.refuses_throughout phase later⟩

/-- An atom and a term about it. -/
def oneTermCalls : List PagedCall :=
  [.changeAtoms (.register ⟨0, false⟩), .add ⟨⟨0⟩, .linear, .soft 1, 0, [⟨0⟩], [1]⟩]

theorem closed_stores_refuse_sample :
    let run := performAll PagedSession.respond
      (.opened (.sequential 3) (Path.ofText "pages") true (.ok [])) oneTermCalls
    let closed := (run.2.respond .close).2
    let kept := (performAll GroundingSession.respond (.opened : GroundingSession Single)
      [.changeAtoms (.register ⟨0, false⟩), .finish]).2
    (run.2.respond .close).1 = .done (.ok ()) ∧ closed.store.Vacated ∧
      Throughout PagedSession.respond (PagedSession.Refuses closed.store) closed
        [.nextTerm, .close, .ground [⟨.error (.misuse (.other "no term")), true⟩] 2, .clear] ∧
      Throughout GroundingSession.respond GroundingSession.Refuses (kept.respond .close).2
        [.clear, .close, .get 0] := by
  intro run closed kept
  have succeeds : (run.2.respond .close).1 = .done (.ok ()) := by decide +kernel
  obtain ⟨pagedRefuses, -, residentRefuses⟩ := closed_stores_refuse (.sequential 3)
    (Path.ofText "pages") true (.ok []) (by decide) oneTermCalls
    [.nextTerm, .close, .ground [⟨.error (.misuse (.other "no term")), true⟩] 2, .clear]
    [.changeAtoms (.register (⟨0, false⟩ : AtomRecord Single)), .finish] [.clear, .close, .get 0]
  obtain ⟨-, vacated, -, refuses⟩ := pagedRefuses succeeds
  exact ⟨succeeds, vacated, refuses, residentRefuses⟩

/-- A closed paged store reports the term that it had. -/
theorem closed_store_counts_terms :
    let run := performAll PagedSession.respond
      (.opened (.sequential 3) (Path.ofText "pages") true (.ok [])) oneTermCalls
    let closed := (run.2.respond .close).2
    (run.2.respond .close).1 = .done (.ok ()) ∧ closed.store.phase = .closed ∧
      closed.store.pageSizes = #[] ∧ closed.store.termCount = 1 := by
  decide +kernel

end HingeLoss
