import HingeLoss.Proofs.Paged.Resume

/-! Which calls come to a page file under a fired token. -/

namespace HingeLoss

/-- Whether a call may remove page files, or is somebody else's change of the folder. -/
def PagedCall.disposes : PagedCall → Bool
  | .clear => true
  | .close => true
  | .changeFolder _ => true
  | _ => false

namespace PagedSession

/-- The same session with another folder. -/
def withFolder (session : PagedSession) (folder : FoundFolder) : PagedSession :=
  { session with folder }

@[simp] theorem cancelled_withFolder (session : PagedSession) (folder : FoundFolder) :
    (session.withFolder folder).cancelled = session.cancelled := rfl

/-- A call that reads and writes no page file: it is answered alike whatever the folder holds,
leaves the folder as it is, and no page is counted as read, written or found in memory. -/
structure Spares (session : PagedSession) (call : PagedCall) : Prop where
  apart : ∀ folder, (session.withFolder folder).respond call =
    ((session.respond call).1, (session.respond call).2.withFolder folder)
  uncounted : (session.respond call).2.store.traffic = session.store.traffic

/-- Whether a call comes to write the pending page: an addition that needs room, or the sealing. -/
def flushes (session : PagedSession) : PagedCall → Bool
  | .add term =>
      session.store.phase == .grounding && (session.atoms.checkAll term.atoms).isOk &&
        session.store.needsFlush term.encodedLength && !session.store.pool.isEmpty
  | .finish => session.store.phase == .grounding && !session.store.pool.isEmpty
  | _ => false

/-- A call that saves the pending terms as the next page and counts the page if it could be saved.
-/
structure Saves (session : PagedSession) (call : PagedCall) : Prop where
  folder : (session.respond call).2.folder =
    (Page.save session.store.directory session.store.pageSizes.size session.store.pool.terms
      session.folder).2
  traffic : (session.respond call).2.store.traffic =
    match (Page.save session.store.directory session.store.pageSizes.size session.store.pool.terms
      session.folder).1 with
    | .ok bytes => session.store.traffic.recordWrite bytes
    | .error _ => session.store.traffic

end PagedSession

namespace PagedStore

variable (store : PagedStore) (term : Term Single) (atoms : AtomStore Single)

theorem append_traffic : (store.append term atoms).2.1.traffic = store.traffic := by
  unfold append
  generalize store.components.insert store.termCount term atoms = inserted
  obtain ⟨_ | _, _, _⟩ := inserted
  · rfl
  · dsimp only
    split <;> rfl

/-- Without pending terms nothing is flushed, so the folder does not matter. -/
theorem flush_of_isEmpty (empty : store.pool.isEmpty = true) (folder : FoundFolder) :
    store.flush folder = (.ok store, folder) := by
  rw [flush, if_pos empty]

/-- An addition that has nothing to flush does not look at the folder. -/
theorem add_apart
    (empty : store.phase = .grounding → (atoms.checkAll term.atoms).isOk = true →
      store.needsFlush term.encodedLength = true → store.pool.isEmpty = true) :
    ∃ answer after joined, after.traffic = store.traffic ∧
      ∀ folder, store.add term atoms folder = (answer, after, joined, folder) := by
  unfold add
  cases phase : store.phase with
  | ready => exact ⟨_, _, _, rfl, fun _ => rfl⟩
  | closed => exact ⟨_, _, _, rfl, fun _ => rfl⟩
  | grounding =>
      dsimp only
      cases checked : atoms.checkAll term.atoms with
      | error fault => exact ⟨_, _, _, rfl, fun _ => rfl⟩
      | ok _ =>
          have appended := store.append_traffic term atoms
          cases needs : store.needsFlush term.encodedLength with
          | false => exact ⟨_, _, _, appended, fun _ => rfl⟩
          | true =>
              have empty := empty phase (by rw [checked]; rfl) needs
              refine ⟨(store.append term atoms).1, _, (store.append term atoms).2.2, appended,
                fun folder => ?_⟩
              rw [if_pos rfl, store.flush_of_isEmpty empty folder]

/-- A sealing that has nothing to flush does not look at the folder. -/
theorem finish_apart (empty : store.phase = .grounding → store.pool.isEmpty = true) :
    ∃ outcome : Except (StoreFault Single) PagedStore,
      (∀ after, outcome = .ok after → after.traffic = store.traffic) ∧
      ∀ folder, store.finish folder = (outcome, folder) := by
  unfold finish
  cases phase : store.phase with
  | ready => exact ⟨.ok store, fun _ same => by cases same; rfl, fun _ => rfl⟩
  | closed => exact ⟨.error _, nofun, fun _ => rfl⟩
  | grounding =>
      have empty := empty phase
      refine ⟨.ok { store with phase := .ready, cursor := .finished },
        fun _ same => by cases same; rfl, fun folder => ?_⟩
      dsimp only
      rw [store.flush_of_isEmpty empty folder]

theorem lend_traffic : store.lend.2.traffic = store.traffic := by
  unfold lend
  split
  · rfl
  · dsimp only
    split <;> rfl

/-- Once the token has fired no page is entered. -/
theorem nextTerm_apart :
    ∃ answer after, after.traffic = store.traffic ∧
      ∀ folder, store.nextTerm true folder = (answer, after) := by
  unfold nextTerm
  cases store.ensureReady with
  | error fault => exact ⟨_, _, rfl, fun _ => rfl⟩
  | ok _ =>
      dsimp only
      cases store.cursor.terms.isEmpty with
      | false => exact ⟨_, _, store.lend_traffic, fun _ => rfl⟩
      | true =>
          refine ⟨.ok none, store, rfl, fun folder => ?_⟩
          cases store.cursor.pages <;> rfl

end PagedStore

namespace Grounding

variable {pass : Grounding}

/-- A step that sees the token is the last one and does nothing. -/
theorem next_heard (fired : pass.cancelled = true) :
    ∃ after, pass.next = (.ok none, after) ∧ after.session = pass.session := by
  unfold next
  cases pass.finished with
  | true => exact ⟨_, rfl, rfl⟩
  | false =>
      rw [fired]
      exact ⟨_, rfl, congrArg (PagedSession.mk _ _ _) fired.symm⟩

/-- However many steps are asked for, a pass that sees the token does nothing. -/
theorem idle_of_heard (pass : Grounding) (fired : pass.cancelled = true) (steps : Nat) :
    ((trace steps pass).1 = [] ∧ (trace steps pass).2.session = pass.session) ∧
      (run steps pass).1 = .ok 0 ∧ (run steps pass).2.session = pass.session := by
  cases steps with
  | zero => exact ⟨⟨rfl, rfl⟩, rfl, rfl⟩
  | succ steps =>
      obtain ⟨after, stepped, same⟩ := next_heard fired
      simp only [trace, run, stepped]
      exact ⟨⟨trivial, same⟩, trivial, same⟩

/-- The item while which the token fires is still dealt with, as if the token had fired before. -/
theorem next_fires (running : pass.finished = false) (atRest : pass.cancelled = false)
    {item : SourceItem} {later : List SourceItem} (split : pass.source = item :: later)
    (fires : item.fires = true) :
    pass.next.2.session = match item.term with
      | .error _ => pass.session.withToken true
      | .ok term => ((pass.session.withToken true).respond (.add term)).2 := by
  obtain ⟨store, atoms, folder, source, cancelled, finished, stopped⟩ := pass
  dsimp only at running atRest split
  subst running atRest split
  simp only [next, Bool.false_eq_true, if_false, Bool.false_or, fires]
  cases item.term with
  | error fault => rfl
  | ok term =>
      simp only [PagedSession.respond, PagedSession.withToken, session]
      generalize store.add term atoms folder = added
      obtain ⟨_ | id, after, joined, left⟩ := added <;> rfl

end Grounding

namespace PagedSession

variable {session : PagedSession}

/-- The token stays fired until it is reset. -/
theorem respond_cancelled (fired : session.cancelled = true) {call : PagedCall}
    (unreset : call ≠ .setToken false) : (session.respond call).2.cancelled = true := by
  cases call with
  | add term => exact fired
  | finish =>
      simp only [respond]
      generalize session.store.finish session.folder = sealing
      obtain ⟨_ | _, _⟩ := sealing <;> exact fired
  | setWeight rule weight =>
      simp only [respond]
      cases session.store.setWeight rule weight <;> exact fired
  | clear =>
      simp only [respond]
      generalize session.store.clear session.folder = clearing
      obtain ⟨_ | _, _⟩ := clearing <;> exact fired
  | close => exact fired
  | beginSweep =>
      simp only [respond]
      cases session.store.beginSweep <;> exact fired
  | nextTerm => exact fired
  | ground source steps =>
      have same := (Grounding.idle_of_heard (.start session.store session.atoms session.folder
        source session.cancelled) fired steps).1.2
      exact (congrArg PagedSession.cancelled same).trans fired
  | setToken cancelled =>
      cases cancelled with
      | true => rfl
      | false => exact absurd rfl unreset
  | changeAtoms change => exact fired
  | changeFolder folder => exact fired

theorem spares_add {term : Term Single} (keeps : session.flushes (.add term) = false) :
    session.Spares (.add term) := by
  obtain ⟨answer, after, joined, uncounted, same⟩ :=
    session.store.add_apart term session.atoms (by simpa [flushes] using keeps)
  constructor
  · intro folder
    simp only [respond, withFolder, same]
  · simp only [respond, same, uncounted]

theorem spares_finish (keeps : session.flushes .finish = false) : session.Spares .finish := by
  obtain ⟨outcome, uncounted, same⟩ :=
    session.store.finish_apart (by simpa [flushes] using keeps)
  constructor
  · intro folder
    simp only [respond, withFolder, same]
    cases outcome <;> rfl
  · simp only [respond, same]
    cases outcome with
    | error fault => rfl
    | ok after => exact uncounted after rfl

theorem spares_setWeight (session : PagedSession) (rule : RuleId) (weight : Weight Single) :
    session.Spares (.setWeight rule weight) := by
  constructor
  · intro folder
    simp only [respond, withFolder]
    cases session.store.setWeight rule weight <;> rfl
  · simp only [respond]
    rcases session.store.setWeight_cases rule weight with ⟨fault, same⟩ | ⟨-, -, same⟩
    · rw [same]
    · rw [same]
      rfl

theorem spares_beginSweep (session : PagedSession) : session.Spares .beginSweep := by
  constructor
  · intro folder
    simp only [respond, withFolder]
    cases session.store.beginSweep <;> rfl
  · simp only [respond, PagedStore.beginSweep]
    cases session.store.ensureReady <;> rfl

theorem spares_nextTerm (fired : session.cancelled = true) : session.Spares .nextTerm := by
  obtain ⟨answer, after, uncounted, same⟩ := session.store.nextTerm_apart
  constructor
  · intro folder
    simp only [respond, withFolder, fired, same]
  · simp only [respond, fired, same, uncounted]

theorem spares_ground (fired : session.cancelled = true) (source : List SourceItem)
    (steps : Nat) : session.Spares (.ground source steps) := by
  have idle (folder : FoundFolder) := (Grounding.idle_of_heard (.start session.store
    session.atoms folder source session.cancelled) fired steps).1
  constructor
  · intro folder
    obtain ⟨answers, same⟩ := idle folder
    obtain ⟨ownAnswers, ownSame⟩ := idle session.folder
    simp only [respond, withFolder, answers, ownAnswers, same, ownSame]
    rfl
  · simp only [respond, (idle session.folder).2]
    rfl

/-- Once the token has fired, a call that does not flush the pending page spares the page files. -/
theorem spares_of_cancelled (fired : session.cancelled = true) {call : PagedCall}
    (keeps : session.flushes call = false) (stays : call.disposes = false) :
    session.Spares call := by
  cases call with
  | add term => exact spares_add keeps
  | finish => exact spares_finish keeps
  | setWeight rule weight => exact spares_setWeight session rule weight
  | clear => cases stays
  | close => cases stays
  | beginSweep => exact spares_beginSweep session
  | nextTerm => exact spares_nextTerm fired
  | ground source steps => exact spares_ground fired source steps
  | setToken cancelled => exact ⟨fun _ => rfl, rfl⟩
  | changeAtoms change => exact ⟨fun _ => rfl, rfl⟩
  | changeFolder folder => cases stays

/-- A call that flushes the pending page saves it. The token is not asked. -/
theorem saves_of_flushes {call : PagedCall} (flushing : session.flushes call = true) :
    session.Saves call := by
  cases call with
  | add term =>
      simp only [flushes, Bool.and_eq_true, beq_iff_eq, Bool.not_eq_true'] at flushing
      obtain ⟨⟨⟨grounding, isOk⟩, needs⟩, pending⟩ := flushing
      have checked : session.atoms.checkAll term.atoms = .ok () := by
        cases checked : session.atoms.checkAll term.atoms with
        | ok _ => rfl
        | error fault =>
            rw [checked] at isOk
            cases isOk
      rcases session.store.flush_cases session.folder with
        ⟨none, -⟩ | ⟨fault, left, saved, flushed⟩ | ⟨-, bytes, left, saved, flushed⟩
      · exact absurd (beq_iff_eq.mpr none) (Bool.eq_false_iff.mp pending)
      · constructor <;>
          simp only [respond, PagedStore.add, grounding, checked, needs, if_true, flushed, saved]
      · constructor <;>
          simp only [respond, PagedStore.add, grounding, checked, needs, if_true, flushed, saved,
            PagedStore.append_traffic]
  | finish =>
      simp only [flushes, Bool.and_eq_true, beq_iff_eq, Bool.not_eq_true'] at flushing
      obtain ⟨grounding, pending⟩ := flushing
      rcases session.store.flush_cases session.folder with
        ⟨none, -⟩ | ⟨fault, left, saved, flushed⟩ | ⟨-, bytes, left, saved, flushed⟩
      · exact absurd (beq_iff_eq.mpr none) (Bool.eq_false_iff.mp pending)
      · constructor <;> simp only [respond, PagedStore.finish, grounding, flushed, saved]
      · constructor <;> simp only [respond, PagedStore.finish, grounding, flushed, saved]
  | _ => cases flushing

/-- What a call may do to the page files of a session. -/
structure Contained (session : PagedSession) (call : PagedCall) : Prop where
  cancelled : session.cancelled = true
  spares : call.disposes = false → session.flushes call = false → session.Spares call
  saves : session.flushes call = true → session.Saves call

/-- Whatever is asked of a session until its token is reset, every call is contained. -/
theorem contained_throughout (fired : session.cancelled = true) {calls : List PagedCall}
    (unreset : ∀ call ∈ calls, call ≠ .setToken false) :
    Throughout respond Contained session calls := by
  induction calls generalizing session with
  | nil => trivial
  | cons call later inductionHypothesis =>
      rw [List.forall_mem_cons] at unreset
      have contained : session.Contained call :=
        ⟨fired, fun stays keeps => spares_of_cancelled fired keeps stays, saves_of_flushes⟩
      exact ⟨contained, inductionHypothesis (respond_cancelled fired unreset.1) unreset.2⟩

end PagedSession

/-- Once the token has fired, no call reads or writes a page file but an addition that needs room
and a sealing, which do not ask for the token. -/
theorem page_files_after_cancellation (session : PagedSession) (fired : session.cancelled = true) :
    (∀ calls, (∀ call ∈ calls, call ≠ .setToken false) →
        Throughout PagedSession.respond PagedSession.Contained session calls) ∧
      (∀ pass : Grounding, pass.session = session → ∀ steps,
        ((pass.trace steps).1 = [] ∧ (pass.trace steps).2.session = session) ∧
          (pass.run steps).1 = .ok 0 ∧ (pass.run steps).2.session = session) ∧
      ∀ (pass : Grounding) (item : SourceItem) (later : List SourceItem),
        pass.session = session.withToken false → pass.finished = false →
        pass.source = item :: later → item.fires = true →
          pass.next.2.session = match item.term with
            | .error _ => session
            | .ok term => (session.respond (.add term)).2 := by
  refine ⟨fun calls unreset => PagedSession.contained_throughout fired unreset, ?_, ?_⟩
  · rintro pass rfl steps
    exact pass.idle_of_heard fired steps
  · intro pass item later same running split fires
    have atRest : pass.cancelled = false := congrArg PagedSession.cancelled same
    have stepped := Grounding.next_fires running atRest split fires
    rw [same, PagedSession.withToken_withToken, PagedSession.withToken_self fired] at stepped
    exact stepped

/-- A store with room for one term on a page, one term that is pending, and a token that has fired.
-/
def cancelledSession : PagedSession :=
  (performAll PagedSession.respond (.opened (.sequential 1) (Path.ofText "pages") true (.ok []))
    [.changeAtoms (.register ⟨0, false⟩), .add ⟨⟨0⟩, .linear, .soft 1, 0, [⟨0⟩], [1]⟩,
      .setToken true]).2

/-- Additions, a request and a clearing under the fired token; a pass that sees it; and a pass that
adds the item while which it fires. -/
theorem page_files_after_cancellation_sample :
    let term : Term Single := ⟨⟨0⟩, .linear, .soft 1, 0, [⟨0⟩], [1]⟩
    let source : List SourceItem := [⟨.ok term, true⟩, ⟨.ok term, false⟩]
    let pass := Grounding.start cancelledSession.store cancelledSession.atoms
      cancelledSession.folder source
    Throughout PagedSession.respond PagedSession.Contained cancelledSession
        [.add term, .nextTerm, .clear, .add term, .finish] ∧
      ((pass true).run 3).2.session = cancelledSession ∧
      (pass false).next.2.session = (cancelledSession.respond (.add term)).2 := by
  intro term source pass
  have fired : cancelledSession.cancelled = true := by decide +kernel
  obtain ⟨contained, idle, fires⟩ := page_files_after_cancellation cancelledSession fired
  exact ⟨contained _ (by simp), (idle (pass true) (PagedSession.withToken_self fired) 3).2.2,
    fires (pass false) ⟨.ok term, true⟩ [⟨.ok term, false⟩] rfl rfl rfl rfl⟩

/-- The names of the files of a folder. -/
def fileNames (folder : FoundFolder) : List String := (folder.entries.toOption.getD []).names

/-- An addition, a sealing and an item while which the token fires write a page although the token
has fired. -/
theorem page_written_after_cancellation :
    let term : Term Single := ⟨⟨0⟩, .linear, .soft 1, 0, [⟨0⟩], [1]⟩
    let added := (cancelledSession.respond (.add term)).2
    let sealed := (cancelledSession.respond .finish).2
    let cut := ((cancelledSession.withToken false).ground [⟨.ok term, true⟩]).2
    cancelledSession.cancelled = true ∧ fileNames cancelledSession.folder = [] ∧
      (added.cancelled = true ∧ fileNames added.folder = ["page-000000.bin"] ∧
        added.store.traffic.pagesWritten = 1) ∧
      (sealed.cancelled = true ∧ fileNames sealed.folder = ["page-000000.bin"] ∧
        sealed.store.traffic.pagesWritten = 1) ∧
      cut.stopped = true ∧ fileNames cut.folder = ["page-000000.bin"] ∧
        cut.store.traffic.pagesWritten = 1 := by
  decide +kernel

end HingeLoss
