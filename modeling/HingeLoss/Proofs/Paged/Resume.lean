import HingeLoss.Proofs.Paged.Intact
import HingeLoss.Proofs.Paged.Renewal

/-! The passes before and after a cancelled grounding make the calls of one pass between them. -/

namespace HingeLoss

/-- Whether an answer is no fault. -/
def PagedAnswer.granted : PagedAnswer → Bool
  | .added answer => answer.isOk
  | .done answer => answer.isOk
  | .reweighed answer => answer.isOk
  | .lent answer => answer.isOk
  | .grounded answers => answers.all (·.isOk)

/-- Whether an answer is the fault of a page that could not be saved. -/
def PagedAnswer.unsaved : PagedAnswer → Bool
  | .added answer => PagedStore.unsaved answer
  | .done answer => PagedStore.unsaved answer
  | .reweighed answer => PagedStore.unsaved answer
  | .lent answer => PagedStore.unsaved answer
  | .grounded answers => answers.any PagedStore.unsaved

/-- The calls that a grounding pass makes. -/
def PagedCall.grounds : PagedCall → Bool
  | .add _ => true
  | .finish => true
  | _ => false

namespace SourceItem

/-- The same item under a token that stays as it is. -/
def quiet (item : SourceItem) : SourceItem := { item with fires := false }

/-- How many items are pulled before the token is seen or the end is reached. The token is looked at
before an item is pulled, not while it is made. -/
def pulled : Bool → List SourceItem → Nat
  | true, _ => 0
  | false, [] => 0
  | false, item :: later => pulled item.fires later + 1

/-- Whether the token is seen before the end is reached. -/
def heard (cancelled : Bool) (source : List SourceItem) : Bool :=
  cancelled || source.any fires

/-- The calls of a pass over a source that yields the terms. -/
def calls (cancelled : Bool) (source : List SourceItem) (terms : List (Term Single)) :
    List PagedCall :=
  (terms.take (pulled cancelled source)).map .add ++
    if heard cancelled source then [] else [.finish]

theorem pulled_le (cancelled : Bool) (source : List SourceItem) :
    pulled cancelled source ≤ source.length := by
  induction source generalizing cancelled with
  | nil => cases cancelled <;> exact Nat.le_refl 0
  | cons item later inductionHypothesis =>
      cases cancelled with
      | true => exact Nat.zero_le _
      | false => exact Nat.succ_le_succ (inductionHypothesis item.fires)

/-- Without a token everything is pulled. -/
theorem pulled_of_not_heard {cancelled : Bool} {source : List SourceItem}
    (unheard : heard cancelled source = false) : pulled cancelled source = source.length := by
  induction source generalizing cancelled with
  | nil => cases cancelled <;> rfl
  | cons item later inductionHypothesis =>
      rw [heard, List.any_cons, Bool.or_eq_false_iff] at unheard
      obtain ⟨rfl, unheard⟩ := unheard
      exact congrArg (· + 1) (inductionHypothesis unheard)

theorem heard_quiet (source : List SourceItem) : heard false (source.map quiet) = false := by
  simp [heard, quiet]

theorem map_term_quiet (source : List SourceItem) :
    (source.map quiet).map term = source.map term := by
  rw [List.map_map]
  rfl

end SourceItem

namespace PagedSession

/-- Grounding of a source, up to its end, the token or the first fault. The answer is the number of
terms that were added. -/
def ground (session : PagedSession) (source : List SourceItem) :
    Except (StoreFault Single) Nat × Grounding :=
  let pass := Grounding.start session.store session.atoms session.folder source session.cancelled
  Grounding.run pass.stepBound pass

/-- The same session with the token fired or reset. -/
def withToken (session : PagedSession) (cancelled : Bool) : PagedSession :=
  { session with cancelled }

@[simp] theorem cancelled_withToken (session : PagedSession) (cancelled : Bool) :
    (session.withToken cancelled).cancelled = cancelled := rfl

@[simp] theorem withToken_withToken (session : PagedSession) (first second : Bool) :
    (session.withToken first).withToken second = session.withToken second := rfl

theorem withToken_self {session : PagedSession} {cancelled : Bool}
    (same : session.cancelled = cancelled) : session.withToken cancelled = session := by
  rw [← same]
  rfl

/-- Terms are added one by one and the store is sealed. -/
def addAndFinish (session : PagedSession) (terms : List (Term Single)) :
    List PagedAnswer × PagedSession :=
  performAll respond session (terms.map .add ++ [.finish])

/-- The calls of a pass do not look at the token. -/
theorem respond_withToken (session : PagedSession) (cancelled : Bool) {call : PagedCall}
    (grounds : call.grounds = true) :
    (session.withToken cancelled).respond call =
      ((session.respond call).1, (session.respond call).2.withToken cancelled) := by
  cases call with
  | add term => rfl
  | finish =>
      simp only [respond, withToken]
      generalize session.store.finish session.folder = sealing
      obtain ⟨_ | store, left⟩ := sealing <;> rfl
  | _ => cases grounds

theorem performAll_withToken (session : PagedSession) (cancelled : Bool) {calls : List PagedCall}
    (grounds : ∀ call ∈ calls, call.grounds = true) :
    performAll respond (session.withToken cancelled) calls =
      ((performAll respond session calls).1,
        (performAll respond session calls).2.withToken cancelled) := by
  induction calls generalizing session with
  | nil => rfl
  | cons call later inductionHypothesis =>
      rw [List.forall_mem_cons] at grounds
      rw [performAll_cons, performAll_cons, session.respond_withToken cancelled grounds.1,
        inductionHypothesis _ grounds.2]

theorem addAndFinish_cons (session : PagedSession) (term : Term Single)
    (later : List (Term Single)) :
    session.addAndFinish (term :: later) =
      ((session.respond (.add term)).1 :: ((session.respond (.add term)).2.addAndFinish later).1,
        ((session.respond (.add term)).2.addAndFinish later).2) := rfl

theorem addAndFinish_append (session : PagedSession) (first second : List (Term Single)) :
    session.addAndFinish (first ++ second) =
      ((performAll respond session (first.map .add)).1 ++
          ((performAll respond session (first.map .add)).2.addAndFinish second).1,
        ((performAll respond session (first.map .add)).2.addAndFinish second).2) := by
  rw [addAndFinish, List.map_append, List.append_assoc, performAll_append]
  rfl

theorem addAndFinish_withToken (session : PagedSession) (cancelled : Bool)
    (terms : List (Term Single)) :
    (session.withToken cancelled).addAndFinish terms =
      ((session.addAndFinish terms).1, (session.addAndFinish terms).2.withToken cancelled) :=
  session.performAll_withToken cancelled (by simp [PagedCall.grounds, or_imp, forall_and])

theorem grounds_calls (cancelled : Bool) (source : List SourceItem) (terms : List (Term Single)) :
    ∀ call ∈ SourceItem.calls cancelled source terms, call.grounds = true := by
  intro call member
  rcases List.mem_append.mp member with added | finished
  · obtain ⟨term, -, rfl⟩ := List.mem_map.mp added
    rfl
  · split at finished
    · cases finished
    · obtain rfl := List.mem_singleton.mp finished
      rfl

end PagedSession

namespace Grounding

open PagedSession

variable {pass : Grounding}

/-- A step with the token at rest and an item left adds the term of the item. -/
theorem next_adds (running : pass.finished = false) (atRest : pass.cancelled = false)
    {item : SourceItem} {later : List SourceItem} (split : pass.source = item :: later)
    {term : Term Single} (made : item.term = .ok term)
    (granted : (pass.session.respond (.add term)).1.granted = true) :
    ∃ after, pass.next = (.ok (some term), after) ∧
      after.session = (pass.session.respond (.add term)).2.withToken item.fires ∧
      after.source = later ∧ after.finished = false ∧ after.stopped = pass.stopped := by
  obtain ⟨store, atoms, folder, source, cancelled, finished, stopped⟩ := pass
  dsimp only at running atRest split
  subst running atRest split
  simp only [session, respond] at granted ⊢
  simp only [next, Bool.false_eq_true, if_false, made, Bool.false_or]
  have pooled (id : TermId) (added : (store.add term atoms folder).1 = .ok id) :=
    PagedStore.get?_pool_of_add added
  rcases added : store.add term atoms folder with ⟨_ | id, kept, joined, left⟩ <;>
    simp only [added] at granted pooled ⊢
  · cases granted
  · rw [pooled id rfl]
    exact ⟨_, rfl, rfl, rfl, rfl, rfl⟩

/-- A pass that sees the token ends with nothing done. -/
theorem run_heard (running : pass.finished = false) (fired : pass.cancelled = true) (bound : Nat) :
    run (bound + 1) pass = (.ok 0, { pass with finished := true, stopped := true }) := by
  simp [run, next, running, fired]

/-- A pass at the end of its source seals the store. -/
theorem run_seals (running : pass.finished = false) (atRest : pass.cancelled = false)
    (used : pass.source = []) (granted : (pass.session.respond .finish).1.granted = true)
    (bound : Nat) :
    ∃ last, run (bound + 1) pass = (.ok 0, last) ∧
      last.session = (pass.session.respond .finish).2.withToken false ∧
      last.source = [] ∧ last.stopped = pass.stopped := by
  obtain ⟨store, atoms, folder, source, cancelled, finished, stopped⟩ := pass
  dsimp only at running atRest used
  subst running atRest used
  simp only [session, respond] at granted ⊢
  simp only [run, next, Bool.false_eq_true, if_false]
  generalize store.finish folder = sealing at granted ⊢
  obtain ⟨_ | sealed, left⟩ := sealing
  · cases granted
  · exact ⟨_, rfl, rfl, rfl, rfl⟩

/-- A pass whose calls are granted makes them: it adds what it pulls and seals the store if it does
not see the token first. -/
theorem run_eq {terms : List (Term Single)} (running : pass.finished = false)
    (going : pass.stopped = false) (yields : pass.source.map SourceItem.term = terms.map .ok)
    (granted : ∀ answer ∈ (pass.session.addAndFinish terms).1, answer.granted = true) :
    ∃ last,
      run pass.stepBound pass = (.ok (SourceItem.pulled pass.cancelled pass.source), last) ∧
      last.source = pass.source.drop (SourceItem.pulled pass.cancelled pass.source) ∧
      last.stopped = SourceItem.heard pass.cancelled pass.source ∧
      last.session =
        (performAll respond pass.session
          (SourceItem.calls pass.cancelled pass.source terms)).2.withToken
            (SourceItem.heard pass.cancelled pass.source) := by
  rw [stepBound]
  -- on the source; the pass itself goes from step to step
  generalize source : pass.source = items at yields ⊢
  induction items generalizing pass terms with
  | nil =>
      obtain rfl := List.map_eq_nil_iff.mp yields.symm
      cases fired : pass.cancelled with
      | true =>
          exact ⟨_, run_heard running fired _, source, rfl, (withToken_self fired).symm⟩
      | false =>
          obtain ⟨last, ran, after, used, same⟩ :=
            run_seals running fired source (granted _ List.mem_cons_self) 0
          exact ⟨last, ran, used, same.trans going, after⟩
  | cons item later inductionHypothesis =>
      cases terms with
      | nil => cases yields
      | cons term rest =>
          rw [List.map_cons, List.map_cons, List.cons.injEq] at yields
          cases fired : pass.cancelled with
          | true =>
              exact ⟨_, run_heard running fired _, source, rfl, (withToken_self fired).symm⟩
          | false =>
              rw [addAndFinish_cons, List.forall_mem_cons] at granted
              obtain ⟨after, lent, stands, left, afterRunning, afterGoing⟩ :=
                next_adds running fired source yields.1 granted.1
              have token : after.cancelled = item.fires := congrArg PagedSession.cancelled stands
              obtain ⟨last, ran, used, stopped, same⟩ := inductionHypothesis
                afterRunning (afterGoing.trans going)
                (by
                  rw [stands, addAndFinish_withToken]
                  exact granted.2)
                left yields.2
              rw [token] at ran used stopped same
              rw [stands, performAll_withToken _ _ (grounds_calls item.fires later rest)] at same
              refine ⟨last, ?_, used, by simpa [SourceItem.heard] using stopped, ?_⟩
              · rw [List.length_cons, run, lent]
                simp only [ran]
                rfl
              · rw [same, withToken_withToken]
                rfl

end Grounding

/-- The terms that are on no page yet. The pool of a sealed store only serves its sweeps. -/
def PagedStore.unwritten (store : PagedStore) : List (Term Single) :=
  if store.phase = .grounding then store.pool.terms else []

namespace PagedSession

/-- The pages in the folder and then the pending terms are some terms in their order, under the
weights that were set last. -/
def Holds (session : PagedSession) (terms : List (Term Single)) : Prop :=
  ∃ pages, session.store.Shelved session.folder pages ∧
    (pages.flatten ++ session.store.unwritten).map session.store.override =
      terms.map session.store.override

variable {settings : Paging} {directory : Path} {owned : Bool}
  {terms before : List (Term Single)} {session : PagedSession}

theorem Stands.holds (stands : Stands settings directory owned terms session)
    (notClosed : session.store.phase ≠ .closed) : session.Holds terms := by
  obtain ⟨pages, intact⟩ := stands
  refine ⟨pages, intact.shelved, ?_⟩
  rw [PagedStore.unwritten]
  cases phase : session.store.phase with
  | grounding => exact intact.pending phase
  | ready => simpa using intact.written phase
  | closed => exact absurd phase notClosed

theorem Stands.termCount (stands : Stands settings directory owned terms session)
    (notClosed : session.store.phase ≠ .closed) : session.store.termCount = terms.length := by
  obtain ⟨pages, intact⟩ := stands
  exact (intact.kept.tallied notClosed).counted

theorem Kept.append_granted (kept : Kept settings directory owned before session)
    (grounding : session.store.phase = .grounding) (room : session.store.pool.isFull = false)
    {term : Term Single} (nonempty : term.atoms ≠ [])
    (inRange : ∀ atom ∈ term.atoms, atom.index < session.atoms.size) :
    (session.store.append term session.atoms).1 = .ok before.length ∧
      (session.store.append term session.atoms).2.1.phase = .grounding := by
  have tallied := kept.tallied (by simp [grounding])
  obtain ⟨_, _, _, _, _, appended⟩ := session.store.append_changes term session.atoms
  rw [appended, ← tallied.counted]
  exact ⟨PagedStore.append_answers room nonempty inRange, grounding⟩

/-- A term with atoms, all of which are there, is added by a store that is grounding and can save
its pages. -/
theorem Kept.add_granted (room : 0 < settings.pageTerms)
    (kept : Kept settings directory owned before session)
    (grounding : session.store.phase = .grounding) {term : Term Single}
    (nonempty : term.atoms ≠ [])
    (inRange : ∀ atom ∈ term.atoms, atom.index < session.atoms.size)
    (saved : (session.respond (.add term)).1.unsaved = false) :
    (session.respond (.add term)).1 = .added (.ok before.length) ∧
      (session.respond (.add term)).2.store.phase = .grounding := by
  have checked := AtomStore.checkAll_ok inRange
  simp only [PagedSession.respond, PagedStore.add, grounding, checked] at saved ⊢
  cases needs : session.store.needsFlush term.encodedLength with
  | false =>
      obtain ⟨added, phase⟩ := kept.append_granted grounding
        (PagedStore.isFull_of_not_needsFlush needs) nonempty inRange
      simp only [Bool.false_eq_true, if_false]
      exact ⟨congrArg _ added, phase⟩
  | true =>
      simp only [needs, if_true] at saved ⊢
      generalize flushed : session.store.flush session.folder = outcome at saved ⊢
      obtain ⟨fault | base, left⟩ := outcome
      · exact absurd (PagedStore.flush_error flushed) (Bool.eq_false_iff.mp saved)
      · obtain ⟨kept, grounding, noneLeft⟩ := kept.flush grounding flushed
        have capacity := kept.poolCapacity (by simp [grounding])
        obtain ⟨added, phase⟩ := kept.append_granted grounding
          (PagedStore.isFull_of_count_zero noneLeft (capacity ▸ room)) nonempty inRange
        exact ⟨congrArg _ added, phase⟩

/-- A store that is grounding and can save its last page is sealed. -/
theorem finish_granted (grounding : session.store.phase = .grounding)
    (saved : (session.respond .finish).1.unsaved = false) :
    (session.respond .finish).1 = .done (.ok ()) ∧
      (session.respond .finish).2.store.phase = .ready := by
  simp only [respond, PagedStore.finish, grounding] at saved ⊢
  generalize flushed : session.store.flush session.folder = outcome at saved ⊢
  obtain ⟨fault | base, left⟩ := outcome
  · exact absurd (PagedStore.flush_error flushed) (Bool.eq_false_iff.mp saved)
  · exact ⟨rfl, rfl⟩

/-- A term that a store which is grounding can be given. -/
def Addable (session : PagedSession) (term : Term Single) : Prop :=
  term.WellFormed ∧ ∀ atom ∈ term.atoms, atom.index < session.atoms.size

/-- The answers to additions that take the next numbers. -/
def numbered (first count : Nat) : List PagedAnswer :=
  (List.range' first count).map fun id => .added (.ok id)

/-- Terms that are added one by one take the next numbers. -/
theorem Stands.additions (room : 0 < settings.pageTerms)
    (stands : Stands settings directory owned before session)
    (grounding : session.store.phase = .grounding)
    (addable : ∀ term ∈ terms, session.Addable term)
    (saved : ∀ answer ∈ (performAll PagedSession.respond session (terms.map .add)).1,
      answer.unsaved = false) :
    (performAll PagedSession.respond session (terms.map .add)).1 =
        numbered before.length terms.length ∧
      Stands settings directory owned (before ++ terms)
        (performAll PagedSession.respond session (terms.map .add)).2 ∧
      (performAll PagedSession.respond session (terms.map .add)).2.store.phase = .grounding := by
  induction terms generalizing before session with
  | nil => exact ⟨rfl, by simpa [performAll] using stands, grounding⟩
  | cons term later inductionHypothesis =>
      rw [List.forall_mem_cons] at addable
      rw [List.map_cons, performAll_cons, List.forall_mem_cons] at saved
      obtain ⟨⟨wellFormed, inRange⟩, addable⟩ := addable
      have kept : Kept settings directory owned before session := stands.choose_spec.kept
      obtain ⟨added, stillGrounding⟩ :=
        kept.add_granted room grounding wellFormed.nonempty inRange saved.1
      have undisturbed : session.Undisturbed (.add term) := fun other member =>
        List.mem_singleton.mp member ▸ wellFormed
      have after := stands.respond room undisturbed
      rw [added] at after
      change Stands settings directory owned (before ++ [term]) _ at after
      have sameSize : (session.respond (.add term)).2.atoms.size = session.atoms.size :=
        AtomStore.size_congr (session.store.records_add term session.atoms session.folder)
      obtain ⟨answers, stands, phase⟩ := inductionHypothesis after stillGrounding
        (fun other member => by
          rw [Addable, sameSize]
          exact addable other member)
        saved.2
      rw [List.append_assoc] at stands
      rw [List.map_cons, performAll_cons, answers, added]
      exact ⟨by simp [numbered, List.range'_succ], stands, phase⟩

/-- A session whose store is grounding and has room on its disk for some terms. -/
structure Takes (settings : Paging) (directory : Path) (owned : Bool)
    (before terms : List (Term Single)) (session : PagedSession) : Prop where
  room : 0 < settings.pageTerms
  stands : Stands settings directory owned before session
  grounding : session.store.phase = .grounding
  addable : ∀ term ∈ terms, session.Addable term
  saved : ∀ answer ∈ (session.addAndFinish terms).1, answer.unsaved = false

/-- Terms that are added one by one and then sealed are all accepted. -/
theorem Takes.addAndFinish (takes : Takes settings directory owned before terms session) :
    (session.addAndFinish terms).1 = numbered before.length terms.length ++ [.done (.ok ())] ∧
      Stands settings directory owned (before ++ terms) (session.addAndFinish terms).2 ∧
      (session.addAndFinish terms).2.store.phase = .ready := by
  have saved := takes.saved
  rw [PagedSession.addAndFinish, performAll_append] at saved ⊢
  obtain ⟨answers, added, grounding⟩ :=
    takes.stands.additions takes.room takes.grounding takes.addable
      fun answer member => saved answer (List.mem_append_left _ member)
  obtain ⟨done, ready⟩ := finish_granted grounding
    (saved _ (List.mem_append_right _ List.mem_cons_self))
  have undisturbed : (performAll respond session (terms.map .add)).2.Undisturbed .finish :=
    fun _ member => absurd member List.not_mem_nil
  have sealed := added.respond takes.room undisturbed
  rw [done] at sealed
  rw [answers]
  exact ⟨congrArg (_ ++ [·]) done, sealed, ready⟩

theorem Takes.granted (takes : Takes settings directory owned before terms session) :
    ∀ answer ∈ (session.addAndFinish terms).1, answer.granted = true := by
  intro answer member
  rw [takes.addAndFinish.1] at member
  rcases List.mem_append.mp member with added | done
  · obtain ⟨id, -, rfl⟩ := List.mem_map.mp added
    rfl
  · obtain rfl := List.mem_singleton.mp done
    rfl

variable {source : List SourceItem}

/-- A pass that sees the token only adds. -/
theorem calls_heard {cancelled : Bool} (heard : SourceItem.heard cancelled source = true) :
    SourceItem.calls cancelled source terms =
      (terms.take (SourceItem.pulled cancelled source)).map .add := by
  rw [SourceItem.calls, heard, if_pos rfl, List.append_nil]

/-- A pass that does not see the token adds everything and seals the store. -/
theorem calls_not_heard {cancelled : Bool} (unheard : SourceItem.heard cancelled source = false)
    (sameLength : source.length = terms.length) :
    SourceItem.calls cancelled source terms = terms.map .add ++ [.finish] := by
  rw [SourceItem.calls, unheard, SourceItem.pulled_of_not_heard unheard, sameLength,
    List.take_length]
  rfl

/-- The calls of a pass leave the terms that it pulls in the store. -/
theorem Takes.calls (takes : Takes settings directory owned before terms session)
    (sameLength : source.length = terms.length) (cancelled : Bool) :
    let after := (performAll respond session (SourceItem.calls cancelled source terms)).2
    Stands settings directory owned (before ++ terms.take (SourceItem.pulled cancelled source))
        after ∧
      after.store.phase = if SourceItem.heard cancelled source then .grounding else .ready := by
  cases heard : SourceItem.heard cancelled source with
  | false =>
      rw [calls_not_heard heard sameLength, SourceItem.pulled_of_not_heard heard, sameLength,
        List.take_length]
      exact takes.addAndFinish.2
  | true =>
      have saved := takes.saved
      rw [← terms.take_append_drop (SourceItem.pulled cancelled source), addAndFinish_append]
        at saved
      rw [calls_heard heard]
      exact (takes.stands.additions takes.room takes.grounding
        (fun term member => takes.addable term (List.mem_of_mem_take member))
        (fun answer member => saved answer (List.mem_append_left _ member))).2

/-- A sealed store can be sealed again, and nothing changes. -/
theorem addAndFinish_nil (ready : session.store.phase = .ready) :
    session.addAndFinish [] = ([.done (.ok ())], session) := by
  have again : session.respond .finish = (.done (.ok ()), session) := by
    simp only [respond, PagedStore.finish, ready]
  rw [addAndFinish, List.map_nil, List.nil_append, performAll_cons, again]
  rfl

/-- The terms that a pass does not pull can be added to what it leaves, and then nothing is missing.
-/
theorem Takes.addAndFinish_drop (takes : Takes settings directory owned before terms session)
    (sameLength : source.length = terms.length) (cancelled : Bool) :
    let after := (performAll respond session (SourceItem.calls cancelled source terms)).2
    let rest := after.addAndFinish (terms.drop (SourceItem.pulled cancelled source))
    (∀ answer ∈ rest.1, answer.granted = true) ∧ rest.2 = (session.addAndFinish terms).2 := by
  cases heard : SourceItem.heard cancelled source with
  | false =>
      rw [calls_not_heard heard sameLength, SourceItem.pulled_of_not_heard heard, sameLength,
        List.drop_length]
      -- the pass has come to the end and sealed the store already
      change (∀ answer ∈ ((session.addAndFinish terms).2.addAndFinish []).1, _) ∧
        ((session.addAndFinish terms).2.addAndFinish []).2 = _
      rw [addAndFinish_nil takes.addAndFinish.2.2]
      exact ⟨fun answer member => List.mem_singleton.mp member ▸ rfl, rfl⟩
  | true =>
      have granted := takes.granted
      have whole := session.addAndFinish_append (terms.take (SourceItem.pulled cancelled source))
        (terms.drop (SourceItem.pulled cancelled source))
      rw [List.take_append_drop] at whole
      rw [whole] at granted ⊢
      rw [calls_heard heard]
      exact ⟨fun answer member => granted answer (List.mem_append_right _ member), rfl⟩

/-- Grounding whose calls are granted makes them. -/
theorem ground_eq (session : PagedSession) (yields : source.map SourceItem.term = terms.map .ok)
    (granted : ∀ answer ∈ (session.addAndFinish terms).1, answer.granted = true) :
    ∃ last, session.ground source = (.ok (SourceItem.pulled session.cancelled source), last) ∧
      last.source = source.drop (SourceItem.pulled session.cancelled source) ∧
      last.stopped = SourceItem.heard session.cancelled source ∧
      last.session =
        (performAll respond session
          (SourceItem.calls session.cancelled source terms)).2.withToken
            (SourceItem.heard session.cancelled source) := by
  let pass := Grounding.start session.store session.atoms session.folder source session.cancelled
  have running : pass.finished = false := rfl
  exact Grounding.run_eq running rfl yields granted

/-- Grounding that nobody cancels adds the terms and seals the store. -/
theorem ground_quiet (session : PagedSession) (yields : source.map SourceItem.term = terms.map .ok)
    (granted : ∀ answer ∈ (session.addAndFinish terms).1, answer.granted = true) :
    ∃ last, (session.withToken false).ground (source.map .quiet) = (.ok terms.length, last) ∧
      last.session = (session.addAndFinish terms).2.withToken false := by
  have sameLength : (source.map SourceItem.quiet).length = terms.length := by
    simpa using congrArg List.length yields
  have unheard := SourceItem.heard_quiet source
  obtain ⟨last, ran, -, -, after⟩ := ground_eq (session.withToken false)
    ((SourceItem.map_term_quiet source).trans yields) (by
      rw [addAndFinish_withToken]
      exact granted)
  rw [cancelled_withToken, SourceItem.pulled_of_not_heard unheard, sameLength] at ran
  refine ⟨last, ran, after.trans ?_⟩
  rw [cancelled_withToken, unheard, calls_not_heard unheard sameLength]
  exact congrArg (fun made => made.2.withToken false) (session.addAndFinish_withToken false terms)

/-- What a pass leaves: the store with the terms that were pulled, and the items that were not. -/
theorem Takes.ground (takes : Takes settings directory owned before terms session)
    (yields : source.map SourceItem.term = terms.map .ok) :
    let cut := (session.ground source).2
    let pulled := SourceItem.pulled session.cancelled source
    (session.ground source).1 = .ok pulled ∧ cut.source = source.drop pulled ∧
      cut.stopped = SourceItem.heard session.cancelled source ∧
      Stands settings directory owned (before ++ terms.take pulled) cut.session ∧
      cut.store.phase = if cut.stopped then .grounding else .ready := by
  have sameLength : source.length = terms.length := by simpa using congrArg List.length yields
  obtain ⟨cut, ran, left, stopped, after⟩ := session.ground_eq yields takes.granted
  obtain ⟨stands, phase⟩ := takes.calls sameLength session.cancelled
  rw [ran]
  refine ⟨rfl, left, stopped, ?_, ?_⟩
  · dsimp only
    rw [after]
    exact stands.setToken _
  · dsimp only
    rw [stopped, ← phase]
    exact congrArg (fun session : PagedSession => session.store.phase) after

/-- Once the token is reset, a pass over the items that were not pulled does what is left to do. -/
theorem Takes.ground_rest (takes : Takes settings directory owned before terms session)
    (yields : source.map SourceItem.term = terms.map .ok) :
    let cut := (session.ground source).2
    let resumed := (cut.session.withToken false).ground (cut.source.map .quiet)
    resumed.1 = .ok (terms.length - SourceItem.pulled session.cancelled source) ∧
      resumed.2.session = (session.addAndFinish terms).2.withToken false := by
  have sameLength : source.length = terms.length := by simpa using congrArg List.length yields
  obtain ⟨cut, ran, left, -, after⟩ := session.ground_eq yields takes.granted
  obtain ⟨granted, whole⟩ := takes.addAndFinish_drop sameLength session.cancelled
  have yieldsRest : (source.drop (SourceItem.pulled session.cancelled source)).map SourceItem.term =
      (terms.drop (SourceItem.pulled session.cancelled source)).map .ok := by
    rw [List.map_drop, List.map_drop, yields]
  obtain ⟨resumed, ranRest, afterRest⟩ := ground_quiet _ yieldsRest granted
  rw [ran]
  dsimp only
  rw [after, withToken_withToken, left, ranRest]
  exact ⟨congrArg Except.ok List.length_drop, whole ▸ afterRest⟩

end PagedSession

/-- Whenever the token fires, a grounding pass has taken the first items of its source, and a pass
over the others ends where an uninterrupted one does. -/
theorem cancelled_grounding_resumes (settings : Paging) (directory : Path) (owned : Bool)
    (folder : FoundFolder) (room : 0 < settings.pageTerms) (calls : List PagedCall)
    (undisturbed : Throughout PagedSession.respond PagedSession.Undisturbed
      (.opened settings directory owned folder) calls)
    (source : List SourceItem) (terms : List (Term Single))
    (yields : source.map SourceItem.term = terms.map .ok) :
    let round := performAll PagedSession.respond (.opened settings directory owned folder) calls
    let before := notes PagedCall.note [] calls round.1
    let session := round.2
    let adding := session.addAndFinish terms
    session.store.phase = .grounding → (∀ term ∈ terms, session.Addable term) →
    (∀ answer ∈ adding.1, answer.unsaved = false) →
      let cut := (session.ground source).2
      let pulled := source.length - cut.source.length
      let resumed := (cut.session.withToken false).ground (cut.source.map .quiet)
      let whole := (session.withToken false).ground (source.map .quiet)
      (pulled = SourceItem.pulled session.cancelled source ∧
          (session.ground source).1 = .ok pulled ∧ cut.source = source.drop pulled ∧
          cut.store.termCount = before.length + pulled ∧
          cut.session.Holds (before ++ terms.take pulled) ∧
          cut.stopped = SourceItem.heard session.cancelled source ∧
          cut.store.phase = if cut.stopped then .grounding else .ready) ∧
        resumed.1 = .ok (terms.length - pulled) ∧ whole.1 = .ok terms.length ∧
          resumed.2.session = whole.2.session ∧
          whole.2.session = adding.2.withToken false ∧
          adding.1 = PagedSession.numbered before.length terms.length ++ [.done (.ok ())] ∧
          adding.2.store.phase = .ready ∧ adding.2.Holds (before ++ terms) := by
  intro round before session adding grounding addable saved
  have takes : PagedSession.Takes settings directory owned before terms session :=
    ⟨room, PagedSession.stands_performAll room undisturbed, grounding, addable, saved⟩
  obtain ⟨answers, added, ready⟩ := takes.addAndFinish
  obtain ⟨answered, left, stopped, stands, phase⟩ := takes.ground yields
  obtain ⟨answeredRest, resumed⟩ := takes.ground_rest yields
  obtain ⟨whole, ran, uninterrupted⟩ := session.ground_quiet yields takes.granted
  have sameLength : source.length = terms.length := by simpa using congrArg List.length yields
  have bounded := SourceItem.pulled_le session.cancelled source
  have counted : source.length - (session.ground source).2.source.length =
      SourceItem.pulled session.cancelled source := by
    rw [left, List.length_drop]
    omega
  have notClosed : (session.ground source).2.session.store.phase ≠ .closed := by
    change (session.ground source).2.store.phase ≠ .closed
    rw [phase]
    split <;> decide
  have termCount := stands.termCount notClosed
  rw [List.length_append, List.length_take_of_le (sameLength ▸ bounded)] at termCount
  dsimp only
  rw [counted, ran]
  exact ⟨⟨rfl, answered, left, termCount, stands.holds notClosed, stopped, phase⟩, answeredRest,
    rfl, resumed.trans uninterrupted.symm, uninterrupted, answers, ready,
    added.holds (by rw [ready]; decide)⟩

/-- Four terms with room for two on a page. The token fires while the third one is made, which is
still added. -/
theorem cancelled_grounding_resumes_sample :
    let term (rule : UInt32) : Term Single := ⟨⟨rule⟩, .linear, .soft 1, 0, [⟨0⟩], [1]⟩
    let terms := [term 0, term 1, term 2, term 3]
    let source : List SourceItem := terms.map fun made => ⟨.ok made, made.rule = ⟨2⟩⟩
    let session := (performAll PagedSession.respond
      (.opened (.sequential 2) (Path.ofText "pages") true (.ok []))
      [.changeAtoms (.register ⟨0, false⟩)]).2
    let cut := (session.ground source).2
    let resumed := ((cut.session.withToken false).ground (cut.source.map .quiet)).2
    cut.store.phase = .grounding ∧ cut.session.Holds [term 0, term 1, term 2] ∧
      resumed.store.pageSizes = #[2, 2] ∧
      resumed.session = (session.addAndFinish terms).2.withToken false := by
  intro term terms source session cut resumed
  have addable (rule : UInt32) : session.Addable (term rule) :=
    ⟨⟨nofun, rfl, (by decide : 1 ≤ Term.maxArity)⟩, by
      intro atom member
      obtain rfl := List.mem_singleton.mp member
      decide⟩
  have allAddable : ∀ made ∈ terms, session.Addable made := by simp [terms, addable]
  have fits : ∀ answer ∈ (session.addAndFinish terms).1, answer.unsaved = false := by
    decide +kernel
  obtain ⟨⟨-, -, -, -, holds, stopped, phase⟩, -, -, same, whole, -⟩ :=
    cancelled_grounding_resumes (.sequential 2) (Path.ofText "pages") true (.ok []) (by decide)
      [.changeAtoms (.register ⟨0, false⟩)]
      ⟨by simp [PagedSession.Undisturbed, PagedCall.terms], trivial⟩ source terms rfl rfl
      allAddable fits
  have pulled : source.length - cut.source.length = 3 := by decide +kernel
  have heard : SourceItem.heard session.cancelled source = true := by decide +kernel
  have shown : notes PagedCall.note [] [PagedCall.changeAtoms (.register ⟨0, false⟩)]
      (performAll PagedSession.respond (.opened (.sequential 2) (Path.ofText "pages") true (.ok []))
        [.changeAtoms (.register ⟨0, false⟩)]).1 ++ terms.take 3 = [term 0, term 1, term 2] := by
    decide +kernel
  rw [pulled, shown] at holds
  have written : resumed.store.pageSizes = #[2, 2] := by decide +kernel
  exact ⟨phase.trans (if_pos (stopped.trans heard)), holds, written, same.trans whole⟩

end HingeLoss
