import HingeLoss.Paged.Grounding
import HingeLoss.Proofs.Paged.Replay
import HingeLoss.Proofs.Store.Rounds

/-! Sessions with a paged store: the store with the atoms, the folder and the token of its calls. -/

namespace HingeLoss

/-- What can be asked of a paged store, and what can happen to the things around it. -/
inductive PagedCall where
  | add (term : Term Single)
  | finish
  | setWeight (rule : RuleId) (weight : Weight Single)
  | clear
  | close
  | beginSweep
  | nextTerm
  /-- At most a number of steps of a grounding pass over a source. -/
  | ground (source : List SourceItem) (steps : Nat)
  | setToken (cancelled : Bool)
  | changeAtoms (change : AtomChange Single)
  /-- Somebody else changes the folder. -/
  | changeFolder (folder : FoundFolder)

inductive PagedAnswer where
  | added (answer : Except (StoreFault Single) TermId)
  | done (answer : Except (StoreFault Single) Unit)
  | reweighed (answer : Except (StoreFault Single) Nat)
  | lent (answer : Except (StoreFault Single) (Option (Term Single)))
  | grounded (answers : List (Except (StoreFault Single) (Term Single × Nat)))
deriving DecidableEq

structure PagedSession where
  store : PagedStore
  atoms : AtomStore Single
  folder : FoundFolder
  cancelled : Bool

/-- The session that a grounding pass works on. -/
def Grounding.session (pass : Grounding) : PagedSession :=
  ⟨pass.store, pass.atoms, pass.folder, pass.cancelled⟩

namespace PagedSession

/-- A new store beside new atoms, with a folder that stands ready and a token that has not fired. -/
def opened (settings : Paging) (directory : Path) (owned : Bool) (folder : FoundFolder) :
    PagedSession :=
  ⟨.fresh settings directory owned, .empty, folder, false⟩

def respond (session : PagedSession) : PagedCall → PagedAnswer × PagedSession
  | .add term =>
      let (answer, store, atoms, folder) := session.store.add term session.atoms session.folder
      (.added answer, { session with store, atoms, folder })
  | .finish =>
      match session.store.finish session.folder with
      | (.error fault, folder) => (.done (.error fault), { session with folder })
      | (.ok store, folder) => (.done (.ok ()), { session with store, folder })
  | .setWeight rule weight =>
      match session.store.setWeight rule weight with
      | .error fault => (.reweighed (.error fault), session)
      | .ok (count, store) => (.reweighed (.ok count), { session with store })
  | .clear =>
      match session.store.clear session.folder with
      | (.error fault, folder) => (.done (.error fault), { session with folder })
      | (.ok store, folder) => (.done (.ok ()), { session with store, folder })
  | .close =>
      let (answer, store, folder) := session.store.close session.folder
      (.done answer, { session with store, folder })
  | .beginSweep =>
      match session.store.beginSweep with
      | .error fault => (.done (.error fault), session)
      | .ok store => (.done (.ok ()), { session with store })
  | .nextTerm =>
      let (answer, store) := session.store.nextTerm session.cancelled session.folder
      (.lent answer, { session with store })
  | .ground source steps =>
      let (answers, pass) := Grounding.trace steps
        (.start session.store session.atoms session.folder source session.cancelled)
      (.grounded answers, pass.session)
  | .setToken cancelled => (.done (.ok ()), { session with cancelled })
  | .changeAtoms change => (.done (.ok ()), { session with atoms := session.atoms.change change })
  | .changeFolder folder => (.done (.ok ()), { session with folder })

end PagedSession

/-- The terms of the items of a source that were added. -/
def SourceItem.added (source : List SourceItem)
    (answers : List (Except (StoreFault Single) (Term Single × Nat))) : List (Term Single) :=
  (source.zip answers).filterMap fun entry => if entry.2.isOk then entry.1.term.toOption else none

/-- The terms of the present round: added terms are the last ones, and clearing forgets them all. -/
def PagedCall.note (terms : List (Term Single)) : PagedCall → PagedAnswer → List (Term Single)
  | .add term, .added (.ok _) => terms ++ [term]
  | .ground source _, .grounded answers => terms ++ SourceItem.added source answers
  | .clear, .done (.ok _) => []
  | _, _ => terms

/-- The terms that a call brings along. -/
def PagedCall.terms : PagedCall → List (Term Single)
  | .add term => [term]
  | .ground source _ => source.filterMap fun item => item.term.toOption
  | _ => []

namespace PagedStore

/-- An addition to a store with room files the term, or the index refuses it. -/
theorem append_cases {store : PagedStore} (room : store.pool.isFull = false) (term : Term Single)
    (atoms : AtomStore Single) :
    (∃ fault, (store.components.insert store.termCount term atoms).1 = .error fault ∧
        store.append term atoms = (.error (.atom fault),
          { store with components := (store.components.insert store.termCount term atoms).2.1 },
          (store.components.insert store.termCount term atoms).2.2)) ∨
      ∃ key, (store.components.insert store.termCount term atoms).1 = .ok key ∧
        store.append term atoms = (.ok store.termCount,
          { store with
            components := (store.components.insert store.termCount term atoms).2.1
            counts := store.counts.count term.rule
            pool := store.pool.take.fill term
            pendingBytes := store.pendingBytes + term.encodedLength
            termCount := store.termCount + 1 },
          (store.components.insert store.termCount term atoms).2.2) := by
  unfold append
  rw [TermPool.push_of_room room]
  generalize store.components.insert store.termCount term atoms = inserted
  obtain ⟨answer, components, joined⟩ := inserted
  cases answer with
  | error fault => exact .inl ⟨fault, rfl, rfl⟩
  | ok key => exact .inr ⟨key, rfl, rfl⟩

/-- A term with atoms that are there is appended under the next number. -/
theorem append_answers {store : PagedStore} (room : store.pool.isFull = false)
    {term : Term Single} {atoms : AtomStore Single} (nonempty : term.atoms ≠ [])
    (inRange : ∀ atom ∈ term.atoms, atom.index < atoms.size) :
    (store.append term atoms).1 = .ok store.termCount := by
  obtain ⟨key, filed⟩ := store.components.insert_answers store.termCount nonempty inRange
  rcases append_cases room term atoms with ⟨fault, refused, -⟩ | ⟨-, -, same⟩
  · rw [filed] at refused
    cases refused
  · rw [same]

/-- A flush has nothing to write, or it fails with the page, or it writes the pending terms. -/
theorem flush_cases (store : PagedStore) (folder : FoundFolder) :
    (store.pool.count = 0 ∧ store.flush folder = (.ok store, folder)) ∨
      (∃ fault left,
        Page.save store.directory store.pageSizes.size store.pool.terms folder =
            (.error fault, left) ∧
          store.flush folder = (.error (.page fault), left)) ∨
      0 < store.pool.count ∧ ∃ bytes left,
        Page.save store.directory store.pageSizes.size store.pool.terms folder =
            (.ok bytes, left) ∧
          store.flush folder = (.ok { store with
            pageSizes := store.pageSizes.push store.pool.count
            pool := store.pool.clear
            pendingBytes := 0
            traffic := store.traffic.recordWrite bytes }, left) := by
  unfold flush
  by_cases empty : store.pool.isEmpty = true
  · exact .inl ⟨beq_iff_eq.mp empty, if_pos empty⟩
  · rw [if_neg empty]
    generalize Page.save store.directory store.pageSizes.size store.pool.terms folder = saved
    obtain ⟨_ | bytes, left⟩ := saved
    · exact .inr (.inl ⟨_, _, rfl, rfl⟩)
    · refine .inr (.inr ⟨Nat.pos_of_ne_zero fun none => empty ?_, _, _, rfl, rfl⟩)
      exact beq_iff_eq.mpr none

/-- What an appended term changes. -/
theorem append_changes (store : PagedStore) (term : Term Single) (atoms : AtomStore Single) :
    ∃ components counts pool pendingBytes termCount,
      (store.append term atoms).2.1 =
        { store with components, counts, pool, pendingBytes, termCount } := by
  unfold append
  generalize store.components.insert store.termCount term atoms = inserted
  obtain ⟨_ | _, components, joined⟩ := inserted
  · exact ⟨_, _, _, _, _, rfl⟩
  · dsimp only
    split <;> exact ⟨_, _, _, _, _, rfl⟩

/-- What a page that is written changes. -/
theorem flush_changes {store base : PagedStore} {folder left : FoundFolder}
    (flushed : store.flush folder = (.ok base, left)) :
    ∃ pageSizes pool pendingBytes traffic,
      base = { store with pageSizes, pool, pendingBytes, traffic } := by
  rcases store.flush_cases folder with ⟨-, same⟩ | ⟨fault, _, -, same⟩ | ⟨-, bytes, _, -, same⟩
  · rw [flushed] at same
    cases same
    exact ⟨_, _, _, _, rfl⟩
  · rw [flushed] at same
    cases same
  · rw [flushed] at same
    cases same
    exact ⟨_, _, _, _, rfl⟩

/-- An addition is refused at once, or the pending page cannot be written, or the term is appended
to a store that needs no flush any more. -/
theorem add_cases (store : PagedStore) (term : Term Single) (atoms : AtomStore Single)
    (folder : FoundFolder) :
    (∃ fault left, store.add term atoms folder = (.error fault, store, atoms, left) ∧
        (left = folder ∨ store.phase = .grounding ∧ store.flush folder = (.error fault, left))) ∨
      store.phase = .grounding ∧ atoms.checkAll term.atoms = .ok () ∧ ∃ base left,
        (store.needsFlush term.encodedLength = false ∧ base = store ∧ left = folder ∨
          store.flush folder = (.ok base, left)) ∧
        store.add term atoms folder =
          ((base.append term atoms).1, (base.append term atoms).2.1,
            (base.append term atoms).2.2, left) := by
  unfold add
  cases phase : store.phase with
  | ready => exact .inl ⟨_, _, rfl, .inl rfl⟩
  | closed => exact .inl ⟨_, _, rfl, .inl rfl⟩
  | grounding =>
      dsimp only
      cases checked : atoms.checkAll term.atoms with
      | error fault => exact .inl ⟨_, _, rfl, .inl rfl⟩
      | ok _ =>
          cases needs : store.needsFlush term.encodedLength with
          | false => exact .inr ⟨rfl, rfl, store, folder, .inl ⟨rfl, rfl, rfl⟩, rfl⟩
          | true =>
              rw [if_pos rfl]
              generalize flushed : store.flush folder = outcome
              obtain ⟨_ | base, left⟩ := outcome
              · exact .inl ⟨_, _, rfl, .inr ⟨rfl, rfl⟩⟩
              · exact .inr ⟨rfl, rfl, base, left, .inr rfl, rfl⟩

/-- What an addition changes. -/
theorem add_changes (store : PagedStore) (term : Term Single) (atoms : AtomStore Single)
    (folder : FoundFolder) :
    ∃ pageSizes traffic components counts pool pendingBytes termCount,
      (store.add term atoms folder).2.1 =
        { store with
          pageSizes, traffic, components, counts, pool, pendingBytes, termCount } := by
  rcases store.add_cases term atoms folder with
    ⟨fault, left, same, -⟩ | ⟨-, -, base, left, made, same⟩
  · rw [same]
    exact ⟨_, _, _, _, _, _, _, rfl⟩
  · obtain ⟨components, counts, pool, pendingBytes, termCount, appended⟩ :=
      base.append_changes term atoms
    rw [same, appended]
    rcases made with ⟨-, rfl, -⟩ | flushed
    · exact ⟨_, _, _, _, _, _, _, rfl⟩
    · obtain ⟨pageSizes, _, _, traffic, rfl⟩ := flush_changes flushed
      exact ⟨_, _, _, _, _, _, _, rfl⟩

theorem finish_cases (store : PagedStore) (folder : FoundFolder) :
    (∃ fault left, store.finish folder = (.error fault, left) ∧
        (left = folder ∨ store.phase = .grounding ∧ store.flush folder = (.error fault, left))) ∨
      (store.phase = .ready ∧ store.finish folder = (.ok store, folder)) ∨
      store.phase = .grounding ∧ ∃ base left, store.flush folder = (.ok base, left) ∧
        store.finish folder = (.ok { base with phase := .ready, cursor := .finished }, left) := by
  unfold finish
  cases phase : store.phase with
  | ready => exact .inr (.inl ⟨rfl, rfl⟩)
  | closed => exact .inl ⟨_, _, rfl, .inl rfl⟩
  | grounding =>
      dsimp only
      generalize flushed : store.flush folder = outcome
      obtain ⟨_ | base, left⟩ := outcome
      · exact .inl ⟨_, _, rfl, .inr ⟨rfl, rfl⟩⟩
      · exact .inr (.inr ⟨rfl, base, left, rfl, rfl⟩)

theorem setWeight_cases (store : PagedStore) (rule : RuleId) (weight : Weight Single) :
    (∃ fault, store.setWeight rule weight = .error fault) ∨
      store.phase ≠ .closed ∧ weight.validate rule = .ok () ∧
        store.setWeight rule weight =
          .ok (store.counts.getD rule 0, store.reweighed rule weight) := by
  unfold setWeight reweighed
  cases store.phase with
  | closed => exact .inl ⟨_, rfl⟩
  | _ =>
      dsimp only
      cases weight.validate rule with
      | error fault => exact .inl ⟨_, rfl⟩
      | ok _ => exact .inr ⟨nofun, rfl, rfl⟩

theorem clear_cases (store : PagedStore) (folder : FoundFolder) :
    (store.phase = .closed ∧ ∃ fault, store.clear folder = (.error fault, folder)) ∨
      store.phase ≠ .closed ∧
        ((∃ fault left,
          Page.removeAll store.directory (List.range store.pageSizes.size) folder =
              (.error fault, left) ∧
            store.clear folder = (.error (.page fault), left)) ∨
        ∃ left,
          Page.removeAll store.directory (List.range store.pageSizes.size) folder = (.ok (), left) ∧
            store.clear folder = (.ok store.emptied, left)) := by
  unfold clear
  cases store.phase with
  | closed => exact .inl ⟨rfl, _, rfl⟩
  | _ =>
      dsimp only
      generalize Page.removeAll store.directory (List.range store.pageSizes.size) folder = removed
      obtain ⟨_ | _, left⟩ := removed
      · exact .inr ⟨nofun, .inl ⟨_, _, rfl, rfl⟩⟩
      · exact .inr ⟨nofun, .inr ⟨_, rfl, rfl⟩⟩

theorem close_cases (store : PagedStore) (folder : FoundFolder) :
    (store.phase = .closed ∧ store.close folder = (.ok (), store, folder)) ∨
      store.phase ≠ .closed ∧
        ((∃ fault left,
          Page.removeAll store.directory (List.range store.pageSizes.size) folder =
              (.error fault, left) ∧
            store.close folder = (.error (.page fault), store, left)) ∨
        ∃ answer left, store.close folder = (answer, { store with
          phase := .closed
          pageSizes := #[]
          pool := store.pool.clear
          recent := store.recent.clear
          components := .empty
          counts := ∅
          owned := false }, left)) := by
  unfold close
  cases store.phase with
  | closed => exact .inl ⟨rfl, rfl⟩
  | _ =>
      dsimp only
      generalize Page.removeAll store.directory (List.range store.pageSizes.size) folder = removed
      obtain ⟨_ | _, left⟩ := removed
      · exact .inr ⟨nofun, .inl ⟨_, _, rfl, rfl⟩⟩
      · refine .inr ⟨nofun, .inr ?_⟩
        dsimp only
        split
        · split <;> exact ⟨_, _, rfl⟩
        · exact ⟨_, _, rfl⟩

/-- The pooled copy of an added term is the term. -/
theorem get?_pool_of_add {store : PagedStore} {term : Term Single} {atoms : AtomStore Single}
    {folder : FoundFolder} {id : TermId} (added : (store.add term atoms folder).1 = .ok id) :
    (store.add term atoms folder).2.1.pool.get? ((store.add term atoms folder).2.1.pool.count - 1) =
      some term := by
  rcases store.add_cases term atoms folder with ⟨fault, left, same, -⟩ | ⟨-, -, base, left, -, same⟩
  · rw [same] at added
    cases added
  · rw [same] at added ⊢
    cases room : base.pool.isFull with
    | true =>
        unfold append TermPool.push at added
        rw [if_pos room] at added
        generalize base.components.insert base.termCount term atoms = inserted at added
        obtain ⟨_ | _, _, _⟩ := inserted <;> cases added
    | false =>
        rcases base.append_cases room term atoms with ⟨fault, -, refused⟩ | ⟨key, -, appended⟩
        · rw [refused] at added
          cases added
        · rw [appended, TermPool.get?_eq]
          simp

end PagedStore

namespace Grounding

/-- Two sessions that are alike, with the terms of the round so far, stay alike under all that a
grounding pass does to them. Only additions of admitted terms are covered. -/
structure Bisimulation (alike : List (Term Single) → PagedSession → PagedSession → Prop)
    (admits : Term Single → Prop) : Prop where
  cancelled : ∀ terms first second, alike terms first second → first.cancelled = second.cancelled
  pageSizes : ∀ terms first second, alike terms first second →
    first.store.pageSizes = second.store.pageSizes
  setToken : ∀ terms first second cancelled, alike terms first second →
    alike terms { first with cancelled } { second with cancelled }
  finish : ∀ terms first second, alike terms first second →
    (first.respond .finish).1 = (second.respond .finish).1 ∧
      alike terms (first.respond .finish).2 (second.respond .finish).2
  add : ∀ terms first second term, alike terms first second → admits term →
    (first.respond (.add term)).1 = (second.respond (.add term)).1 ∧
      alike (PagedCall.note terms (.add term) (first.respond (.add term)).1)
        (first.respond (.add term)).2 (second.respond (.add term)).2

variable {alike : List (Term Single) → PagedSession → PagedSession → Prop}
  {admits : Term Single → Prop} {first second : Grounding} {terms : List (Term Single)}

/-- A step ends the pass, or fails, or lends the term of its item. -/
theorem Bisimulation.next (bisimulation : Bisimulation alike admits)
    (same : alike terms first.session second.session) (sources : second.source = first.source)
    (flags : second.finished = first.finished)
    (admitted : ∀ item ∈ first.source, ∀ term, item.term = .ok term → admits term) :
    ∃ answer after other, first.next = (answer, after) ∧ second.next = (answer, other) ∧
      other.source = after.source ∧ other.finished = after.finished ∧
      ((answer = .ok none ∧ alike terms after.session other.session) ∨
        (∃ fault, answer = .error fault ∧ after.source = first.source.tail ∧
          alike terms after.session other.session) ∨
        ∃ item later term, first.source = item :: later ∧ after.source = later ∧
          item.term = .ok term ∧ answer = .ok (some term) ∧
          alike (terms ++ [term]) after.session other.session) := by
  have token := bisimulation.cancelled _ _ _ same
  obtain ⟨store, atoms, folder, _, cancelled, _, stopped⟩ := first
  obtain ⟨otherStore, otherAtoms, otherFolder, source, _, finished, otherStopped⟩ := second
  dsimp only [session] at same sources flags admitted token
  subst sources flags token
  cases finished with
  | true => exact ⟨_, _, _, rfl, rfl, rfl, rfl, .inl ⟨rfl, same⟩⟩
  | false =>
      cases cancelled with
      | true => exact ⟨_, _, _, rfl, rfl, rfl, rfl, .inl ⟨rfl, same⟩⟩
      | false =>
          cases source with
          | nil =>
              obtain ⟨answers, after⟩ := bisimulation.finish _ _ _ same
              simp only [PagedSession.respond] at answers after
              simp only [Grounding.next, Bool.false_eq_true, if_false]
              generalize store.finish folder = sealing at answers after ⊢
              generalize otherStore.finish otherFolder = otherSealing at answers after ⊢
              obtain ⟨_ | sealed, left⟩ := sealing <;>
                obtain ⟨_ | otherSealed, otherLeft⟩ := otherSealing <;> cases answers
              · exact ⟨_, _, _, rfl, rfl, rfl, rfl, .inr (.inl ⟨_, rfl, rfl, after⟩)⟩
              · exact ⟨_, _, _, rfl, rfl, rfl, rfl, .inl ⟨rfl, after⟩⟩
          | cons item later =>
              simp only [Grounding.next, Bool.false_eq_true, if_false]
              cases made : item.term with
              | error fault =>
                  exact ⟨_, _, _, rfl, rfl, rfl, rfl, .inr (.inl ⟨_, rfl, rfl,
                    bisimulation.setToken _ _ _ _ same⟩)⟩
              | ok term =>
                  obtain ⟨answers, after⟩ := bisimulation.add _ _ _ term same
                    (admitted item List.mem_cons_self term made)
                  have after := bisimulation.setToken _ _ _ item.fires after
                  simp only [PagedSession.respond] at answers after
                  have pooled (id : TermId) (added : (store.add term atoms folder).1 = .ok id) :=
                    PagedStore.get?_pool_of_add added
                  have otherPooled (id : TermId)
                      (added : (otherStore.add term otherAtoms otherFolder).1 = .ok id) :=
                    PagedStore.get?_pool_of_add added
                  rcases added : store.add term atoms folder with ⟨_ | id, kept, joined, left⟩ <;>
                    rcases otherAdded : otherStore.add term otherAtoms otherFolder with
                      ⟨_ | otherId, otherKept, otherJoined, otherLeft⟩ <;>
                    simp only [added, otherAdded] at answers after pooled otherPooled ⊢ <;>
                    cases answers
                  · exact ⟨_, _, _, rfl, rfl, rfl, rfl, .inr (.inl ⟨_, rfl, rfl, after⟩)⟩
                  · rw [pooled id rfl, otherPooled id rfl]
                    exact ⟨_, _, _, rfl, rfl, rfl, rfl,
                      .inr (.inr ⟨item, later, term, rfl, rfl, made, rfl, after⟩)⟩

/-- Two passes over the same source give the same answers, and what they note is what was added. -/
theorem Bisimulation.trace (bisimulation : Bisimulation alike admits) (steps : Nat)
    (same : alike terms first.session second.session) (sources : second.source = first.source)
    (flags : second.finished = first.finished)
    (admitted : ∀ item ∈ first.source, ∀ term, item.term = .ok term → admits term) :
    (trace steps first).1 = (trace steps second).1 ∧
      alike (terms ++ SourceItem.added first.source (trace steps first).1)
        (trace steps first).2.session (trace steps second).2.session := by
  induction steps generalizing first second terms with
  | zero => simpa [Grounding.trace, SourceItem.added] using same
  | succ steps inductionHypothesis =>
      obtain ⟨answer, after, other, next, otherNext, sources, flags, outcome⟩ :=
        bisimulation.next same sources flags admitted
      simp only [Grounding.trace, next, otherNext]
      rcases outcome with ⟨rfl, same⟩ | ⟨fault, rfl, rest, same⟩ |
        ⟨item, later, term, split, rest, made, rfl, same⟩
      · simpa [SourceItem.added] using same
      · obtain ⟨answers, last⟩ := inductionHypothesis same sources flags fun item member =>
          admitted item (List.mem_of_mem_tail (rest ▸ member))
        refine ⟨by dsimp only; rw [answers], ?_⟩
        rw [rest] at last
        cases split : first.source with
        | nil => simpa [SourceItem.added, split] using last
        | cons item later =>
            simpa [SourceItem.added, split, Except.isOk, Except.toBool] using last
      · have pages := bisimulation.pageSizes _ _ _ same
        obtain ⟨answers, last⟩ := inductionHypothesis same sources flags fun item member =>
          admitted item (split ▸ List.mem_cons_of_mem _ (rest ▸ member))
        have written : after.pagesWritten = other.pagesWritten := congrArg Array.size pages
        refine ⟨by dsimp only; rw [written, answers], ?_⟩
        rw [rest, List.append_assoc] at last
        simpa [SourceItem.added, split, made, Except.isOk, Except.toBool,
          Except.toOption] using last

/-- What additions of admitted terms, a sealing and the token keep, a pass keeps. -/
theorem trace_keeps {keeps : List (Term Single) → PagedSession → Prop}
    (setToken : ∀ terms session cancelled, keeps terms session →
      keeps terms { session with cancelled })
    (finish : ∀ terms session, keeps terms session → keeps terms (session.respond .finish).2)
    (add : ∀ terms session term, keeps terms session → admits term →
      keeps (PagedCall.note terms (.add term) (session.respond (.add term)).1)
        (session.respond (.add term)).2)
    (steps : Nat) (kept : keeps terms first.session)
    (admitted : ∀ item ∈ first.source, ∀ term, item.term = .ok term → admits term) :
    keeps (terms ++ SourceItem.added first.source (trace steps first).1)
      (trace steps first).2.session := by
  have bisimulation : Bisimulation
      (fun terms session other => session = other ∧ keeps terms session) admits :=
    { cancelled := by rintro terms session _ ⟨rfl, -⟩; rfl
      pageSizes := by rintro terms session _ ⟨rfl, -⟩; rfl
      setToken := by
        rintro terms session _ cancelled ⟨rfl, kept⟩
        exact ⟨rfl, setToken terms session cancelled kept⟩
      finish := by
        rintro terms session _ ⟨rfl, kept⟩
        exact ⟨rfl, rfl, finish terms session kept⟩
      add := by
        rintro terms session _ term ⟨rfl, kept⟩ admitted
        exact ⟨rfl, rfl, add terms session term kept admitted⟩ }
  exact (bisimulation.trace steps ⟨rfl, kept⟩ rfl rfl admitted).2.2

end Grounding

end HingeLoss
