import HingeLoss.Proofs.Page.Split
import HingeLoss.Proofs.Paged.Refusal

/-! A sealed store has split the terms of the round greedily, each page in a file of its own. -/

namespace HingeLoss

/-- Whether a call sets a weight. -/
def PagedCall.reweighs : PagedCall → Bool
  | .setWeight _ _ => true
  | _ => false

theorem Page.length_body {terms : List (Term Single)}
    (wellFormed : ∀ term ∈ terms, term.WellFormed) :
    (body terms).length = (terms.map Term.encodedLength).sum := by
  rw [body, List.length_flatMap]
  exact congrArg List.sum (List.map_congr_left fun term member =>
    Term.length_encode (wellFormed term member))

namespace PagedSession

/-- A call that touches neither the page files nor the weights of terms that were added. -/
def Preserves (session : PagedSession) (call : PagedCall) : Prop :=
  session.Undisturbed call ∧ call.reweighs = false

/-- The pages of a session are the greedy split of some terms, the last one of them perhaps still
pending. Only without terms nothing is pending. -/
structure Packed (settings : Paging) (directory : Path) (owned : Bool)
    (terms : List (Term Single)) (session : PagedSession) (pages : List (List (Term Single))) :
    Prop where
  intact : Intact settings directory owned terms session pages
  started : session.store.phase = .grounding → session.store.pool.terms = [] →
    terms = [] ∧ pages = []
  pending : session.store.phase = .grounding → session.store.pool.terms ≠ [] →
    Page.GreedySplit settings.toPagingSettings terms (pages ++ [session.store.pool.terms])
  written : session.store.phase = .ready → Page.GreedySplit settings.toPagingSettings terms pages

variable {settings : Paging} {directory : Path} {owned : Bool}
  {terms : List (Term Single)} {session : PagedSession} {pages : List (List (Term Single))}

theorem packed_opened (settings : Paging) (directory : Path) (owned : Bool)
    (folder : FoundFolder) :
    Packed settings directory owned [] (opened settings directory owned folder) [] where
  intact := intact_opened settings directory owned folder
  started _ _ := ⟨rfl, rfl⟩
  pending _ some := absurd rfl some
  written := nofun

/-- Pages that are on the shelf are the pages of a session that stands. -/
theorem Stands.intact_of_shelved (stands : Stands settings directory owned terms session)
    (shelved : session.store.Shelved session.folder pages) :
    Intact settings directory owned terms session pages := by
  obtain ⟨all, intact⟩ := stands
  rwa [shelved.unique intact.shelved rfl rfl] at intact

/-- A term needs another page exactly if it would break a bound of the pending one. -/
theorem Intact.needsFlush_iff (intact : Intact settings directory owned terms session pages)
    (grounding : session.store.phase = .grounding) (some : session.store.pool.terms ≠ [])
    {term : Term Single} (wellFormed : term.WellFormed) :
    session.store.needsFlush term.encodedLength = true ↔
      settings.Exceeded (session.store.pool.terms ++ [term]) := by
  have notClosed : session.store.phase ≠ .closed := by simp [grounding]
  have notEmpty : session.store.pool.isEmpty = false :=
    Bool.eq_false_iff.mpr fun empty => some (session.store.pool.isEmpty_iff.mp empty)
  have bytes : (Page.body (session.store.pool.terms ++ [term])).length =
      session.store.pendingBytes + term.encodedLength := by
    rw [Page.length_body, intact.kept.pendingBytes grounding]
    · simp
    · intro one member
      rcases List.mem_append.mp member with old | new
      · exact intact.wellFormed grounding one old
      · exact List.mem_singleton.mp new ▸ wellFormed
  simp only [PagedStore.needsFlush, notEmpty, PagingSettings.Exceeded, bytes, TermPool.isFull,
    intact.kept.settings_eq notClosed, intact.kept.poolCapacity notClosed, List.length_append,
    TermPool.length_terms, List.length_singleton]
  cases settings.pageBytes with
  | none =>
      simp only [Bool.not_false, Bool.and_true, Bool.or_false, decide_eq_true_eq, reduceCtorEq,
        false_and, exists_const, or_false]
      omega
  | some budget =>
      simp only [Bool.not_false, Bool.and_true, Bool.or_eq_true, decide_eq_true_eq,
        Option.some.injEq, exists_eq_left']
      omega

/-- An empty pool takes every term. -/
theorem Intact.not_needsFlush (intact : Intact settings directory owned terms session pages)
    (room : 0 < settings.pageTerms) (grounding : session.store.phase = .grounding)
    (empty : session.store.pool.terms = []) (length : Nat) :
    session.store.needsFlush length = false := by
  have capacity := intact.kept.poolCapacity (by simp [grounding])
  have isEmpty := session.store.pool.isEmpty_iff.mpr empty
  have none : session.store.pool.count = 0 := by rw [← TermPool.length_terms, empty]; rfl
  have roomy : session.store.pool.isFull = false :=
    PagedStore.isFull_of_count_zero none (capacity ▸ room)
  simp [PagedStore.needsFlush, roomy, isEmpty]

/-- A term that is appended ends the last segment of a split. -/
theorem Intact.append_packed (intact : Intact settings directory owned terms session pages)
    (grounding : session.store.phase = .grounding) (room : session.store.pool.isFull = false)
    {term : Term Single} (wellFormed : term.WellFormed)
    (checked : session.atoms.checkAll term.atoms = .ok ())
    (split : Page.GreedySplit settings.toPagingSettings (terms ++ [term])
      (pages ++ [session.store.pool.terms ++ [term]])) :
    Packed settings directory owned
      (PagedCall.note terms (.add term) (.added (session.store.append term session.atoms).1))
      { session with
        store := (session.store.append term session.atoms).2.1
        atoms := (session.store.append term session.atoms).2.2 } pages := by
  have appended := intact.append grounding room wellFormed checked
  have answer := PagedStore.append_answers room wellFormed.nonempty
    (AtomStore.inRange_of_checkAll checked)
  rcases PagedStore.append_cases room term session.atoms with ⟨fault, -, same⟩ | ⟨key, -, same⟩
  · rw [same] at answer
    cases answer
  · rw [same] at appended ⊢
    refine ⟨appended, fun _ empty => ?_, fun _ _ => ?_, fun ready => ?_⟩
    · simp at empty
    · simpa [PagedCall.note] using split
    · exact absurd (grounding.symm.trans ready) (by decide)

theorem Packed.add (room : 0 < settings.pageTerms)
    (packed : Packed settings directory owned terms session pages) {term : Term Single}
    (wellFormed : term.WellFormed) :
    ∃ all, Packed settings directory owned
      (PagedCall.note terms (.add term) (session.respond (.add term)).1)
      (session.respond (.add term)).2 all := by
  have stands : Stands settings directory owned terms session := ⟨pages, packed.intact⟩
  have undisturbed : session.Undisturbed (.add term) := fun other member =>
    List.mem_singleton.mp member ▸ wellFormed
  have stood := stands.respond room undisturbed
  simp only [respond, PagedStore.add] at stood ⊢
  cases phase : session.store.phase with
  | ready => exact ⟨pages, { packed with }⟩
  | closed => exact ⟨pages, { packed with }⟩
  | grounding =>
      simp only [phase] at stood ⊢
      cases checked : session.atoms.checkAll term.atoms with
      | error fault => exact ⟨pages, { packed with }⟩
      | ok _ =>
          simp only [checked] at stood ⊢
          cases needs : session.store.needsFlush term.encodedLength with
          | false =>
              refine ⟨pages, packed.intact.append_packed phase
                (PagedStore.isFull_of_not_needsFlush needs) wellFormed checked ?_⟩
              by_cases empty : session.store.pool.terms = []
              · obtain ⟨rfl, rfl⟩ := packed.started phase empty
                rw [empty]
                exact .singleton room term
              · refine (packed.pending phase empty).extend fun exceeded => ?_
                rw [← packed.intact.needsFlush_iff phase empty wellFormed, needs] at exceeded
                cases exceeded
          | true =>
              have some : session.store.pool.terms ≠ [] := fun empty => by
                rw [packed.intact.not_needsFlush room phase empty] at needs
                cases needs
              have full := (packed.intact.needsFlush_iff phase some wellFormed).mp needs
              simp only [needs, if_true] at stood ⊢
              generalize flushed : session.store.flush session.folder = outcome at stood ⊢
              obtain ⟨fault | base, left⟩ := outcome
              · exact ⟨pages, { packed with
                  intact := stood.intact_of_shelved (packed.intact.shelved.flush_error flushed) }⟩
              · obtain ⟨all, base, stillGrounding, empty⟩ := packed.intact.flush phase flushed
                have capacity := packed.intact.kept.poolCapacity (by simp [phase])
                have shelved := packed.intact.shelved.flush (packed.intact.wellFormed phase)
                  (capacity ▸ packed.intact.kept.pendingRoom phase) some flushed
                obtain rfl := shelved.unique base.shelved rfl rfl
                have hasRoom := PagedStore.isFull_of_not_needsFlush
                  (base.not_needsFlush room stillGrounding empty 0)
                refine ⟨_, base.append_packed stillGrounding hasRoom wellFormed checked ?_⟩
                dsimp only
                rw [empty]
                exact (packed.pending phase some).turn room full

theorem Packed.finish (packed : Packed settings directory owned terms session pages) :
    ∃ all, Packed settings directory owned terms (session.respond .finish).2 all := by
  have stood := packed.intact.finish
  simp only [respond] at stood ⊢
  rcases session.store.finish_cases session.folder with
    ⟨fault, left, same, failed⟩ | ⟨ready, same⟩ | ⟨grounding, base, left, flushed, same⟩
  · rw [same] at stood ⊢
    have shelved : session.store.Shelved left pages := by
      rcases failed with rfl | ⟨-, flushed⟩
      · exact packed.intact.shelved
      · exact packed.intact.shelved.flush_error flushed
    exact ⟨pages, { packed with intact := Stands.intact_of_shelved stood shelved }⟩
  · rw [same]
    exact ⟨pages, { packed with }⟩
  · rw [same] at stood ⊢
    by_cases empty : session.store.pool.terms = []
    · obtain ⟨rfl, rfl⟩ := packed.started grounding empty
      rw [PagedStore.flush, if_pos (session.store.pool.isEmpty_iff.mpr empty)] at flushed
      cases flushed
      exact ⟨[], {
        intact := Stands.intact_of_shelved stood (packed.intact.shelved.congr rfl rfl rfl)
        started := fun grounding => by cases grounding
        pending := fun grounding => by cases grounding
        written := fun _ => .nil settings.toPagingSettings }⟩
    · have capacity := packed.intact.kept.poolCapacity (by simp [grounding])
      have shelved := packed.intact.shelved.flush (packed.intact.wellFormed grounding)
        (capacity ▸ packed.intact.kept.pendingRoom grounding) empty flushed
      exact ⟨_, {
        intact := Stands.intact_of_shelved stood (shelved.congr rfl rfl rfl)
        started := fun grounding => by cases grounding
        pending := fun grounding => by cases grounding
        written := fun _ => packed.pending grounding empty }⟩

theorem Packed.clear (packed : Packed settings directory owned terms session pages) :
    ∃ all, Packed settings directory owned
      (PagedCall.note terms .clear (session.respond .clear).1) (session.respond .clear).2 all := by
  have stood := packed.intact.clear
  simp only [respond] at stood ⊢
  rcases session.store.clear_cases session.folder with
    ⟨-, fault, same⟩ | ⟨-, ⟨fault, left, failed, -⟩ | ⟨left, -, same⟩⟩
  · rw [same]
    exact ⟨pages, { packed with }⟩
  · obtain ⟨_, removed⟩ := packed.intact.shelved.removeAll
    rw [removed] at failed
    cases failed
  · rw [same] at stood ⊢
    have shelved : session.store.emptied.Shelved left [] := ⟨rfl, by simp, by simp⟩
    exact ⟨[], {
      intact := Stands.intact_of_shelved stood shelved
      started := fun _ _ => ⟨rfl, rfl⟩
      pending := fun _ some => absurd (TermPool.terms_clear _) some
      written := fun ready => by cases ready }⟩

/-- A closed store has nothing to split any more. -/
theorem Packed.close (packed : Packed settings directory owned terms session pages) :
    ∃ all, Packed settings directory owned terms (session.respond .close).2 all := by
  obtain ⟨all, stood⟩ := packed.intact.close
  simp only [respond] at stood ⊢
  rcases session.store.close_cases session.folder with
    ⟨-, same⟩ | ⟨-, ⟨fault, left, failed, -⟩ | ⟨answer, left, same⟩⟩
  · rw [same]
    exact ⟨pages, { packed with }⟩
  · obtain ⟨_, removed⟩ := packed.intact.shelved.removeAll
    rw [removed] at failed
    cases failed
  · rw [same] at stood ⊢
    exact ⟨all, {
      intact := stood
      started := fun grounding => by cases grounding
      pending := fun grounding => by cases grounding
      written := fun ready => by cases ready }⟩

/-- A sweep moves no page. -/
theorem Packed.beginSweep (packed : Packed settings directory owned terms session pages) :
    Packed settings directory owned terms (session.respond .beginSweep).2 pages := by
  have stood := packed.intact.beginSweep
  simp only [respond] at stood ⊢
  cases begun : session.store.beginSweep with
  | error fault => exact packed
  | ok store =>
      obtain ⟨ready, order, generator, rfl, -⟩ := PagedStore.beginSweep_ok begun
      rw [begun] at stood
      exact ⟨stood, packed.started, packed.pending, packed.written⟩

theorem Packed.nextTerm (packed : Packed settings directory owned terms session pages) :
    Packed settings directory owned terms (session.respond .nextTerm).2 pages := by
  have stood := packed.intact.nextTerm
  simp only [respond] at stood ⊢
  by_cases ready : session.store.phase = .ready
  · obtain ⟨pool, recent, traffic, cursor, generator, same, -⟩ :=
      session.store.nextTerm_keeps session.cancelled session.folder
        packed.intact.kept.consistent.whole
    have split := packed.written ready
    have notGrounding : session.store.phase ≠ .grounding := by simp [ready]
    rw [same] at stood ⊢
    exact ⟨stood, fun grounding => absurd grounding notGrounding,
      fun grounding => absurd grounding notGrounding, fun _ => split⟩
  · obtain ⟨fault, refused⟩ := PagedStore.ensureReady_error ready
    have same : session.store.nextTerm session.cancelled session.folder =
        (.error fault, session.store) := by
      rw [PagedStore.nextTerm, refused]
    rw [same]
    exact packed

/-- Some pages are the greedy split. -/
def Segmented (settings : Paging) (directory : Path) (owned : Bool)
    (terms : List (Term Single)) (session : PagedSession) : Prop :=
  ∃ pages, Packed settings directory owned terms session pages

/-- Every call that preserves the page files and the weights keeps the split greedy. -/
theorem Segmented.respond (room : 0 < settings.pageTerms)
    (segmented : Segmented settings directory owned terms session) {call : PagedCall}
    (preserves : session.Preserves call) :
    Segmented settings directory owned (PagedCall.note terms call (session.respond call).1)
      (session.respond call).2 := by
  have whole := segmented
  obtain ⟨pages, packed⟩ := segmented
  obtain ⟨undisturbed, keepsWeights⟩ := preserves
  have stands : Stands settings directory owned terms session := ⟨pages, packed.intact⟩
  have stood := stands.respond room undisturbed
  cases call with
  | add term => exact packed.add room (undisturbed term List.mem_cons_self)
  | finish => exact packed.finish
  | setWeight rule weight => cases keepsWeights
  | clear => exact packed.clear
  | close => exact packed.close
  | beginSweep => exact ⟨pages, packed.beginSweep⟩
  | nextTerm => exact ⟨pages, packed.nextTerm⟩
  | ground source steps =>
      let pass := Grounding.start session.store session.atoms session.folder source
        session.cancelled
      have start : Segmented settings directory owned terms pass.session := whole
      refine Grounding.trace_keeps
        (fun _ _ cancelled ⟨all, packed⟩ => ⟨all, { packed with
          intact := { packed.intact with kept := { packed.intact.kept with } } }⟩)
        (fun _ _ ⟨_, packed⟩ => packed.finish)
        (fun _ _ term ⟨_, packed⟩ wellFormed => packed.add room wellFormed) steps start
        fun item member term made => undisturbed term ?_
      exact List.mem_filterMap.mpr ⟨item, member, by rw [made]; rfl⟩
  | setToken cancelled =>
      exact ⟨pages, { packed with intact := stood.intact_of_shelved packed.intact.shelved }⟩
  | changeAtoms change =>
      exact ⟨pages, { packed with intact := stood.intact_of_shelved packed.intact.shelved }⟩
  | changeFolder folder =>
      have shelved := packed.intact.shelved.withFolder undisturbed
      exact ⟨pages, { packed with intact := stood.intact_of_shelved shelved }⟩

theorem segmented_performAll (room : 0 < settings.pageTerms) {folder : FoundFolder}
    {calls : List PagedCall}
    (preserved : Throughout PagedSession.respond Preserves
      (opened settings directory owned folder) calls) :
    Segmented settings directory owned
      (notes PagedCall.note [] calls
        (performAll PagedSession.respond (opened settings directory owned folder) calls).1)
      (performAll PagedSession.respond (opened settings directory owned folder) calls).2 := by
  have step (terms : List (Term Single)) (session : PagedSession) (call : PagedCall)
      (segmented : Segmented settings directory owned terms session)
      (preserves : session.Preserves call) := segmented.respond room preserves
  exact performAll_keeps step ⟨[], packed_opened settings directory owned folder⟩ preserved

end PagedSession

theorem PagedAnswer.unsaved_of_granted {answer : PagedAnswer} (granted : answer.granted = true) :
    answer.unsaved = false := by
  have isSaved {β : Type} {result : Except (StoreFault Single) β} (succeeded : result.isOk = true) :
      PagedStore.unsaved result = false := by
    cases result with
    | error fault => cases succeeded
    | ok _ => rfl
  cases answer with
  | grounded answers =>
      rw [PagedAnswer.granted, List.all_eq_true] at granted
      rw [PagedAnswer.unsaved, List.any_eq_false]
      exact fun result member => Bool.eq_false_iff.mp (isSaved (granted result member))
  | _ => exact isSaved granted

theorem Folder.IsFree.put {folder : Folder} {name : String} (free : folder.IsFree name)
    (other : String) (bytes : Bytes) : (folder.put other (.file bytes)).IsFree name := by
  rw [IsFree, get?_put]
  split
  · exact .inr ⟨bytes, rfl⟩
  · exact free

theorem Folder.IsFree.erase {folder : Folder} {name : String} (free : folder.IsFree name)
    (other : String) : (folder.erase other).IsFree name := by
  rw [IsFree, get?_erase]
  split
  · exact .inl rfl
  · exact free

namespace Page

/-- A folder in which nothing but files stands under the names of pages, temporary or not. -/
def Roomy (folder : FoundFolder) : Prop :=
  ∃ entries : Folder, folder = .ok entries ∧
    ∀ index, entries.IsFree (fileName index) ∧ entries.IsFree (temporaryName index)

theorem Roomy.canSave {folder : FoundFolder} (roomy : Roomy folder) {index : Nat}
    {terms : List (Term Single)} (fits : fitsHeader (body terms).length terms.length = true) :
    CanSave index terms folder := by
  obtain ⟨entries, rfl, free⟩ := roomy
  refine ⟨fits, entries, rfl, (free index).2, fun inner blocked => ?_, rfl, rfl⟩
  rcases (free index).1 with absent | ⟨bytes, held⟩
  · simp [absent] at blocked
  · simp [held] at blocked

theorem Roomy.save {folder : FoundFolder} (roomy : Roomy folder) (directory : Path) (index : Nat)
    (terms : List (Term Single)) : Roomy (Page.save directory index terms folder).2 := by
  cases fits : fitsHeader (body terms).length terms.length with
  | false =>
      simp only [Page.save, length_encode_sub, fits, Bool.not_false, if_true]
      exact roomy
  | true =>
      obtain ⟨_, found, saved⟩ := save_of_canSave directory (roomy.canSave fits)
      obtain ⟨entries, rfl, free⟩ := roomy
      cases found
      rw [saved]
      exact ⟨_, rfl, fun other => ⟨(((free other).1.put _ _).erase _).put _ _,
        (((free other).2.put _ _).erase _).put _ _⟩⟩

end Page

namespace PagedStore

theorem roomy_flush (store : PagedStore) {folder : FoundFolder} (roomy : Page.Roomy folder) :
    Page.Roomy (store.flush folder).2 := by
  have saved := roomy.save store.directory store.pageSizes.size store.pool.terms
  rcases store.flush_cases folder with
    ⟨-, same⟩ | ⟨fault, left, failed, same⟩ | ⟨-, bytes, left, wrote, same⟩
  · rw [same]
    exact roomy
  · rw [failed] at saved
    rw [same]
    exact saved
  · rw [wrote] at saved
    rw [same]
    exact saved

theorem roomy_add (store : PagedStore) (term : Term Single) (atoms : AtomStore Single)
    {folder : FoundFolder} (roomy : Page.Roomy folder) :
    Page.Roomy (store.add term atoms folder).2.2.2 := by
  have written := store.roomy_flush roomy
  rcases store.add_cases term atoms folder with
    ⟨fault, left, same, rfl | ⟨-, flushed⟩⟩ | ⟨-, -, base, left, ⟨-, -, rfl⟩ | flushed, same⟩
  · rw [same]
    exact roomy
  · rw [flushed] at written
    rw [same]
    exact written
  · rw [same]
    exact roomy
  · rw [flushed] at written
    rw [same]
    exact written

end PagedStore

namespace PagedSession

variable {settings : Paging} {directory : Path} {owned : Bool}
  {terms before : List (Term Single)} {session : PagedSession} {pages : List (List (Term Single))}

/-- Pending terms whose records fit a header together with all others can be written. -/
theorem Packed.canFlush (packed : Packed settings directory owned terms session pages)
    (grounding : session.store.phase = .grounding) (roomy : Page.Roomy session.folder)
    (fits : (Page.body terms).length < UInt32.size) :
    session.store.CanFlush session.folder := by
  by_cases empty : session.store.pool.terms = []
  · exact .inl (by rw [← TermPool.length_terms, empty]; rfl)
  · have joined := (packed.pending grounding empty).joined
    have counted := Page.length_le_length_body (packed.intact.wellFormed grounding)
    have shorter : (Page.body session.store.pool.terms).length ≤ (Page.body terms).length := by
      rw [← joined]
      simp [Page.body]
    refine .inr (roomy.canSave ((Page.fitsHeader_iff _ _).mpr ⟨?_, ?_⟩))
    · omega
    · omega

/-- In a folder with room, a session that is grounding grants all that grounds. -/
theorem Packed.grants (room : 0 < settings.pageTerms)
    (packed : Packed settings directory owned terms session pages)
    (grounding : session.store.phase = .grounding) (roomy : Page.Roomy session.folder)
    (fits : (Page.body terms).length < UInt32.size) {call : PagedCall}
    (grounds : call.grounds = true) (addable : ∀ term ∈ call.terms, session.Addable term) :
    (session.respond call).1.granted = true := by
  have canFlush := packed.canFlush grounding roomy fits
  have capacity := packed.intact.kept.poolCapacity (by simp [grounding])
  have hasRoom (_ : session.store.phase = .grounding) : 0 < session.store.pool.capacity :=
    capacity ▸ room
  refine (granted_iff hasRoom grounds fun term member =>
    (addable term member).1.nonempty).mpr ?_
  cases call with
  | add term => exact ⟨grounding, (addable term List.mem_cons_self).2, fun _ => canFlush⟩
  | finish => exact .inr ⟨grounding, canFlush⟩
  | _ => cases grounds

/-- In a folder with room, no page fails to be saved while terms are added whose records fit into
one header together, and they are split greedily. -/
theorem Packed.addAndFinish (room : 0 < settings.pageTerms)
    (packed : Packed settings directory owned before session pages)
    (grounding : session.store.phase = .grounding)
    (addable : ∀ term ∈ terms, session.Addable term) (roomy : Page.Roomy session.folder)
    (fits : (Page.body (before ++ terms)).length < UInt32.size) :
    (∀ answer ∈ (session.addAndFinish terms).1, answer.unsaved = false) ∧
      Segmented settings directory owned (before ++ terms) (session.addAndFinish terms).2 := by
  induction terms generalizing before session pages with
  | nil =>
      rw [List.append_nil] at fits ⊢
      have granted : (session.respond .finish).1.granted = true :=
        packed.grants room grounding roomy fits rfl fun _ member => absurd member List.not_mem_nil
      refine ⟨fun answer member => ?_, packed.finish⟩
      obtain rfl := List.mem_singleton.mp member
      exact PagedAnswer.unsaved_of_granted granted
  | cons term later inductionHypothesis =>
      rw [List.forall_mem_cons] at addable
      obtain ⟨addableTerm, addable⟩ := addable
      have beforeFits : (Page.body before).length < UInt32.size := by
        rw [Page.body, List.flatMap_append, List.length_append] at fits
        exact Nat.lt_of_le_of_lt (Nat.le_add_right _ _) fits
      have granted : (session.respond (.add term)).1.granted = true :=
        packed.grants room grounding roomy beforeFits rfl fun other member =>
          List.mem_singleton.mp member ▸ addableTerm
      have saved := PagedAnswer.unsaved_of_granted granted
      obtain ⟨added, stillGrounding⟩ := packed.intact.kept.add_granted room grounding
        addableTerm.1.nonempty addableTerm.2 saved
      obtain ⟨all, after⟩ := packed.add room addableTerm.1
      rw [added] at after
      change Packed settings directory owned (before ++ [term]) _ all at after
      have sameSize : (session.respond (.add term)).2.atoms.size = session.atoms.size :=
        AtomStore.size_congr (session.store.records_add term session.atoms session.folder)
      rw [List.append_cons] at fits
      obtain ⟨laterSaved, segmented⟩ := inductionHypothesis after stillGrounding
        (fun other member => by
          rw [Addable, sameSize]
          exact addable other member)
        (session.store.roomy_add term session.atoms roomy) fits
      rw [addAndFinish_cons, List.forall_mem_cons, List.append_cons]
      exact ⟨⟨saved, laterSaved⟩, segmented⟩

/-- The pages on the disk are the only greedy split of some terms, and the file of each holds its
header, which tells the number of bytes and of terms, and the records of its terms. -/
structure Paginates (settings : Paging) (directory : Path) (terms : List (Term Single))
    (session : PagedSession) (pages : List (List (Term Single))) : Prop where
  split : Page.GreedySplit settings.toPagingSettings terms pages
  only : ∀ others, Page.GreedySplit settings.toPagingSettings terms others → others = pages
  sizes : session.store.pageSizes.toList = pages.map List.length
  fits : ∀ page ∈ pages, (Page.body page).length < UInt32.size ∧ page.length < UInt32.size
  file : ∀ index page, pages[index]? = some page →
    Page.fetch directory index session.folder =
      .ok (Bytes.ofUInt32 (Page.body page).length.toUInt32 ++
        Bytes.ofUInt32 page.length.toUInt32 ++ page.flatMap Term.encode)

theorem Packed.paginates (packed : Packed settings directory owned terms session pages)
    (ready : session.store.phase = .ready) : Paginates settings directory terms session pages where
  split := packed.written ready
  only _ other := (packed.written ready).unique other
  sizes := packed.intact.shelved.sizes
  fits page member := (Page.fitsHeader_iff _ _).mp (packed.intact.shelved.sound page member).fits
  file index page found := by
    have opened := congrArg PagedStore.Frame.directory
      (packed.intact.kept.framed (by simp [ready]))
    have held := packed.intact.shelved.held index page found
    rw [show session.store.directory = directory from opened, Page.encode_eq] at held
    exact held

end PagedSession

/-- The terms of a round are split greedily into pages, in their order: no page is empty or beyond
its bounds but for a single term, and none ends before it has to. -/
theorem pages_split_greedily (settings : Paging) (directory : Path) (owned : Bool)
    (room : 0 < settings.pageTerms) :
    (∀ (folder : FoundFolder) (calls : List PagedCall),
      Throughout PagedSession.respond PagedSession.Preserves
        (.opened settings directory owned folder) calls →
      let run := performAll PagedSession.respond (.opened settings directory owned folder) calls
      run.2.store.phase = .ready →
        ∃ pages, PagedSession.Paginates settings directory
          (notes PagedCall.note [] calls run.1) run.2 pages) ∧
    ∀ (folder : FoundFolder) (changes : List (AtomChange Single)) (terms : List (Term Single)),
      Page.Roomy folder →
      let session : PagedSession :=
        { PagedSession.opened settings directory owned folder with
          atoms := changes.foldl AtomStore.change .empty }
      (∀ term ∈ terms, session.Addable term) → (Page.body terms).length < UInt32.size →
        let adding := session.addAndFinish terms
        adding.1 = PagedSession.numbered 0 terms.length ++ [.done (.ok ())] ∧
          adding.2.store.phase = .ready ∧
          (∃ pages, PagedSession.Paginates settings directory terms adding.2 pages) ∧
          ∀ source : List SourceItem, source.map SourceItem.term = terms.map .ok →
            (session.ground (source.map .quiet)).1 = .ok terms.length ∧
              (session.ground (source.map .quiet)).2.session = adding.2.withToken false := by
  constructor
  · intro folder calls preserved run ready
    obtain ⟨pages, packed⟩ := PagedSession.segmented_performAll room preserved
    exact ⟨pages, packed.paginates ready⟩
  · intro folder changes terms roomy session addable fits adding
    have opened := PagedSession.packed_opened settings directory owned folder
    have packed : PagedSession.Packed settings directory owned [] session [] :=
      { opened with intact := { opened.intact with kept := { opened.intact.kept with } } }
    obtain ⟨saved, pages, packed⟩ := packed.addAndFinish room rfl addable roomy fits
    have takes : PagedSession.Takes settings directory owned [] terms session :=
      ⟨room, ⟨[], { opened.intact with kept := { opened.intact.kept with } }⟩, rfl, addable, saved⟩
    obtain ⟨answers, -, ready⟩ := takes.addAndFinish
    refine ⟨answers, ready, ⟨pages, packed.paginates ready⟩, fun source yields => ?_⟩
    obtain ⟨last, ran, after⟩ := session.ground_quiet yields takes.granted
    rw [show session.withToken false = session from rfl] at ran
    rw [ran]
    exact ⟨rfl, after⟩

/-- Pages of two terms and fifty bytes. The third term is one too many and the fourth one too long;
it is too long for any page, so it has one of its own. The terms come from a pass over a source the
first time, and one by one the second time. -/
theorem pages_split_greedily_sample :
    let settings : Paging := { Paging.sequential 2 with pageBytes := some 50 }
    let directory := Path.ofText "pages"
    let short : Term Single := ⟨⟨0⟩, .hinge, .soft 1, 0, [⟨0⟩], [1]⟩
    let long : Term Single :=
      ⟨⟨1⟩, .linear, .hard, 0, [⟨0⟩, ⟨0⟩, ⟨0⟩, ⟨0⟩, ⟨0⟩], [1, 1, 1, 1, 1]⟩
    let terms := [short, short, short, long, short]
    let session : PagedSession := (PagedSession.opened settings directory true (.ok []))
    let run := performAll PagedSession.respond session
      [.changeAtoms (.register ⟨0, false⟩), .ground (terms.map fun term => ⟨.ok term, false⟩) 6]
    let adding := PagedSession.addAndFinish
      { session with atoms := [AtomChange.register ⟨0, false⟩].foldl AtomStore.change .empty } terms
    run.2.store.pageSizes = #[2, 1, 1, 1] ∧ adding.2.store.pageSizes = #[2, 1, 1, 1] ∧
      (∃ pages, PagedSession.Paginates settings directory terms run.2 pages) ∧
        ∃ pages, PagedSession.Paginates settings directory terms adding.2 pages := by
  intro settings directory short long terms session run adding
  have greedy := pages_split_greedily settings directory true (by decide)
  have wellFormed : ∀ term ∈ terms, term.WellFormed := by decide
  have reached : run.2.store.phase = .ready ∧ run.2.store.pageSizes = #[2, 1, 1, 1] ∧
      adding.2.store.pageSizes = #[2, 1, 1, 1] := by
    decide +kernel
  have noted : notes PagedCall.note []
      [.changeAtoms (.register ⟨0, false⟩), .ground (terms.map fun term => ⟨.ok term, false⟩) 6]
      run.1 = terms := by
    decide +kernel
  have split := greedy.1 (.ok []) [.changeAtoms (.register ⟨0, false⟩),
    .ground (terms.map fun term => ⟨.ok term, false⟩) 6]
    ⟨⟨nofun, rfl⟩, ⟨by unfold PagedSession.Undisturbed; decide, rfl⟩, trivial⟩ reached.1
  have addable : ∀ term ∈ terms, PagedSession.Addable { session with
      atoms := [AtomChange.register ⟨0, false⟩].foldl AtomStore.change .empty } term := by
    intro term member
    exact ⟨wellFormed term member, by revert term; decide +kernel⟩
  have short : (Page.body terms).length < UInt32.size := by decide +kernel
  have added := greedy.2 (.ok []) [.register ⟨0, false⟩] terms
    ⟨[], rfl, fun _ => ⟨.inl rfl, .inl rfl⟩⟩ addable short
  exact ⟨reached.2.1, reached.2.2, noted ▸ split, added.2.2.1⟩

end HingeLoss
