import HingeLoss.Proofs.Page.Leftover
import HingeLoss.Proofs.Paged.Resume

/-! Refused additions and sealings leave the store as if they had not been asked for. -/

namespace HingeLoss

open Page (SamePages)

namespace PagedStore

/-- There is nothing to write, or the pending terms can be written as the next page. -/
def CanFlush (store : PagedStore) (folder : FoundFolder) : Prop :=
  store.pool.count = 0 ∨ Page.CanSave store.pageSizes.size store.pool.terms folder

/-- A term can be added: the store is grounding, the atoms of the term are there, and the pending
page can be written if the term does not fit on it any more. -/
structure AdmitsTerm (store : PagedStore) (term : Term Single) (atoms : AtomStore Single)
    (folder : FoundFolder) : Prop where
  grounding : store.phase = .grounding
  inRange : ∀ atom ∈ term.atoms, atom.index < atoms.size
  flushable : store.needsFlush term.encodedLength = true → store.CanFlush folder

/-- The store can be sealed, or is sealed already. -/
def AdmitsFinish (store : PagedStore) (folder : FoundFolder) : Prop :=
  store.phase = .ready ∨ store.phase = .grounding ∧ store.CanFlush folder

variable {store : PagedStore} {folder other left : FoundFolder}

/-- A flush either writes what is to be written, or it fails and changes no page. -/
theorem flush_outcome (store : PagedStore) (folder : FoundFolder) :
    (store.CanFlush folder ∧ ∃ base left, store.flush folder = (.ok base, left) ∧
        (base.pool.count = 0 ∧ base.pool.capacity = store.pool.capacity)) ∨
      ¬ store.CanFlush folder ∧ ∃ fault left, store.flush folder = (.error fault, left) ∧
        SamePages folder left := by
  have granted := Page.save_isOk_iff store.directory store.pageSizes.size store.pool.terms folder
  rcases store.flush_cases folder with
    ⟨none, same⟩ | ⟨fault, left, failed, same⟩ | ⟨-, bytes, left, saved, same⟩
  · exact .inl ⟨.inl none, store, folder, same, none, rfl⟩
  · by_cases none : store.pool.count = 0
    · have nothing : store.flush folder = (.ok store, folder) :=
        if_pos (beq_iff_eq.mpr none)
      rw [nothing] at same
      cases same
    · rw [failed] at granted
      refine .inr ⟨?_, _, left, same, Page.samePages_of_save_error failed⟩
      rintro (nothing | saved)
      · exact none nothing
      · exact Bool.noConfusion (granted.mpr saved)
  · rw [saved] at granted
    exact .inl ⟨.inr (granted.mp rfl), _, left, same, rfl, store.pool.capacity_clear⟩

/-- An addition is granted with the next number, or it changes nothing. -/
theorem add_outcome (room : store.phase = .grounding → 0 < store.pool.capacity)
    {term : Term Single} (nonempty : term.atoms ≠ []) (atoms : AtomStore Single)
    (folder : FoundFolder) :
    (store.AdmitsTerm term atoms folder ∧
        ∃ id, (store.add term atoms folder).1 = .ok id) ∨
      ¬ store.AdmitsTerm term atoms folder ∧ ∃ fault left,
        store.add term atoms folder = (.error fault, store, atoms, left) ∧
          SamePages folder left := by
  unfold add
  cases phase : store.phase with
  | ready => exact .inr ⟨fun admits => by simp [admits.grounding] at phase, _, _, rfl, .refl _⟩
  | closed => exact .inr ⟨fun admits => by simp [admits.grounding] at phase, _, _, rfl, .refl _⟩
  | grounding =>
      dsimp only
      cases checked : atoms.checkAll term.atoms with
      | error fault =>
          refine .inr ⟨fun admits => ?_, _, _, rfl, .refl _⟩
          rw [AtomStore.checkAll_ok admits.inRange] at checked
          cases checked
      | ok _ =>
          have inRange := AtomStore.inRange_of_checkAll checked
          cases needs : store.needsFlush term.encodedLength with
          | false =>
              exact .inl ⟨⟨phase, inRange, fun needed => by simp [needs] at needed⟩, _,
                append_answers (isFull_of_not_needsFlush needs) nonempty inRange⟩
          | true =>
              rcases store.flush_outcome folder with
                ⟨can, base, left, flushed, none, capacity⟩ | ⟨cannot, fault, left, failed, same⟩
              · rw [if_pos rfl, flushed]
                have hasRoom : base.pool.isFull = false :=
                  isFull_of_count_zero none (capacity ▸ room phase)
                exact .inl ⟨⟨phase, inRange, fun _ => can⟩, _,
                  append_answers hasRoom nonempty inRange⟩
              · rw [if_pos rfl, failed]
                exact .inr ⟨fun admits => cannot (admits.flushable needs), _, _, rfl, same⟩

/-- A sealing is granted, or it changes nothing. -/
theorem finish_outcome (store : PagedStore) (folder : FoundFolder) :
    (store.AdmitsFinish folder ∧ ∃ sealed left, store.finish folder = (.ok sealed, left)) ∨
      ¬ store.AdmitsFinish folder ∧ ∃ fault left, store.finish folder = (.error fault, left) ∧
        SamePages folder left := by
  unfold finish AdmitsFinish
  cases phase : store.phase with
  | ready => exact .inl ⟨.inl rfl, _, _, rfl⟩
  | closed => exact .inr ⟨by simp, _, _, rfl, .refl _⟩
  | grounding =>
      dsimp only
      rcases store.flush_outcome folder with
        ⟨can, base, left, flushed, -⟩ | ⟨cannot, fault, left, failed, same⟩
      · rw [flushed]
        exact .inl ⟨.inr ⟨rfl, can⟩, _, _, rfl⟩
      · rw [failed]
        exact .inr ⟨by simpa using cannot, _, _, rfl, same⟩

/-- The outcome of an operation in a folder does not depend on what failed saves have left there. -/
theorem flush_same (store : PagedStore) (same : SamePages folder other) :
    ∃ flushed left otherLeft, store.flush folder = (flushed, left) ∧
      store.flush other = (flushed, otherLeft) ∧ SamePages left otherLeft := by
  obtain ⟨saved, left, otherLeft, save, otherSave, after⟩ :=
    same.save store.directory store.pageSizes.size store.pool.terms
  unfold flush
  split
  · exact ⟨_, folder, other, rfl, rfl, same⟩
  · rw [save, otherSave]
    cases saved with
    | error fault => exact ⟨_, left, otherLeft, rfl, rfl, after⟩
    | ok bytes => exact ⟨_, left, otherLeft, rfl, rfl, after⟩

theorem readPage_same (store : PagedStore) (page : Nat) (same : SamePages folder other) :
    store.readPage page other = store.readPage page folder := by
  simp only [readPage, same.fetch]

theorem advance_same (cancelled : Bool) (pages : List Nat) (store : PagedStore)
    (same : SamePages folder other) :
    advance cancelled other pages store = advance cancelled folder pages store := by
  induction pages generalizing store with
  | nil => rfl
  | cons page rest inductionHypothesis =>
      simp only [advance, enterPage, readPage_same _ page same, inductionHypothesis]

theorem nextTerm_same (store : PagedStore) (cancelled : Bool) (same : SamePages folder other) :
    store.nextTerm cancelled other = store.nextTerm cancelled folder := by
  simp only [nextTerm, advance_same cancelled _ store same]

end PagedStore

namespace PagedSession

/-- The second session differs from the first in nothing but what failed saves have left in its
folder. -/
def Matches (first second : PagedSession) : Prop :=
  ∃ folder, second = { first with folder } ∧ SamePages first.folder folder

variable {first second : PagedSession}

theorem Matches.add (matching : first.Matches second) (term : Term Single) :
    (first.respond (.add term)).1 = (second.respond (.add term)).1 ∧
      (first.respond (.add term)).2.Matches (second.respond (.add term)).2 := by
  obtain ⟨folder, rfl, same⟩ := matching
  obtain ⟨flushed, left, otherLeft, flush, otherFlush, after⟩ := first.store.flush_same same
  simp only [PagedSession.respond, PagedStore.add]
  cases first.store.phase with
  | ready => exact ⟨rfl, folder, rfl, same⟩
  | closed => exact ⟨rfl, folder, rfl, same⟩
  | grounding =>
      dsimp only
      cases first.atoms.checkAll term.atoms with
      | error fault => exact ⟨rfl, folder, rfl, same⟩
      | ok _ =>
          dsimp only
          split
          · rw [flush, otherFlush]
            cases flushed with
            | error fault => exact ⟨rfl, otherLeft, rfl, after⟩
            | ok base => exact ⟨rfl, otherLeft, rfl, after⟩
          · exact ⟨rfl, folder, rfl, same⟩

theorem Matches.finish (matching : first.Matches second) :
    (first.respond .finish).1 = (second.respond .finish).1 ∧
      (first.respond .finish).2.Matches (second.respond .finish).2 := by
  obtain ⟨folder, rfl, same⟩ := matching
  obtain ⟨flushed, left, otherLeft, flush, otherFlush, after⟩ := first.store.flush_same same
  simp only [PagedSession.respond, PagedStore.finish]
  cases first.store.phase with
  | ready => exact ⟨rfl, folder, rfl, same⟩
  | closed => exact ⟨rfl, folder, rfl, same⟩
  | grounding =>
      dsimp only
      rw [flush, otherFlush]
      cases flushed with
      | error fault => exact ⟨rfl, otherLeft, rfl, after⟩
      | ok base => exact ⟨rfl, otherLeft, rfl, after⟩

theorem Matches.clear (matching : first.Matches second) :
    (first.respond .clear).1 = (second.respond .clear).1 ∧
      (first.respond .clear).2.Matches (second.respond .clear).2 := by
  obtain ⟨folder, rfl, same⟩ := matching
  obtain ⟨removed, left, otherLeft, remove, otherRemove, after⟩ :=
    same.removeAll first.store.directory (List.range first.store.pageSizes.size)
  simp only [PagedSession.respond, PagedStore.clear]
  cases first.store.phase with
  | closed => exact ⟨rfl, folder, rfl, same⟩
  | _ =>
      dsimp only
      rw [remove, otherRemove]
      cases removed with
      | error fault => exact ⟨rfl, otherLeft, rfl, after⟩
      | ok _ => exact ⟨rfl, otherLeft, rfl, after⟩

theorem Matches.close (matching : first.Matches second) :
    (first.respond .close).1 = (second.respond .close).1 ∧
      (first.respond .close).2.Matches (second.respond .close).2 := by
  obtain ⟨folder, rfl, same⟩ := matching
  obtain ⟨removed, left, otherLeft, remove, otherRemove, after⟩ :=
    same.removeAll first.store.directory (List.range first.store.pageSizes.size)
  simp only [PagedSession.respond, PagedStore.close]
  cases first.store.phase with
  | closed => exact ⟨rfl, folder, rfl, same⟩
  | _ =>
      dsimp only
      rw [remove, otherRemove]
      cases removed with
      | error fault => exact ⟨rfl, otherLeft, rfl, after⟩
      | ok _ =>
          dsimp only
          split
          · cases after with
            | refl left =>
                split
                · exact ⟨rfl, _, rfl, .refl _⟩
                · exact ⟨rfl, _, rfl, .refl _⟩
            | found folder same => exact ⟨rfl, _, rfl, .refl _⟩
          · exact ⟨rfl, otherLeft, rfl, after⟩

theorem matches_bisimulation :
    Grounding.Bisimulation (fun _ first second => first.Matches second) fun _ => True where
  cancelled := by rintro terms first _ ⟨folder, rfl, -⟩; rfl
  pageSizes := by rintro terms first _ ⟨folder, rfl, -⟩; rfl
  setToken := by
    rintro terms first _ cancelled ⟨folder, rfl, same⟩
    exact ⟨folder, rfl, same⟩
  finish _ _ _ matching := matching.finish
  add _ _ _ term matching _ := matching.add term

/-- Sessions that match answer alike for ever. -/
theorem Matches.respond (matching : first.Matches second) (call : PagedCall) :
    (first.respond call).1 = (second.respond call).1 ∧
      (first.respond call).2.Matches (second.respond call).2 := by
  cases call with
  | add term => exact matching.add term
  | finish => exact matching.finish
  | clear => exact matching.clear
  | close => exact matching.close
  | setWeight rule weight =>
      obtain ⟨folder, rfl, same⟩ := matching
      simp only [PagedSession.respond]
      cases first.store.setWeight rule weight with
      | error fault => exact ⟨rfl, folder, rfl, same⟩
      | ok outcome => exact ⟨rfl, folder, rfl, same⟩
  | beginSweep =>
      obtain ⟨folder, rfl, same⟩ := matching
      simp only [PagedSession.respond]
      cases first.store.beginSweep with
      | error fault => exact ⟨rfl, folder, rfl, same⟩
      | ok outcome => exact ⟨rfl, folder, rfl, same⟩
  | nextTerm =>
      obtain ⟨folder, rfl, same⟩ := matching
      simp only [PagedSession.respond, first.store.nextTerm_same first.cancelled same]
      exact ⟨trivial, folder, rfl, same⟩
  | ground source steps =>
      have started : (Grounding.start first.store first.atoms first.folder source
          first.cancelled).session.Matches (Grounding.start second.store second.atoms
            second.folder source second.cancelled).session := matching
      have traced := @Grounding.Bisimulation.trace _ _ _ _ [] matches_bisimulation steps started
        rfl rfl fun _ _ _ _ => trivial
      exact ⟨congrArg PagedAnswer.grounded traced.1, traced.2⟩
  | setToken cancelled =>
      obtain ⟨folder, rfl, same⟩ := matching
      exact ⟨rfl, folder, rfl, same⟩
  | changeAtoms change =>
      obtain ⟨folder, rfl, same⟩ := matching
      exact ⟨rfl, folder, rfl, same⟩
  | changeFolder changed =>
      obtain ⟨folder, rfl, same⟩ := matching
      exact ⟨rfl, changed, rfl, .refl _⟩

theorem Matches.performAll (matching : first.Matches second) (calls : List PagedCall) :
    (performAll PagedSession.respond first calls).1 =
        (performAll PagedSession.respond second calls).1 ∧
      (performAll PagedSession.respond first calls).2.Matches
        (performAll PagedSession.respond second calls).2 :=
  performAll_alike (fun _ _ call matching _ => matching.respond call) matching
    (throughout_true PagedSession.respond first calls)

/-- What a call needs in order to be granted. -/
def Admits (session : PagedSession) : PagedCall → Prop
  | .add term => session.store.AdmitsTerm term session.atoms session.folder
  | .finish => session.store.AdmitsFinish session.folder
  | _ => True

/-- A call that grounds is granted, or it leaves a session that matches the one before. -/
theorem ground_outcome (session : PagedSession)
    (room : session.store.phase = .grounding → 0 < session.store.pool.capacity)
    {call : PagedCall} (grounds : call.grounds = true)
    (nonempty : ∀ term ∈ call.terms, term.atoms ≠ []) :
    (session.Admits call ∧ (session.respond call).1.granted = true) ∨
      ¬ session.Admits call ∧ (session.respond call).1.granted = false ∧
        session.Matches (session.respond call).2 := by
  cases call with
  | add term =>
      simp only [respond]
      rcases PagedStore.add_outcome room (nonempty term List.mem_cons_self) session.atoms
        session.folder with ⟨admits, id, added⟩ | ⟨refuses, fault, left, same, pages⟩
      · refine .inl ⟨admits, ?_⟩
        rw [added]
        rfl
      · rw [same]
        exact .inr ⟨refuses, rfl, left, rfl, pages⟩
  | finish =>
      simp only [respond]
      rcases session.store.finish_outcome session.folder with
        ⟨admits, sealed, left, same⟩ | ⟨refuses, fault, left, same, pages⟩
      · rw [same]
        exact .inl ⟨admits, rfl⟩
      · rw [same]
        exact .inr ⟨refuses, rfl, left, rfl, pages⟩
  | _ => cases grounds

variable {session : PagedSession} {call : PagedCall}

/-- A call that grounds is granted exactly if it is admitted. -/
theorem granted_iff (room : session.store.phase = .grounding → 0 < session.store.pool.capacity)
    (grounds : call.grounds = true) (nonempty : ∀ term ∈ call.terms, term.atoms ≠ []) :
    (session.respond call).1.granted = true ↔ session.Admits call := by
  rcases session.ground_outcome room grounds nonempty with ⟨admits, granted⟩ | ⟨refuses, refused, -⟩
  · exact iff_of_true granted admits
  · exact iff_of_false (Bool.eq_false_iff.mp refused) refuses

/-- A call that grounds and is not granted leaves a session that matches the one before. -/
theorem matches_of_refused
    (room : session.store.phase = .grounding → 0 < session.store.pool.capacity)
    (grounds : call.grounds = true) (nonempty : ∀ term ∈ call.terms, term.atoms ≠ [])
    (refused : (session.respond call).1.granted = false) :
    session.Matches (session.respond call).2 := by
  rcases session.ground_outcome room grounds nonempty with ⟨-, granted⟩ | ⟨-, -, matching⟩
  · exact absurd granted (Bool.eq_false_iff.mp refused)
  · exact matching

end PagedSession

namespace ResidentStore

variable {α : Type}

/-- A term can be added: the store is grounding and the atoms of the term are there. -/
def AdmitsTerm (store : ResidentStore α) (term : Term α) (atoms : AtomStore α) : Prop :=
  store.phase = .grounding ∧ ∀ atom ∈ term.atoms, atom.index < atoms.size

/-- An addition is granted with the next number, or it changes nothing. -/
theorem add_outcome (store : ResidentStore α) {term : Term α} (nonempty : term.atoms ≠ [])
    (atoms : AtomStore α) :
    (store.AdmitsTerm term atoms ∧ (store.add term atoms).1 = .ok store.size) ∨
      ¬ store.AdmitsTerm term atoms ∧
        ∃ fault, store.add term atoms = (.error fault, store, atoms) := by
  unfold add AdmitsTerm
  cases phase : store.phase with
  | ready => exact .inr ⟨by simp, _, rfl⟩
  | closed => exact .inr ⟨by simp, _, rfl⟩
  | grounding =>
      dsimp only
      cases checked : atoms.checkAll term.atoms with
      | error fault =>
          refine .inr ⟨fun admits => ?_, _, rfl⟩
          rw [AtomStore.checkAll_ok admits.2] at checked
          cases checked
      | ok _ =>
          have inRange := AtomStore.inRange_of_checkAll checked
          obtain ⟨key, filed⟩ := store.components.insert_answers store.size nonempty inRange
          generalize store.components.insert store.size term atoms = inserted at filed
          obtain ⟨_ | _, components, joined⟩ := inserted <;> cases filed
          exact .inl ⟨⟨rfl, inRange⟩, rfl⟩

end ResidentStore

/-- A refused addition or sealing changes no more than the temporary file of a page. Once the cause
is gone, it is granted, and all is answered as if it had not been refused. -/
theorem refused_call_changes_nothing (settings : Paging) (directory : Path) (owned : Bool)
    (opening : FoundFolder) (room : 0 < settings.pageTerms) :
    (∀ (calls : List PagedCall) (atoms : AtomStore Single) (folder : FoundFolder)
        (call : PagedCall), call.grounds = true → (∀ term ∈ call.terms, term.atoms ≠ []) →
      let reached :=
        (performAll PagedSession.respond (.opened settings directory owned opening) calls).2
      let session : PagedSession := { reached with atoms, folder }
      let tried := session.respond call
      (tried.1.granted = true ↔ session.Admits call) ∧
        (tried.1.granted = false →
          (∃ left, tried.2 = { session with folder := left } ∧ SamePages folder left) ∧
            ∀ (others : AtomStore Single) (mended plain : FoundFolder), SamePages plain mended →
              let again : PagedSession := { tried.2 with atoms := others, folder := mended }
              let untried : PagedSession := { session with atoms := others, folder := plain }
              (untried.Admits call → (again.respond call).1.granted = true) ∧
                ∀ later : List PagedCall,
                  (performAll PagedSession.respond again later).1 =
                      (performAll PagedSession.respond untried later).1 ∧
                    (performAll PagedSession.respond untried later).2.Matches
                      (performAll PagedSession.respond again later).2)) ∧
    ∀ (α : Type) (store : ResidentStore α) (atoms : AtomStore α),
      (∀ term : Term α, term.atoms ≠ [] →
        ((store.add term atoms).1.isOk = true ↔ store.AdmitsTerm term atoms) ∧
          ((store.add term atoms).1.isOk = false → (store.add term atoms).2 = (store, atoms))) ∧
      ((GroundingSession.mk store atoms).finish.1.isOk = true ↔ store.phase ≠ .closed) ∧
        ((GroundingSession.mk store atoms).finish.1.isOk = false →
          (GroundingSession.mk store atoms).finish.2 = ⟨store, atoms⟩) := by
  refine ⟨?_, fun α store atoms => ⟨fun term nonempty => ?_, ?_⟩⟩
  · intro calls atoms folder call grounds nonempty reached session tried
    have kept := PagedSession.kept_performAll settings directory owned opening room calls
    have hasRoom (grounding : reached.store.phase = .grounding) :
        0 < reached.store.pool.capacity := by
      have capacity := kept.poolCapacity (by
        change reached.store.phase ≠ .closed
        simp [grounding])
      exact capacity ▸ room
    have granted (others : AtomStore Single) (plain : FoundFolder) :
        let session : PagedSession := { reached with atoms := others, folder := plain }
        (session.respond call).1.granted = true ↔ session.Admits call :=
      PagedSession.granted_iff hasRoom grounds nonempty
    refine ⟨granted atoms folder, fun refused => ?_⟩
    obtain ⟨left, same, pages⟩ : session.Matches tried.2 :=
      PagedSession.matches_of_refused hasRoom grounds nonempty refused
    refine ⟨⟨left, same, pages⟩, ?_⟩
    intro others mended plain samePages again untried
    have matching : untried.Matches again :=
      ⟨mended, congrArg (fun left : PagedSession =>
        { left with atoms := others, folder := mended }) same, samePages⟩
    refine ⟨fun admits => ?_, fun later => ?_⟩
    · rw [← (matching.respond call).1]
      exact (granted others plain).mpr admits
    · obtain ⟨answers, last⟩ := matching.performAll later
      exact ⟨answers.symm, last⟩
  · rcases store.add_outcome nonempty atoms with ⟨admits, added⟩ | ⟨refuses, fault, refused⟩
    · rw [added]
      exact ⟨iff_of_true rfl admits, nofun⟩
    · rw [refused]
      exact ⟨iff_of_false nofun refuses, fun _ => rfl⟩
  · unfold GroundingSession.finish ResidentStore.finish
    cases store.phase with
    | closed => exact ⟨iff_of_false nofun (by simp), fun _ => rfl⟩
    | _ => exact ⟨iff_of_true rfl (by simp), nofun⟩

/-- Three bytes of the first page are written when the flush fails, so the second addition is
refused. Once the disk works again the addition takes the number that it would have had. -/
theorem refused_call_changes_nothing_sample :
    let term : Term Single := ⟨⟨0⟩, .linear, .soft 1, 0, [⟨0⟩], [1]⟩
    let reached := (performAll PagedSession.respond
      (.opened (.sequential 1) (Path.ofText "pages") true (.ok []))
      [.changeAtoms (.register ⟨0, false⟩), .add term]).2
    let session := { reached with folder := ⟨.ok [], some (.flush, .noDevice), some 3⟩ }
    let tried := session.respond (.add term)
    let again := { tried.2 with folder := { tried.2.folder with refusal := none, room := none } }
    tried.1.granted = false ∧ tried.2.store = reached.store ∧ tried.2.atoms = reached.atoms ∧
      (again.folder.entries.toOption.getD []).fileSize (Page.temporaryName 0) = 3 ∧
        (performAll PagedSession.respond again [.add term, .finish]).1 =
          [.added (.ok 1), .done (.ok ())] := by
  intro term reached session tried again
  have refused : tried.1.granted = false := by decide +kernel
  obtain ⟨-, changesNothing⟩ := (refused_call_changes_nothing (.sequential 1) (Path.ofText "pages")
    true (.ok []) (by decide)).1 [.changeAtoms (.register ⟨0, false⟩), .add term] reached.atoms
      ⟨.ok [], some (.flush, .noDevice), some 3⟩ (.add term) rfl (by simp [PagedCall.terms, term])
  obtain ⟨⟨left, same, samePages⟩, retried⟩ := changesNothing refused
  change tried.2 = { reached with folder := left } at same
  have mended : SamePages (.ok []) again.folder := by
    have folder : tried.2.folder = left := by rw [same]
    have under := samePages.under none none
    rwa [← folder] at under
  obtain ⟨-, answers⟩ := retried reached.atoms again.folder (.ok []) mended
  have store : tried.2.store = reached.store := by rw [same]
  have atoms : tried.2.atoms = reached.atoms := by rw [same]
  have untried : (performAll PagedSession.respond { reached with folder := .ok [] }
      [.add term, .finish]).1 = [.added (.ok 1), .done (.ok ())] := by
    decide +kernel
  have torn : (again.folder.entries.toOption.getD []).fileSize (Page.temporaryName 0) = 3 := by
    decide +kernel
  refine ⟨refused, store, atoms, torn, ?_⟩
  have plain := (answers [.add term, .finish]).1
  exact (congrArg (fun atoms => (performAll PagedSession.respond
    { tried.2 with atoms, folder := again.folder } [.add term, .finish]).1) atoms).trans
      (plain.trans untried)

end HingeLoss
