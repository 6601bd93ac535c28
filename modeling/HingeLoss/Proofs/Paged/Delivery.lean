import HingeLoss.Proofs.Page.Leftover
import HingeLoss.Proofs.Paged.Session

/-! What a caller has got from a grounding pass when it ends. -/

namespace HingeLoss

/-- The folder as it stands, or as it was when it could be entered last. -/
def lastSeen (disk : Folder) (folder : FoundFolder) : Folder := folder.entries.toOption.getD disk

@[simp] theorem lastSeen_withEntries (disk : Folder) (folder : FoundFolder) (entries : Folder) :
    lastSeen disk (folder.withEntries entries) = entries := rfl

theorem lastSeen_of_entries {folder : FoundFolder} {entries : Folder} (disk : Folder)
    (found : folder.entries = .ok entries) : lastSeen disk folder = entries := by
  rw [lastSeen, found]
  rfl

theorem lastSeen_lastSeen (disk : Folder) (folder : FoundFolder) :
    lastSeen (lastSeen disk folder) folder = lastSeen disk folder := by
  unfold lastSeen
  cases folder.entries <;> rfl

namespace Page

variable {directory : Path} {index : Nat} {terms : List (Term Single)} {disk : Folder}
  {folder left : FoundFolder}

theorem fetch_lastSeen_of_save_error {fault : PageFault}
    (failed : save directory index terms folder = (.error fault, left)) (other : Nat) :
    fetch directory other (.ok (lastSeen disk left)) =
      fetch directory other (.ok (lastSeen disk folder)) := by
  cases samePages_of_save_error failed with
  | refl folder => rfl
  | found folder same => exact fetch_congr directory rfl rfl (same.pages other)

theorem fetch_lastSeen_of_save_ok (disk : Folder) {size : Nat}
    (saved : save directory index terms folder = (.ok size, left)) :
    fetch directory index (.ok (lastSeen disk left)) = .ok (encode terms) ∧
      ∀ other, other ≠ index → fetch directory other (.ok (lastSeen disk left)) =
        fetch directory other (.ok (lastSeen disk folder)) := by
  obtain ⟨entries, found, same⟩ := save_of_canSave directory (canSave_of_save saved)
  obtain ⟨-, image, others⟩ := save_ok saved
  rw [same] at saved
  obtain ⟨-, rfl⟩ := Prod.mk.inj saved
  refine ⟨image, fun other different => ?_⟩
  rw [lastSeen_of_entries disk found]
  exact (others other different).trans (fetch_congr directory rfl found rfl)

end Page

namespace PagedStore

/-- A term is on a page that the store counts as written and that stands in the folder. -/
def HasWritten (store : PagedStore) (disk : Folder) (term : Term Single) : Prop :=
  ∃ index terms, store.pageSizes[index]? = some terms.length ∧
    Page.fetch store.directory index (.ok disk) = .ok (Page.encode terms) ∧ term ∈ terms

/-- A term is on a page that was written, or still pending. -/
def Holds (store : PagedStore) (disk : Folder) (term : Term Single) : Prop :=
  store.HasWritten disk term ∨ term ∈ store.pool.terms

variable {store base other kept : PagedStore} {disk otherDisk : Folder} {folder left : FoundFolder}
  {term added : Term Single} {atoms joined : AtomStore Single} {id : TermId}
  {answer : Except (StoreFault Single) TermId}

theorem HasWritten.congr (written : store.HasWritten disk term)
    (directory : other.directory = store.directory) (sizes : other.pageSizes = store.pageSizes)
    (pages : ∀ index < store.pageSizes.size,
      Page.fetch store.directory index (.ok otherDisk) =
        Page.fetch store.directory index (.ok disk)) :
    other.HasWritten otherDisk term := by
  obtain ⟨index, terms, counted, image, member⟩ := written
  have inRange := (Array.getElem?_eq_some_iff.mp counted).1
  exact ⟨index, terms, sizes ▸ counted, directory ▸ (pages index inRange).trans image, member⟩

/-- A flush that fails takes no term away. -/
theorem Holds.flush_error {fault : StoreFault Single}
    (holds : store.Holds (lastSeen disk folder) term)
    (failed : store.flush folder = (.error fault, left)) :
    store.Holds (lastSeen disk left) term := by
  rcases store.flush_cases folder with ⟨-, same⟩ | ⟨_, _, saved, same⟩ | ⟨-, _, _, -, same⟩ <;>
    rw [failed] at same <;> cases same
  exact holds.imp_left fun written => written.congr rfl rfl fun index _ =>
    Page.fetch_lastSeen_of_save_error saved index

/-- After a flush all terms are on pages. -/
theorem Holds.flush (holds : store.Holds (lastSeen disk folder) term)
    (flushed : store.flush folder = (.ok base, left)) :
    base.HasWritten (lastSeen disk left) term := by
  rcases store.flush_cases folder with ⟨none, same⟩ | ⟨_, _, -, same⟩ | ⟨-, _, _, saved, same⟩ <;>
    rw [flushed] at same <;> cases same
  · have empty : store.pool.terms = [] :=
      List.eq_nil_of_length_eq_zero (store.pool.length_terms.trans none)
    exact holds.resolve_right fun member => by rw [empty] at member; cases member
  · obtain ⟨image, others⟩ := Page.fetch_lastSeen_of_save_ok disk saved
    rcases holds with ⟨index, terms, counted, older, member⟩ | member
    · have inRange := (Array.getElem?_eq_some_iff.mp counted).1
      refine ⟨index, terms, ?_, (others index (Nat.ne_of_lt inRange)).trans older, member⟩
      rw [Array.getElem?_push_lt inRange, ← counted, Array.getElem?_eq_getElem inRange]
    · refine ⟨store.pageSizes.size, store.pool.terms, ?_, image, member⟩
      rw [Array.getElem?_push_size, TermPool.length_terms]

theorem Holds.append (holds : store.Holds disk term) (added : Term Single)
    (atoms : AtomStore Single) : (store.append added atoms).2.1.Holds disk term := by
  obtain ⟨components, counts, pool, pendingBytes, termCount, same⟩ :=
    store.append_changes added atoms
  refine holds.imp (fun written => ?_) fun member => ?_
  · rw [same]
    exact written
  · unfold PagedStore.append TermPool.push
    generalize store.components.insert store.termCount added atoms = inserted
    obtain ⟨_ | _, components, joined⟩ := inserted
    · exact member
    · cases store.pool.isFull with
      | true => exact member
      | false => simpa using .inl member

/-- An addition takes no term away, whether it succeeds or not. -/
theorem Holds.add (holds : store.Holds (lastSeen disk folder) term)
    (adding : store.add added atoms folder = (answer, kept, joined, left)) :
    kept.Holds (lastSeen disk left) term := by
  rcases store.add_cases added atoms folder with
    ⟨_, _, same, rfl | ⟨-, failed⟩⟩ | ⟨-, -, base, _, ⟨-, rfl, rfl⟩ | flushed, same⟩ <;>
    rw [adding] at same <;> cases same
  · exact holds
  · exact holds.flush_error failed
  · exact holds.append added atoms
  · exact .append (.inl (holds.flush flushed)) added atoms

theorem pending_of_add (adding : store.add term atoms folder = (.ok id, kept, joined, left)) :
    term ∈ kept.pool.terms := by
  have pooled := get?_pool_of_add (congrArg Prod.fst adding)
  rw [adding, TermPool.get?_eq] at pooled
  exact List.mem_of_getElem? pooled

theorem grounding_of_add (adding : store.add term atoms folder = (.ok id, kept, joined, left)) :
    store.phase = .grounding := by
  rcases store.add_cases term atoms folder with ⟨_, _, same, -⟩ | ⟨grounding, -⟩
  · rw [adding] at same
    cases same
  · exact grounding

theorem phase_add (adding : store.add term atoms folder = (answer, kept, joined, left)) :
    kept.phase = store.phase := by
  obtain ⟨_, _, _, _, _, _, _, same⟩ := store.add_changes term atoms folder
  rw [adding] at same
  dsimp only at same
  rw [same]

/-- A sealing that fails takes no term away. -/
theorem Holds.finish_error {fault : StoreFault Single}
    (holds : store.Holds (lastSeen disk folder) term)
    (failed : store.finish folder = (.error fault, left)) :
    store.Holds (lastSeen disk left) term := by
  rcases store.finish_cases folder with
    ⟨_, _, same, rfl | ⟨-, unwritten⟩⟩ | ⟨-, same⟩ | ⟨-, _, _, -, same⟩ <;>
    rw [failed] at same <;> cases same
  · exact holds
  · exact holds.flush_error unwritten

theorem not_ready_of_finish_error {fault : StoreFault Single}
    (failed : store.finish folder = (.error fault, left)) : store.phase ≠ .ready := by
  intro ready
  simp only [finish, ready] at failed
  cases failed

theorem ready_of_finish (sealed : store.finish folder = (.ok base, left)) :
    base.phase = .ready := by
  rcases store.finish_cases folder with ⟨_, _, same, -⟩ | ⟨ready, same⟩ | ⟨-, _, _, -, same⟩ <;>
    rw [sealed] at same <;> cases same
  · exact ready
  · rfl

/-- A store that is sealed out of grounding has all its terms on pages. -/
theorem Holds.finish (holds : store.Holds (lastSeen disk folder) term)
    (grounding : store.phase = .grounding)
    (sealed : store.finish folder = (.ok base, left)) :
    base.HasWritten (lastSeen disk left) term := by
  rcases store.finish_cases folder with
    ⟨_, _, same, -⟩ | ⟨ready, -⟩ | ⟨-, flushed, _, written, same⟩
  · rw [sealed] at same
    cases same
  · rw [grounding] at ready
    cases ready
  · rw [sealed] at same
    cases same
    exact (holds.flush written).congr rfl rfl fun _ _ => rfl

end PagedStore

namespace Grounding

/-- What a step of a pass answers and leaves. -/
inductive Steps (pass : Grounding) : Except (StoreFault Single) (Option (Term Single)) × Grounding →
    Prop
  | ended (finished : pass.finished = true) : Steps pass (.ok none, pass)
  | stops (running : pass.finished = false) (fired : pass.cancelled = true) :
      Steps pass (.ok none, { pass with finished := true, stopped := true })
  /-- The pass counts as finished although the store is not sealed. -/
  | failsToSeal {fault : StoreFault Single} {left : FoundFolder} (running : pass.finished = false)
      (used : pass.source = []) (failed : pass.store.finish pass.folder = (.error fault, left)) :
      Steps pass (.error fault, { pass with folder := left, finished := true })
  | seals {sealed : PagedStore} {left : FoundFolder} (running : pass.finished = false)
      (used : pass.source = []) (done : pass.store.finish pass.folder = (.ok sealed, left)) :
      Steps pass (.ok none, { pass with store := sealed, folder := left, finished := true })
  | spoilt (item : SourceItem) (later : List SourceItem) {fault : StoreFault Single}
      (running : pass.finished = false) (pulled : pass.source = item :: later)
      (unmade : item.term = .error fault) :
      Steps pass (.error fault,
        { pass with source := later, cancelled := pass.cancelled || item.fires })
  | refuses (item : SourceItem) (later : List SourceItem) {term : Term Single}
      {fault : StoreFault Single} {kept : PagedStore} {joined : AtomStore Single}
      {left : FoundFolder} (running : pass.finished = false)
      (pulled : pass.source = item :: later) (made : item.term = .ok term)
      (refused : pass.store.add term pass.atoms pass.folder = (.error fault, kept, joined, left)) :
      Steps pass (.error fault,
        { pass with
          store := kept
          atoms := joined
          folder := left
          source := later
          cancelled := pass.cancelled || item.fires })
  | lends (item : SourceItem) (later : List SourceItem) {term : Term Single} {id : TermId}
      {kept : PagedStore} {joined : AtomStore Single} {left : FoundFolder}
      (running : pass.finished = false) (pulled : pass.source = item :: later)
      (made : item.term = .ok term)
      (added : pass.store.add term pass.atoms pass.folder = (.ok id, kept, joined, left)) :
      Steps pass (.ok (some term),
        { pass with
          store := kept
          atoms := joined
          folder := left
          source := later
          cancelled := pass.cancelled || item.fires })

theorem steps_next (pass : Grounding) : pass.Steps pass.next := by
  obtain ⟨store, atoms, folder, source, cancelled, finished, stopped⟩ := pass
  cases finished with
  | true => exact .ended rfl
  | false =>
      cases cancelled with
      | true => exact .stops rfl rfl
      | false =>
          simp only [next, Bool.false_eq_true, if_false]
          cases source with
          | nil =>
              rcases sealing : store.finish folder with ⟨fault | sealed, left⟩
              · exact .failsToSeal rfl rfl sealing
              · exact .seals rfl rfl sealing
          | cons item later =>
              obtain ⟨fault | term, fires⟩ := item
              · exact .spoilt ⟨.error fault, fires⟩ later rfl rfl rfl
              · dsimp only
                rcases adding : store.add term atoms folder with ⟨fault | id, kept, joined, left⟩
                · exact .refuses ⟨.ok term, fires⟩ later rfl rfl rfl adding
                · have pooled := PagedStore.get?_pool_of_add (congrArg Prod.fst adding)
                  rw [adding] at pooled
                  dsimp only at pooled ⊢
                  rw [pooled]
                  exact .lends ⟨.ok term, fires⟩ later rfl rfl rfl adding

theorem finished_of_next {pass : Grounding} (ends : pass.next.1 = .ok none) :
    pass.next.2.finished = true := by
  have steps := pass.steps_next
  generalize pass.next = outcome at steps ends ⊢
  cases steps with
  | ended finished => exact finished
  | stops running fired => rfl
  | seals running used done => rfl
  | _ => cases ends

end Grounding

/-- A pass with what its caller has got from it, and the folder as it was seen last. -/
structure Delivery where
  pass : Grounding
  lent : List (Term Single)
  /-- A step failed when the source was used up already. -/
  sealFailed : Bool
  disk : Folder

namespace Delivery

/-- The caller takes the answer of a step. -/
def take (delivery : Delivery) (answer : Except (StoreFault Single) (Option (Term Single)))
    (pass : Grounding) : Delivery where
  pass
  lent := delivery.lent ++ answer.toOption.join.toList
  sealFailed := delivery.sealFailed || delivery.pass.source.isEmpty && !answer.isOk
  disk := lastSeen delivery.disk pass.folder

/-- The caller asks for one more step. -/
def request (delivery : Delivery) : Delivery :=
  delivery.take delivery.pass.next.1 delivery.pass.next.2

/-- Somebody else changes the folder, or takes it away. -/
def withFolder (delivery : Delivery) (folder : FoundFolder) : Delivery :=
  { delivery with
    pass := { delivery.pass with folder }
    disk := lastSeen delivery.disk folder }

/-- What a caller can come to that asks as often as it likes. Between two steps the token may be set
or reset, the folder may be taken away and given back, and everything in it may change but the pages
that the store has written. -/
inductive Driven : Delivery → Prop
  | start (store : PagedStore) (atoms : AtomStore Single) (folder : FoundFolder)
      (source : List SourceItem) (cancelled : Bool) (disk : Folder) :
      Driven ⟨.start store atoms folder source cancelled, [], false, lastSeen disk folder⟩
  | request {delivery : Delivery} (driven : Driven delivery) : Driven delivery.request
  | setToken {delivery : Delivery} (driven : Driven delivery) (cancelled : Bool) :
      Driven { delivery with pass := { delivery.pass with cancelled } }
  | changeFolder {delivery : Delivery} (driven : Driven delivery) (folder : FoundFolder)
      (pages : ∀ index < delivery.pass.store.pageSizes.size,
        Page.fetch delivery.pass.store.directory index (.ok (lastSeen delivery.disk folder)) =
          Page.fetch delivery.pass.store.directory index (.ok delivery.disk)) :
      Driven (delivery.withFolder folder)

/-- The terms that were lent are on pages or pending, and the flags of the pass tell which. -/
structure Accounted (delivery : Delivery) : Prop where
  seen : lastSeen delivery.disk delivery.pass.folder = delivery.disk
  held : ∀ term ∈ delivery.lent, delivery.pass.store.Holds delivery.disk term
  grounding : delivery.pass.finished = false → delivery.lent ≠ [] →
    delivery.pass.store.phase = .grounding
  unsealed : delivery.pass.finished = false → delivery.sealFailed = false
  complete : delivery.pass.finished = true → delivery.pass.stopped = false →
    delivery.sealFailed = false → delivery.pass.store.phase = .ready ∧
      ∀ term ∈ delivery.lent, delivery.pass.store.HasWritten delivery.disk term
  incomplete : delivery.sealFailed = true → delivery.pass.store.phase ≠ .ready

variable {delivery : Delivery}

theorem accounted_start (store : PagedStore) (atoms : AtomStore Single) (folder : FoundFolder)
    (source : List SourceItem) (cancelled : Bool) (disk : Folder) :
    Accounted ⟨.start store atoms folder source cancelled, [], false, lastSeen disk folder⟩ where
  seen := lastSeen_lastSeen disk folder
  held := nofun
  grounding _ some := absurd rfl some
  unsealed _ := rfl
  complete := nofun
  incomplete := nofun

@[simp] theorem pass_take (delivery : Delivery)
    (answer : Except (StoreFault Single) (Option (Term Single))) (pass : Grounding) :
    (delivery.take answer pass).pass = pass := rfl

@[simp] theorem disk_take (delivery : Delivery)
    (answer : Except (StoreFault Single) (Option (Term Single))) (pass : Grounding) :
    (delivery.take answer pass).disk = lastSeen delivery.disk pass.folder := rfl

@[simp] theorem lent_take_error (delivery : Delivery) (fault : StoreFault Single)
    (pass : Grounding) : (delivery.take (.error fault) pass).lent = delivery.lent :=
  List.append_nil _

@[simp] theorem lent_take_none (delivery : Delivery) (pass : Grounding) :
    (delivery.take (.ok none) pass).lent = delivery.lent :=
  List.append_nil _

@[simp] theorem sealFailed_take_ok (delivery : Delivery) (lent : Option (Term Single))
    (pass : Grounding) : (delivery.take (.ok lent) pass).sealFailed = delivery.sealFailed := by
  simp [take, Except.isOk, Except.toBool]

@[simp] theorem sealFailed_take_error (delivery : Delivery) (fault : StoreFault Single)
    (pass : Grounding) : (delivery.take (.error fault) pass).sealFailed =
      (delivery.sealFailed || delivery.pass.source.isEmpty) := by
  simp [take, Except.isOk, Except.toBool]

/-- Every step keeps the account, whether it lends, fails or ends the pass. -/
theorem Accounted.request (accounted : delivery.Accounted) : delivery.request.Accounted := by
  -- the step works in the folder as it stands, and the terms are held in the one that was seen last
  have held (term : Term Single) (member : term ∈ delivery.lent) :
      delivery.pass.store.Holds (lastSeen delivery.disk delivery.pass.folder) term :=
    accounted.seen.symm ▸ accounted.held term member
  have steps := delivery.pass.steps_next
  unfold Delivery.request
  generalize delivery.pass.next = outcome at steps ⊢
  cases steps with
  | ended finished =>
      exact
        { seen := lastSeen_lastSeen ..
          held := by simpa using held
          grounding := by simp [finished]
          unsealed := by simp [finished]
          complete := by simpa [accounted.seen] using accounted.complete
          incomplete := by simpa using accounted.incomplete }
  | stops running fired =>
      exact
        { seen := lastSeen_lastSeen ..
          held := by simpa using held
          grounding := nofun
          unsealed := nofun
          complete := nofun
          incomplete := by simp [accounted.unsealed running] }
  | failsToSeal running used failed =>
      exact
        { seen := lastSeen_lastSeen ..
          held := by simpa using fun term member => (held term member).finish_error failed
          grounding := nofun
          unsealed := nofun
          complete := by simp [used]
          incomplete _ := PagedStore.not_ready_of_finish_error failed }
  | seals running used done =>
      -- a term was lent, so the store has been grounding and its pending page is written now
      have written (term : Term Single) (member : term ∈ delivery.lent) :=
        (held term member).finish
          (accounted.grounding running (List.ne_nil_of_mem member)) done
      exact
        { seen := lastSeen_lastSeen ..
          held := by simpa using fun term member => .inl (written term member)
          grounding := nofun
          unsealed := nofun
          complete _ _ _ := ⟨PagedStore.ready_of_finish done, by simpa using written⟩
          incomplete := by simp [accounted.unsealed running] }
  | spoilt item later running pulled unmade =>
      exact
        { seen := lastSeen_lastSeen ..
          held := by simpa using held
          grounding := by simpa using accounted.grounding
          unsealed _ := by simp [accounted.unsealed running, pulled]
          complete := by simp [running]
          incomplete := by simp [accounted.unsealed running, pulled] }
  | refuses item later running pulled made refused =>
      exact
        { seen := lastSeen_lastSeen ..
          held := by simpa using fun term member => (held term member).add refused
          grounding _ some := (PagedStore.phase_add refused).trans
            (accounted.grounding running (by simpa using some))
          unsealed _ := by simp [accounted.unsealed running, pulled]
          complete := by simp [running]
          incomplete := by simp [accounted.unsealed running, pulled] }
  | lends item later running pulled made added =>
      exact
        { seen := lastSeen_lastSeen ..
          held := by
            intro other member
            rcases List.mem_append.mp member with old | new
            · exact (held other old).add added
            · rw [List.mem_singleton.mp new]
              exact .inr (PagedStore.pending_of_add added)
          grounding _ _ := (PagedStore.phase_add added).trans (PagedStore.grounding_of_add added)
          unsealed _ := by simp [accounted.unsealed running]
          complete := by simp [running]
          incomplete := by simp [accounted.unsealed running] }

theorem Driven.accounted (driven : delivery.Driven) : delivery.Accounted := by
  induction driven with
  | start store atoms folder source cancelled disk => exact accounted_start ..
  | request driven accounted => exact accounted.request
  | setToken driven cancelled accounted => exact { accounted with }
  | changeFolder driven folder pages accounted =>
      exact
        { accounted with
          seen := lastSeen_lastSeen ..
          held := fun term member =>
            (accounted.held term member).imp_left fun written => written.congr rfl rfl pages
          complete := fun finished quiet sealed =>
            (accounted.complete finished quiet sealed).imp_right fun written term member =>
              (written term member).congr rfl rfl pages }

/-- A pass that says that it is over is sealed with every lent term on a page, unless the token
stopped it or the sealing failed. -/
theorem end_of_grounding (driven : delivery.Driven) :
    let after := delivery.request
    (∀ term, delivery.pass.next.1 = .ok (some term) →
      ∃ item, item.term = .ok term ∧ delivery.pass.source = item :: after.pass.source ∧
        after.lent = delivery.lent ++ [term]) ∧
    (delivery.pass.next.1 = .ok none → after.pass.stopped = false →
      (after.sealFailed = false → after.pass.store.phase = .ready ∧
        ∀ term ∈ after.lent, after.pass.store.HasWritten after.disk term) ∧
      (after.sealFailed = true → after.pass.store.phase ≠ .ready ∧
        ∀ term ∈ after.lent, after.pass.store.Holds after.disk term)) := by
  have accounted := driven.accounted.request
  have steps := delivery.pass.steps_next
  refine ⟨fun term lends => ?_, fun ends quiet => ⟨fun sealed => ?_, fun failed => ?_⟩⟩
  · unfold request
    generalize delivery.pass.next = outcome at steps lends
    cases steps with
    | lends item later running pulled made added =>
        cases lends
        exact ⟨item, made, pulled, rfl⟩
    | _ => cases lends
  · exact accounted.complete (Grounding.finished_of_next ends) quiet sealed
  · exact ⟨accounted.incomplete failed, accounted.held⟩

/-- The pages of one term are out of reach when the second term comes, and within reach again when
the third does. The second term is not lent; the other two are on pages in the end. -/
theorem end_of_grounding_sample :
    let term (rule : UInt32) : Term Single := ⟨⟨rule⟩, .linear, .soft 1, 0, [⟨0⟩], [1]⟩
    let source : List SourceItem :=
      [⟨.ok (term 0), false⟩, ⟨.ok (term 1), false⟩, ⟨.ok (term 2), false⟩]
    let store : PagedStore := .fresh { pageTerms := 1 } (Path.ofText "pages") true
    let atoms : AtomStore Single := AtomStore.empty.change (.register ⟨0, false⟩)
    let begun : Delivery := ⟨.start store atoms (.ok []) source false, [], false, []⟩
    let away := begun.request.withFolder (.error .notFound)
    let driven := (away.request.withFolder (.ok [])).request
    driven.Driven ∧ driven.request.lent = [term 0, term 2] ∧
      driven.request.pass.store.phase = .ready ∧
        ∀ term ∈ driven.request.lent, driven.request.pass.store.HasWritten driven.request.disk term
    := by
  intro term source store atoms begun away driven
  have isAway : away.Driven :=
    .changeFolder (.request (.start store atoms (.ok []) source false [])) _ fun _ _ => rfl
  have noPages : away.request.pass.store.pageSizes.size = 0 := by decide +kernel
  have isDriven : driven.Driven :=
    .request (.changeFolder (.request isAway) (.ok []) fun index below =>
      absurd (noPages ▸ below) (Nat.not_lt_zero index))
  have ends : driven.pass.next.1 = .ok none := by decide +kernel
  have quiet : driven.request.pass.stopped = false := by decide +kernel
  have sealed : driven.request.sealFailed = false := by decide +kernel
  have lent : driven.request.lent = [term 0, term 2] := by decide +kernel
  obtain ⟨ready, written⟩ := ((end_of_grounding isDriven).2 ends quiet).1 sealed
  exact ⟨isDriven, lent, ready, written⟩

/-- The folder is gone when the pass is sealed. The next step says that the pass is over all the
same, though the token has never fired, the store is not sealed and the lent term is on no page. -/
theorem failed_sealing_ends :
    let term : Term Single := ⟨⟨0⟩, .linear, .soft 1, 0, [⟨0⟩], [1]⟩
    let store : PagedStore := .fresh { pageTerms := 1 } (Path.ofText "pages") true
    let atoms : AtomStore Single := AtomStore.empty.change (.register ⟨0, false⟩)
    let begun : Delivery :=
      ⟨.start store atoms (.error .notFound) [⟨.ok term, false⟩] false, [], false, []⟩
    let driven := begun.request.request
    driven.Driven ∧ driven.lent = [term] ∧ driven.pass.next.1 = .ok none ∧
      driven.request.pass.stopped = false ∧ driven.request.pass.store.phase = .grounding ∧
        ¬ driven.request.pass.store.HasWritten driven.request.disk term := by
  intro term store atoms begun driven
  have isDriven : driven.Driven :=
    .request (.request (.start store atoms (.error .notFound) [⟨.ok term, false⟩] false []))
  refine ⟨isDriven, by decide +kernel, by decide +kernel, by decide +kernel, by decide +kernel, ?_⟩
  rintro ⟨index, terms, counted, -⟩
  have noPages : driven.request.pass.store.pageSizes = #[] := by decide +kernel
  rw [noPages] at counted
  cases counted

end Delivery

end HingeLoss
