import HingeLoss.Proofs.Paged.Refinement
import HingeLoss.Proofs.Paged.Resume

/-! New weights while grounding, which a paged store also gives to terms that are added later. -/

namespace HingeLoss

/-- What is asked of a store that is grounding, and of the atoms next to it. -/
inductive RoundCall where
  | add (term : Term Single)
  | setWeight (rule : RuleId) (weight : Weight Single)
  | changeAtoms (change : AtomChange Single)

namespace RoundCall

def paged : RoundCall → PagedCall
  | .add term => .add term
  | .setWeight rule weight => .setWeight rule weight
  | .changeAtoms change => .changeAtoms change

def resident : RoundCall → ResidentCall Single
  | .add term => .add term
  | .setWeight rule weight => .setWeight rule weight
  | .changeAtoms change => .changeAtoms change

theorem wellFormed_add {term : Term Single} (wellFormed : term.WellFormed) :
    ∀ other ∈ (RoundCall.add term).paged.terms, other.WellFormed := by
  intro other member
  rw [List.mem_singleton.mp member]
  exact wellFormed

/-- The weights that were set, by rule. One that is not valid is refused. -/
def weigh (weights : RuleId → Option (Weight Single)) :
    RoundCall → RuleId → Option (Weight Single)
  | .setWeight rule weight => fun other =>
      if (weight.validate rule).isOk ∧ other = rule then some weight else weights other
  | _ => weights

/-- The weights that calls set last, by rule. -/
def lastWeights (calls : List RoundCall) : RuleId → Option (Weight Single) :=
  calls.foldl weigh fun _ => none

end RoundCall

/-- Both stores give the same answer. -/
inductive SameAnswer : PagedAnswer → ResidentAnswer Single → Prop where
  | added (answer : Except (StoreFault Single) TermId) : SameAnswer (.added answer) (.added answer)
  | reweighed (answer : Except (StoreFault Single) Nat) :
      SameAnswer (.reweighed answer) (.reweighed answer)
  | done (answer : Except (StoreFault Single) Unit) : SameAnswer (.done answer) (.done answer)

namespace Term

/-- The term under the weight of its rule, if there is one. -/
def under (weights : RuleId → Option (Weight Single)) (term : Term Single) : Term Single :=
  { term with weight := (weights term.rule).getD term.weight }

variable {before after : RuleId → Option (Weight Single)} {rule : RuleId} {weight : Weight Single}

/-- A weight that is set changes the terms of its rule. -/
theorem under_update (updated : ∀ other, after other = if other = rule then some weight else
    before other) (term : Term Single) :
    term.under after = (term.under before).reweigh rule weight := by
  rw [Term.reweigh_eq, under, under, updated]
  by_cases own : term.rule = rule
  · simp [own]
  · simp [own]

/-- A term that has taken a weight is no other under it. -/
theorem under_reweigh (known : after rule = some weight) (term : Term Single) :
    (term.reweigh rule weight).under after = term.under after := by
  rw [Term.reweigh_eq, under, under]
  by_cases own : term.rule = rule
  · simp [own, known]
  · simp [own]

/-- A term is no other under the weight of its rule where it has this weight. -/
theorem under_eq_self_iff {weights : RuleId → Option (Weight Single)} {term : Term Single} :
    term.under weights = term ↔
      ∀ weight, weights term.rule = some weight → term.weight = weight := by
  obtain ⟨rule, own, potential⟩ := term
  cases known : weights rule with
  | none => simp [under, known]
  | some weight => simp [under, known, eq_comm]

end Term

namespace ResidentStore

variable {weights : RuleId → Option (Weight Single)} {store : ResidentStore Single}

/-- The same store with every term under the weight of its rule. -/
def under (weights : RuleId → Option (Weight Single)) (store : ResidentStore Single) :
    ResidentStore Single :=
  { store with terms := store.terms.map (Term.under weights) }

theorem under_terms_eq_iff :
    (store.under weights).terms = store.terms ↔
      ∀ term ∈ store.terms, ∀ weight, weights term.rule = some weight → term.weight = weight := by
  constructor
  · intro same term member
    obtain ⟨index, bound, rfl⟩ := Array.getElem_of_mem member
    refine Term.under_eq_self_iff.mp ?_
    have found := congrArg (·[index]?) same
    simpa [under, bound] using found
  · intro agreed
    refine (Array.map_congr_left fun term member => ?_).trans store.terms.map_id
    exact Term.under_eq_self_iff.mpr (agreed term member)

end ResidentStore

namespace PagedStore

variable {paged : PagedStore} {resident : ResidentStore Single} {folder : FoundFolder}

/-- A store whose pool is not full files a term where the resident store files it. -/
theorem append_matches (holding : resident.phase = .grounding)
    (components : paged.components = resident.components) (size : paged.termCount = resident.size)
    (room : paged.pool.isFull = false) {term : Term Single} {atoms : AtomStore Single}
    (held : atoms.checkAll term.atoms = .ok ()) :
    (resident.add term atoms).1 = (paged.append term atoms).1 ∧
      (resident.add term atoms).2.2 = (paged.append term atoms).2.2 ∧
      (resident.add term atoms).2.1.components = (paged.append term atoms).2.1.components ∧
      (resident.add term atoms).2.1.phase = .grounding := by
  simp only [ResidentStore.add, holding, held, PagedStore.append, components, size,
    TermPool.push_of_room room]
  generalize resident.components.insert resident.size term atoms = inserted
  obtain ⟨answer, filed, joined⟩ := inserted
  cases answer with
  | error fault => exact ⟨rfl, rfl, rfl, rfl⟩
  | ok key => exact ⟨rfl, rfl, rfl, rfl⟩

/-- Whether or not there was something to write, the pool has room afterwards. -/
theorem flush_makes_room (capacity : 0 < paged.pool.capacity) {base : PagedStore}
    {left : FoundFolder} (flushed : paged.flush folder = (.ok base, left)) :
    base.components = paged.components ∧ base.termCount = paged.termCount ∧
      base.pool.isFull = false := by
  rcases paged.flush_cases folder with
    ⟨none, same⟩ | ⟨fault, _, -, same⟩ | ⟨-, bytes, _, -, same⟩
  · rw [flushed] at same
    cases same
    exact ⟨rfl, rfl, isFull_of_count_zero none capacity⟩
  · rw [flushed] at same
    cases same
  · rw [flushed] at same
    cases same
    exact ⟨rfl, rfl, isFull_of_count_zero rfl capacity⟩

/-- Both stores answer alike to an addition, unless a page cannot be saved. -/
theorem add_matches (grounding : paged.phase = .grounding) (holding : resident.phase = .grounding)
    (components : paged.components = resident.components) (size : paged.termCount = resident.size)
    (capacity : 0 < paged.pool.capacity) (term : Term Single) (atoms : AtomStore Single)
    (saved : unsaved (paged.add term atoms folder).1 = false) :
    (resident.add term atoms).1 = (paged.add term atoms folder).1 ∧
      (resident.add term atoms).2.2 = (paged.add term atoms folder).2.2.1 ∧
      (resident.add term atoms).2.1.components =
        (paged.add term atoms folder).2.1.components ∧
      (resident.add term atoms).2.1.phase = .grounding := by
  unfold PagedStore.add at saved ⊢
  rw [grounding] at saved ⊢
  dsimp only at saved ⊢
  cases checked : atoms.checkAll term.atoms with
  | error fault =>
      simp only [ResidentStore.add, holding, checked]
      exact ⟨trivial, trivial, components.symm, trivial⟩
  | ok _ =>
      simp only [checked] at saved ⊢
      cases needs : paged.needsFlush term.encodedLength with
      | false =>
          simp only [Bool.false_eq_true, if_false]
          exact append_matches holding components size (isFull_of_not_needsFlush needs) checked
      | true =>
          simp only [needs, if_true] at saved ⊢
          generalize flushed : paged.flush folder = outcome at saved ⊢
          obtain ⟨fault | base, left⟩ := outcome
          · rw [flush_error flushed] at saved
            cases saved
          · obtain ⟨sameComponents, sameCount, roomy⟩ := flush_makes_room capacity flushed
            exact append_matches holding (sameComponents.trans components) (sameCount.trans size)
              roomy checked

end PagedStore

/-- A tally counts the terms of a rule. -/
theorem getD_of_tally {terms : List (Term Single)} {counts : RuleCounts} {rule : RuleId}
    (tallied : counts[rule]? = Term.tally terms rule) :
    counts.getD rule 0 = terms.countP fun term => term.rule = rule := by
  rw [Std.TreeMap.getD_eq_getD_getElem?, tallied, Term.tally]
  cases terms.countP fun term => term.rule = rule <;> rfl

/-- The weights do not matter for the number of terms of a rule. -/
theorem countP_of_held {held added : List (Term Single)}
    (same : List.Forall₂ (fun held added => ∃ weight, held = { added with weight }) held added)
    (rule : RuleId) :
    held.countP (fun term => term.rule = rule) = added.countP fun term => term.rule = rule := by
  induction same with
  | nil => rfl
  | cons first _ inductionHypothesis =>
      obtain ⟨weight, rfl⟩ := first
      rw [List.countP_cons, List.countP_cons, inductionHypothesis]

/-- A paged and a resident session that were asked the same while they were grounding, the terms
that were added, and the weights that were set last. -/
structure Aligned (settings : Paging) (directory : Path) (owned : Bool)
    (terms : List (Term Single)) (weights : RuleId → Option (Weight Single))
    (paged : PagedSession) (resident : GroundingSession Single) : Prop where
  stands : PagedSession.Stands settings directory owned terms paged
  kept : GroundingSession.Kept terms resident
  grounding : paged.store.phase = .grounding
  holding : resident.store.phase = .grounding
  atoms : paged.atoms = resident.atoms
  components : paged.store.components = resident.store.components
  overrides : ∀ rule, paged.store.overrides[rule]? = weights rule
  held : resident.store.terms.toList.map (Term.under weights) = terms.map (Term.under weights)

theorem aligned_opened (settings : Paging) (directory : Path) (owned : Bool)
    (folder : FoundFolder) :
    Aligned settings directory owned [] (fun _ => none) (.opened settings directory owned folder)
      .opened where
  stands := PagedSession.stands_opened settings directory owned folder
  kept := GroundingSession.kept_opened
  grounding := rfl
  holding := rfl
  atoms := rfl
  components := rfl
  overrides _ := Std.TreeMap.getElem?_emptyc
  held := rfl

namespace Aligned

variable {settings : Paging} {directory : Path} {owned : Bool}
  {terms : List (Term Single)} {weights : RuleId → Option (Weight Single)}
  {paged : PagedSession} {resident : GroundingSession Single}

theorem size (aligned : Aligned settings directory owned terms weights paged resident) :
    paged.store.termCount = resident.store.size := by
  have pagedCount := aligned.stands.termCount (by simp [aligned.grounding])
  have residentCount := (aligned.kept.tallied (by simp [aligned.holding])).counted
  rw [pagedCount, residentCount]

theorem capacity (aligned : Aligned settings directory owned terms weights paged resident)
    (room : 0 < settings.pageTerms) : 0 < paged.store.pool.capacity := by
  obtain ⟨pages, intact⟩ := aligned.stands
  rw [intact.kept.poolCapacity (by simp [aligned.grounding])]
  exact room

theorem add (aligned : Aligned settings directory owned terms weights paged resident)
    (room : 0 < settings.pageTerms) {term : Term Single} (wellFormed : term.WellFormed)
    (saved : (paged.respond (.add term)).1.unsaved = false) :
    SameAnswer (paged.respond (.add term)).1 (resident.respond (.add term)).1 ∧
      ∃ all, Aligned settings directory owned all weights (paged.respond (.add term)).2
        (resident.respond (.add term)).2 := by
  obtain ⟨store, atoms⟩ := resident
  obtain rfl : paged.atoms = atoms := aligned.atoms
  obtain ⟨answers, joined, components, holding⟩ := PagedStore.add_matches aligned.grounding
    aligned.holding aligned.components aligned.size (aligned.capacity room) term paged.atoms saved
  have undisturbed : paged.Undisturbed (.add term) := RoundCall.wellFormed_add wellFormed
  have stands := aligned.stands.respond room undisturbed
  have kept := aligned.kept.add term
  have outcome := @ResidentStore.add_cases _ store term paged.atoms
    fun notClosed => (aligned.kept.tallied notClosed).numbered
  obtain ⟨_, _, _, _, _, _, _, changed⟩ :=
    paged.store.add_changes term paged.atoms paged.folder
  simp only [PagedSession.respond, GroundingSession.respond, GroundingSession.add] at stands kept ⊢
  rw [answers] at kept outcome ⊢
  refine ⟨.added _, PagedCall.note terms (.add term)
    (.added (paged.store.add term paged.atoms paged.folder).1), ?_⟩
  have noted : ResidentCall.note terms (.add term)
        (.added (paged.store.add term paged.atoms paged.folder).1) =
      PagedCall.note terms (.add term)
        (.added (paged.store.add term paged.atoms paged.folder).1) := by
    cases (paged.store.add term paged.atoms paged.folder).1 <;> rfl
  exact {
    stands := stands
    kept := noted ▸ kept
    grounding := by
      dsimp only
      rw [changed]
      exact aligned.grounding
    holding := holding
    atoms := joined.symm
    components := components.symm
    overrides := fun rule => by
      dsimp only
      rw [changed]
      exact aligned.overrides rule
    held := by
      dsimp only
      rcases outcome with ⟨fault, refused, same⟩ | ⟨-, filed, -, added, same⟩
      · rw [same, refused]
        exact aligned.held
      · rw [same, added]
        simp only [Array.toList_push, PagedCall.note, List.map_append]
        exact congrArg (· ++ _) aligned.held }

/-- The number of terms of a rule, which both stores answer when its weight is set. -/
theorem counted (aligned : Aligned settings directory owned terms weights paged resident)
    (rule : RuleId) :
    paged.store.counts.getD rule 0 =
      resident.store.terms.countP fun term => term.rule = rule := by
  obtain ⟨pages, intact⟩ := aligned.stands
  have tallied := intact.kept.tallied (by simp [aligned.grounding])
  have held := aligned.kept.held (by simp [aligned.holding])
  rw [getD_of_tally (tallied.perRule rule), ← Array.countP_toList, countP_of_held held]

theorem setWeight (aligned : Aligned settings directory owned terms weights paged resident)
    (room : 0 < settings.pageTerms) (rule : RuleId) (weight : Weight Single) :
    SameAnswer (paged.respond (.setWeight rule weight)).1
        (resident.respond (.setWeight rule weight)).1 ∧
      ∃ all, Aligned settings directory owned all
        (RoundCall.weigh weights (.setWeight rule weight))
        (paged.respond (.setWeight rule weight)).2
        (resident.respond (.setWeight rule weight)).2 := by
  have counted := aligned.counted rule
  have undisturbed : paged.Undisturbed (.setWeight rule weight) := fun _ member =>
    absurd member List.not_mem_nil
  have stands := aligned.stands.respond room undisturbed
  cases valid : weight.validate rule with
  | error fault =>
      have unchanged : RoundCall.weigh weights (.setWeight rule weight) = weights := by
        funext other
        simp [RoundCall.weigh, valid, Except.isOk, Except.toBool]
      simp only [PagedSession.respond, GroundingSession.respond, PagedStore.setWeight,
        ResidentStore.setWeight, aligned.grounding, aligned.holding, valid, Except.map]
      rw [unchanged]
      exact ⟨.reweighed _, terms, aligned⟩
  | ok _ =>
      have updated (other : RuleId) : RoundCall.weigh weights (.setWeight rule weight) other =
          if other = rule then some weight else weights other := by
        simp [RoundCall.weigh, valid, Except.isOk, Except.toBool]
      have pagedStep : paged.store.setWeight rule weight =
          .ok (paged.store.counts.getD rule 0, paged.store.reweighed rule weight) := by
        simp only [PagedStore.setWeight, PagedStore.reweighed, aligned.grounding, valid,
          Except.map]
      have residentStep : resident.store.setWeight rule weight =
          .ok (resident.store.terms.countP fun term => term.rule = rule,
            { resident.store with
              terms := resident.store.terms.map (Term.reweigh rule weight) }) := by
        simp only [ResidentStore.setWeight, aligned.holding, valid, Except.map]
      have kept := aligned.kept.setWeight residentStep
      simp only [PagedSession.respond, GroundingSession.respond, pagedStep, residentStep,
        PagedCall.note, counted] at stands ⊢
      refine ⟨.reweighed _, terms, { aligned with
        stands := stands
        kept := kept
        overrides := fun other => ?_
        held := ?_ }⟩
      · simp only [PagedStore.reweighed, Std.TreeMap.getElem?_insert,
          Std.LawfulEqCmp.compare_eq_iff_eq, updated, aligned.overrides]
        exact if_congr eq_comm rfl rfl
      · rw [Array.toList_map, List.map_map]
        calc
          resident.store.terms.toList.map
              (Term.under (RoundCall.weigh weights (.setWeight rule weight)) ∘
                Term.reweigh rule weight) =
              (resident.store.terms.toList.map (Term.under weights)).map
                (Term.reweigh rule weight) := by
            rw [List.map_map]
            refine List.map_congr_left fun term _ => ?_
            rw [Function.comp_apply, Term.under_reweigh ((updated rule).trans (if_pos rfl)),
              Term.under_update updated, Function.comp_apply]
          _ = (terms.map (Term.under weights)).map (Term.reweigh rule weight) := by
            rw [aligned.held]
          _ = terms.map (Term.under
              (RoundCall.weigh weights (.setWeight rule weight))) := by
            rw [List.map_map]
            exact List.map_congr_left fun term _ => (Term.under_update updated term).symm

theorem changeAtoms (aligned : Aligned settings directory owned terms weights paged resident)
    (change : AtomChange Single) :
    SameAnswer (paged.respond (.changeAtoms change)).1 (resident.respond (.changeAtoms change)).1 ∧
      Aligned settings directory owned terms weights (paged.respond (.changeAtoms change)).2
        (resident.respond (.changeAtoms change)).2 := by
  refine ⟨.done _, { aligned with
    stands := ?_
    kept := ?_
    atoms := ?_ }⟩
  · obtain ⟨pages, intact⟩ := aligned.stands
    exact ⟨pages, { intact with kept := { intact.kept with } }⟩
  · exact aligned.kept.respond (.changeAtoms change)
  · exact congrArg (·.change change) aligned.atoms

theorem respond (aligned : Aligned settings directory owned terms weights paged resident)
    (room : 0 < settings.pageTerms) {call : RoundCall}
    (wellFormed : ∀ term ∈ call.paged.terms, term.WellFormed)
    (saved : (paged.respond call.paged).1.unsaved = false) :
    SameAnswer (paged.respond call.paged).1 (resident.respond call.resident).1 ∧
      ∃ all, Aligned settings directory owned all (RoundCall.weigh weights call)
        (paged.respond call.paged).2 (resident.respond call.resident).2 := by
  cases call with
  | add term => exact aligned.add room (wellFormed term List.mem_cons_self) saved
  | setWeight rule weight => exact aligned.setWeight room rule weight
  | changeAtoms change =>
      obtain ⟨same, after⟩ := aligned.changeAtoms change
      exact ⟨same, terms, after⟩

/-- Both sessions answer every call alike, unless a page cannot be saved. -/
theorem run (aligned : Aligned settings directory owned terms weights paged resident)
    (room : 0 < settings.pageTerms) {calls : List RoundCall}
    (wellFormed : ∀ call ∈ calls, ∀ term ∈ call.paged.terms, term.WellFormed)
    (saved : ∀ answer ∈ (performAll PagedSession.respond paged
      (calls.map RoundCall.paged)).1, answer.unsaved = false) :
    List.Forall₂ SameAnswer
        (performAll PagedSession.respond paged (calls.map RoundCall.paged)).1
        (performAll GroundingSession.respond resident
          (calls.map RoundCall.resident)).1 ∧
      ∃ all, Aligned settings directory owned all (calls.foldl RoundCall.weigh weights)
        (performAll PagedSession.respond paged (calls.map RoundCall.paged)).2
        (performAll GroundingSession.respond resident
          (calls.map RoundCall.resident)).2 := by
  induction calls generalizing terms weights paged resident with
  | nil => exact ⟨.nil, terms, aligned⟩
  | cons call later inductionHypothesis =>
      simp only [List.map_cons, performAll_cons, List.forall_mem_cons, List.foldl_cons]
        at wellFormed saved ⊢
      obtain ⟨same, all, after⟩ := aligned.respond room wellFormed.1 saved.1
      obtain ⟨others, last⟩ := inductionHypothesis after wellFormed.2 saved.2
      exact ⟨.cons same others, last⟩

/-- The overrides of a paged store are the weights that were set last. -/
theorem override_eq_under {store : PagedStore} (overrides : ∀ rule, store.overrides[rule]? =
    weights rule) : store.override = Term.under weights := by
  funext term
  rw [PagedStore.override_eq, overrides, Term.under]

/-- A sealed paged store follows a reader of the resident store in which every term is under the
weight that was set last for its rule. -/
theorem finish (aligned : Aligned settings directory owned terms weights paged resident)
    (room : 0 < settings.pageTerms) (termsInOrder : settings.shufflePage = false)
    (pagesInOrder : settings.randomizePageAccess = false)
    (saved : (paged.respond .finish).1.unsaved = false) :
    (paged.respond .finish).1 = .done (.ok ()) ∧
      ∃ pages ready, resident.store.finish = .ok ready ∧ ready.terms = resident.store.terms ∧
        (paged.respond .finish).2.store.termCount = ready.size ∧
        (paged.respond .finish).2.store.components = ready.components ∧
        (paged.respond .finish).2.store.Follows (paged.respond .finish).2.folder pages
          (Reading.finished (ready.under weights)) := by
  have answered := (PagedSession.finish_granted aligned.grounding saved).1
  have undisturbed : paged.Undisturbed .finish := fun _ member =>
    absurd member List.not_mem_nil
  obtain ⟨pages, intact⟩ := aligned.stands.respond room undisturbed
  rcases paged.store.finish_cases paged.folder with
    ⟨fault, left, same, -⟩ | ⟨ready, -⟩ | ⟨-, base, left, flushed, same⟩
  · simp only [PagedSession.respond, same] at answered
    cases answered
  · rw [aligned.grounding] at ready
    cases ready
  · obtain ⟨pageSizes, pool, pendingBytes, traffic, rfl⟩ := PagedStore.flush_changes flushed
    simp only [PagedSession.respond, same, PagedCall.note] at intact ⊢
    have settled := intact.kept.settings_eq fun closed => by cases closed
    have written := intact.written rfl
    have override : PagedStore.override { paged.store with
        pageSizes, pool, pendingBytes, traffic, phase := .ready, cursor := .finished } =
        Term.under weights := override_eq_under aligned.overrides
    rw [override] at written
    refine ⟨trivial, pages, { resident.store with phase := .ready }, ?_, rfl, aligned.size,
      aligned.components, ?_⟩
    · rw [ResidentStore.finish, aligned.holding]
    · exact {
        replayable := intact.replayable rfl
        termsInOrder := settled ▸ termsInOrder
        pagesInOrder := settled ▸ pagesInOrder
        phase := rfl
        terms := by
          rw [override, written, ← aligned.held]
          exact Array.toList_map
        remaining := by
          simp [PagedStore.remaining, PageCursor.finished, Reading.finished, ResidentStore.under,
            ResidentStore.size]
        counted := fun rule => by
          rw [aligned.counted rule]
          simp only [Reading.finished, ResidentStore.under, Array.countP_map]
          rfl }

end Aligned

namespace Reading

/-- The last of some requests finds the term at its position. -/
theorem getLast?_replay (reading : Reading) (count : Nat) :
    (reading.replay (List.replicate (count + 1) .nextTerm)).getLast? =
      some (.lent (.ok reading.store.terms[reading.position + count]?)) := by
  induction count generalizing reading with
  | zero => rfl
  | succ count inductionHypothesis =>
      have later := inductionHypothesis { reading with position := reading.position + 1 }
      have moved : reading.position + 1 + count = reading.position + (count + 1) := by omega
      change (_ :: replay { reading with position := reading.position + 1 }
        (List.replicate (count + 1) .nextTerm)).getLast? = _
      rw [List.getLast?_cons, later, Option.getD_some, moved]

/-- Readers who find the same read stores with the same terms. -/
theorem terms_eq_of_replay {first second : ResidentStore Single}
    (same : ∀ calls, (finished first).replay calls = (finished second).replay calls) :
    first.terms = second.terms := by
  apply Array.ext_getElem?
  intro index
  have replays : replay ⟨first, 0⟩ (List.replicate (index + 1) .nextTerm) =
      replay ⟨second, 0⟩ (List.replicate (index + 1) .nextTerm) :=
    (List.cons.inj (same (.beginSweep :: List.replicate (index + 1) .nextTerm))).2
  have last := congrArg List.getLast? replays
  rw [getLast?_replay, getLast?_replay, Nat.zero_add] at last
  exact Except.ok.inj (ReplayAnswer.lent.inj (Option.some.inj last))

end Reading

/-- Once both are sealed, a paged store answers as a resident one in which every term has the weight
that was set last for its rule, even a term that was added later. -/
theorem reweighing_while_grounding (settings : Paging) (directory : Path) (owned : Bool)
    (folder : FoundFolder) (termsInOrder : settings.shufflePage = false)
    (pagesInOrder : settings.randomizePageAccess = false) (room : 0 < settings.pageTerms)
    (calls : List RoundCall)
    (wellFormed : ∀ call ∈ calls, ∀ term ∈ call.paged.terms, term.WellFormed) :
    let paged := performAll PagedSession.respond (.opened settings directory owned folder)
      (calls.map RoundCall.paged)
    let resident := performAll GroundingSession.respond .opened (calls.map RoundCall.resident)
    let sealed := (paged.2.respond .finish).2
    (∀ answer ∈ paged.1, answer.unsaved = false) → (paged.2.respond .finish).1.unsaved = false →
      List.Forall₂ SameAnswer paged.1 resident.1 ∧ paged.2.atoms = resident.2.atoms ∧
        (paged.2.respond .finish).1 = .done (.ok ()) ∧
        ∃ ready, resident.2.store.finish = .ok ready ∧ ready.terms = resident.2.store.terms ∧
          sealed.store.termCount = ready.size ∧ sealed.store.components = ready.components ∧
          (∀ later, sealed.store.replay sealed.folder later =
            (Reading.finished (ready.under (RoundCall.lastWeights calls))).replay later) ∧
          ((∀ later, sealed.store.replay sealed.folder later =
              (Reading.finished ready).replay later) ↔
            ∀ term ∈ ready.terms, ∀ weight,
              RoundCall.lastWeights calls term.rule = some weight → term.weight = weight) := by
  intro paged resident sealed saved savedLast
  obtain ⟨same, terms, aligned⟩ :=
    (aligned_opened settings directory owned folder).run room wellFormed saved
  obtain ⟨answered, pages, ready, finished, kept, size, components, follows⟩ :=
    aligned.finish room termsInOrder pagesInOrder savedLast
  refine ⟨same, aligned.atoms, answered, ready, finished, kept, size, components, follows.replay,
    ?_⟩
  rw [← ResidentStore.under_terms_eq_iff]
  constructor
  · intro replays
    exact Reading.terms_eq_of_replay fun later =>
      (follows.replay later).symm.trans (replays later)
  · intro agreed later
    have reader : ready.under (RoundCall.lastWeights calls) = ready :=
      congrArg (fun terms => { ready with terms }) agreed
    rw [← reader]
    exact follows.replay later

/-- Additions for two rules, a new weight for one of them, and an addition that comes with it. -/
def reweighedCalls : List RoundCall :=
  [.changeAtoms (.register ⟨0, false⟩), .add ⟨⟨0⟩, .linear, .soft 1, 0, [⟨0⟩], [1]⟩,
    .add ⟨⟨1⟩, .hinge, .soft 1, 0, [⟨0⟩], [1]⟩, .setWeight ⟨0⟩ .hard,
    .add ⟨⟨0⟩, .linear, .hard, 1, [⟨0⟩], [1]⟩]

/-- With one term to a page, the first term is on a page when its weight is set. -/
theorem reweighing_while_grounding_sample :
    let paged := performAll PagedSession.respond
      (.opened (.sequential 1) (Path.ofText "pages") true (.ok []))
      (reweighedCalls.map RoundCall.paged)
    let resident := performAll GroundingSession.respond .opened
      (reweighedCalls.map RoundCall.resident)
    let sealed := (paged.2.respond .finish).2
    paged.2.store.pageSizes.size = 2 ∧ List.Forall₂ SameAnswer paged.1 resident.1 ∧
      ∃ ready, resident.2.store.finish = .ok ready ∧ ready.terms = resident.2.store.terms ∧
        ∀ later, sealed.store.replay sealed.folder later =
          (Reading.finished ready).replay later := by
  intro paged resident sealed
  have wellFormed : ∀ call ∈ reweighedCalls, ∀ term ∈ call.paged.terms, term.WellFormed := by
    intro call member
    simp only [reweighedCalls, List.mem_cons, List.not_mem_nil, or_false] at member
    rcases member with rfl | rfl | rfl | rfl | rfl
    · nofun
    · exact RoundCall.wellFormed_add ⟨nofun, rfl, (by decide : 1 ≤ Term.maxArity)⟩
    · exact RoundCall.wellFormed_add ⟨nofun, rfl, (by decide : 1 ≤ Term.maxArity)⟩
    · nofun
    · exact RoundCall.wellFormed_add ⟨nofun, rfl, (by decide : 1 ≤ Term.maxArity)⟩
  have weights : ∀ term ∈ resident.2.store.terms,
      (RoundCall.lastWeights reweighedCalls term.rule).getD term.weight = term.weight := by
    decide +kernel
  obtain ⟨same, -, -, ready, finished, kept, -, -, -, reads⟩ :=
    reweighing_while_grounding (.sequential 1) (Path.ofText "pages") true (.ok []) rfl rfl
      (by decide) reweighedCalls wellFormed (by decide +kernel) (by decide +kernel)
  refine ⟨by decide +kernel, same, ready, finished, kept, reads.mpr ?_⟩
  intro term member weight known
  have agreed := weights term (kept ▸ member)
  rw [known] at agreed
  exact agreed.symm

/-- A term that is added after a new weight was set for its rule keeps its own weight in a resident
store. The paged store lends it with the weight of the rule. -/
theorem later_term_takes_override :
    let calls : List RoundCall :=
      [.changeAtoms (.register ⟨0, false⟩), .add ⟨⟨0⟩, .linear, .soft 1, 0, [⟨0⟩], [1]⟩,
        .setWeight ⟨0⟩ .hard, .add ⟨⟨0⟩, .linear, .soft 1, 0, [⟨0⟩], [1]⟩]
    let paged := performAll PagedSession.respond
      (.opened (.sequential 1) (Path.ofText "pages") true (.ok []))
      (calls.map RoundCall.paged)
    let resident := performAll GroundingSession.respond .opened
      (calls.map RoundCall.resident)
    resident.2.store.finish.map (fun ready => ready.terms.map Term.weight) =
        .ok #[.hard, .soft 1] ∧
      (performAll PagedSession.respond paged.2
          [.finish, .beginSweep, .nextTerm, .nextTerm, .nextTerm]).1 =
        [.done (.ok ()), .done (.ok ()),
          .lent (.ok (some ⟨⟨0⟩, .linear, .hard, 0, [⟨0⟩], [1]⟩)),
          .lent (.ok (some ⟨⟨0⟩, .linear, .hard, 0, [⟨0⟩], [1]⟩)), .lent (.ok none)] := by
  decide +kernel

end HingeLoss
