import HingeLoss.Proofs.Random.Shuffle
import HingeLoss.Proofs.Store.Stream
import HingeLoss.Store.Resident

/-! Every sweep that is begun over a resident store lends all of its terms once. -/

namespace HingeLoss

namespace ResidentSweep

variable {α : Type} {store : ResidentStore α} {seed : Option UInt64} {shuffle : Shuffle}

/-- The sweeps that come from a sweep by beginnings and requests. -/
inductive Reached (first : ResidentSweep α) : ResidentSweep α → Prop
  | first : Reached first first
  | begin {sweep : ResidentSweep α} (reached : Reached first sweep) : Reached first sweep.begin
  | next {sweep : ResidentSweep α} (reached : Reached first sweep) : Reached first sweep.next.2

/-- A sweep over all terms, in their order if it has no seed. -/
structure Whole (terms : Array (Term α)) (seed : Option UInt64) (sweep : ResidentSweep α) :
    Prop where
  held : sweep.terms = terms
  drawn : sweep.order.toList.Perm (List.range terms.size)
  inOrder : seed = none → sweep.generator = none ∧ sweep.order = Array.range terms.size

variable {terms : Array (Term α)} {sweep : ResidentSweep α}

theorem exists_ofStore (ready : store.phase = .ready) (seed : Option UInt64) (shuffle : Shuffle) :
    ∃ first, ofStore store seed shuffle = .ok first := by
  have sealed : store.ensureReady = .ok () := by rw [ResidentStore.ensureReady, ready]
  exact ⟨_, by rw [ofStore, sealed]; rfl⟩

theorem ready_of_ofStore {first : ResidentSweep α}
    (taken : ofStore store seed shuffle = .ok first) : store.phase = .ready := by
  unfold ofStore ResidentStore.ensureReady at taken
  cases phase : store.phase with
  | ready => rfl
  | grounding =>
      rw [phase] at taken
      cases taken
  | closed =>
      rw [phase] at taken
      cases taken

theorem whole_ofStore {first : ResidentSweep α} (taken : ofStore store seed shuffle = .ok first) :
    first.Whole store.terms seed := by
  unfold ofStore at taken
  cases ready : store.ensureReady with
  | error fault =>
      rw [ready] at taken
      cases taken
  | ok _ =>
      rw [ready] at taken
      cases taken
      refine ⟨rfl, ?_, ?_⟩
      · dsimp only
        rw [Array.toList_range]
        exact .refl _
      · rintro rfl
        exact ⟨rfl, rfl⟩

theorem Whole.begin (whole : sweep.Whole terms seed) : sweep.begin.Whole terms seed := by
  unfold ResidentSweep.begin
  cases seeded : sweep.generator with
  | none => exact ⟨whole.held, whole.drawn, fun none => ⟨rfl, (whole.inOrder none).2⟩⟩
  | some generator =>
      refine ⟨whole.held, (sweep.shuffle.run_perm generator sweep.order).toList.trans whole.drawn, ?_⟩
      intro none
      rw [(whole.inOrder none).1] at seeded
      cases seeded

theorem Whole.next (whole : sweep.Whole terms seed) : sweep.next.2.Whole terms seed := by
  unfold ResidentSweep.next
  split
  · split
    · exact ⟨whole.held, whole.drawn, whole.inOrder⟩
    · exact whole
  · exact whole

theorem Reached.whole {first : ResidentSweep α} (reached : Reached first sweep)
    (whole : first.Whole terms seed) : sweep.Whole terms seed := by
  induction reached with
  | first => exact whole
  | begin _ inductionHypothesis => exact inductionHypothesis.begin
  | next _ inductionHypothesis => exact inductionHypothesis.next

theorem position_begin (sweep : ResidentSweep α) : sweep.begin.position = 0 := by
  unfold ResidentSweep.begin
  split <;> rfl

/-- What is left of a sweep is lent in its order. -/
theorem Whole.drains (whole : sweep.Whole terms seed) :
    ∃ last, TermStream.Drains sweep
      ((sweep.order.toList.drop sweep.position).filterMap (terms.toList[·]?)) last := by
  -- By induction on the number of positions that are left.
  generalize left : sweep.order.size - sweep.position = remaining
  induction remaining generalizing sweep with
  | zero =>
      have spent : ¬ sweep.position < sweep.order.size := by omega
      have none : sweep.next = (none, sweep) := by rw [ResidentSweep.next, dif_neg spent]
      refine ⟨sweep, ?_⟩
      rw [List.drop_eq_nil_of_le (by rw [Array.length_toList]; omega)]
      exact .ended (by simp only [TermStream.nextTerm, none])
  | succ remaining inductionHypothesis =>
      have inRange : sweep.position < sweep.order.size := by omega
      have drawnInRange : sweep.order[sweep.position] < terms.size :=
        List.mem_range.mp (whole.drawn.mem_iff.mp (Array.getElem_mem_toList inRange))
      have found : sweep.terms[sweep.order[sweep.position]]? =
          some terms[sweep.order[sweep.position]] := by
        rw [whole.held, Array.getElem?_eq_getElem drawnInRange]
      have lent : sweep.next = (some terms[sweep.order[sweep.position]],
          { sweep with position := sweep.position + 1 }) := by
        rw [ResidentSweep.next, dif_pos inRange, found]
      have after : Whole terms seed { sweep with position := sweep.position + 1 } :=
        ⟨whole.held, whole.drawn, whole.inOrder⟩
      obtain ⟨last, later⟩ := inductionHypothesis after (by dsimp only; omega)
      refine ⟨last, ?_⟩
      rw [List.drop_eq_getElem_cons (by rwa [Array.length_toList]), List.filterMap_cons,
        Array.getElem_toList, Array.getElem?_toList, Array.getElem?_eq_getElem drawnInRange]
      exact .lends (by simp only [TermStream.nextTerm, lent]) later

/-- A sweep that is begun lends every term once. -/
theorem Whole.drains_begin (whole : sweep.Whole terms seed) :
    ∃ lent last, TermStream.Drains sweep.begin lent last ∧ lent.Perm terms.toList := by
  obtain ⟨last, drains⟩ := whole.begin.drains
  rw [position_begin, List.drop_zero] at drains
  refine ⟨_, last, drains, filterMap_getElem?_perm ?_⟩
  rw [Array.length_toList]
  exact whole.begin.drawn

/-- A sweep that is begun lends every term once, and in their order if it has no seed. -/
theorem Whole.drain_begin (whole : sweep.Whole terms seed) :
    ∃ lent last, TermStream.drain sweep.begin = (lent, .finished, last) ∧
      lent.Perm terms.toList ∧ (seed = none → lent = terms.toList) := by
  obtain ⟨last, drains⟩ := whole.begin.drains
  rw [position_begin, List.drop_zero] at drains
  refine ⟨_, last, drains.drain, filterMap_getElem?_perm ?_, fun none => ?_⟩
  · rw [Array.length_toList]
    exact whole.begin.drawn
  · rw [(whole.begin.inOrder none).2, Array.toList_range, ← Array.length_toList]
    exact filterMap_getElem?_range terms.toList

end ResidentSweep

end HingeLoss
