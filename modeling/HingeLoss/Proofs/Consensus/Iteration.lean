import HingeLoss.Proofs.Consensus.Average
import HingeLoss.Consensus.Solver

/-! What all iterations of a run have in common: frames, unit values and prices that favour them. -/

namespace HingeLoss

namespace LocalTerm

/-- A term without the values and prices of its copies. -/
noncomputable def frame (term : LocalTerm ℝ) : LocalTerm ℝ :=
  { term with copies := term.copies.map fun copy => { copy with value := 0, price := 0 } }

/-- A change of values and prices leaves the frame. -/
theorem frame_with_copies (term : LocalTerm ℝ) {change : Copy ℝ → Copy ℝ}
    (kept : ∀ copy, (change copy).atom = copy.atom ∧ (change copy).coefficient = copy.coefficient) :
    frame { term with copies := term.copies.map change } = term.frame := by
  unfold frame
  simp only [List.map_map]
  congr 1
  exact List.map_congr_left fun copy _ => by
    simp only [Function.comp_apply, (kept copy).1, (kept copy).2]

theorem frame_minimize (values : Array ℝ) (penalty : ℝ) (term : LocalTerm ℝ) :
    (term.minimize values penalty).frame = term.frame :=
  term.frame_with_copies fun _ => ⟨rfl, rfl⟩

theorem frame_raisePrices (values : Array ℝ) (penalty : ℝ) (term : LocalTerm ℝ) :
    (term.raisePrices values penalty).frame = term.frame :=
  term.frame_with_copies fun _ => ⟨rfl, rfl⟩

theorem frame_update (before after : Array ℝ) (penalty : ℝ) (term : LocalTerm ℝ) :
    (term.update before after penalty).frame = term.frame := by
  rw [update, frame_raisePrices, frame_minimize]

/-- At the values of atoms, the linear form depends on the frame alone. -/
theorem rawAt_frame (term : LocalTerm ℝ) (valueOf : AtomId → ℝ) :
    (term.frame.rawAt fun copy => valueOf copy.atom) =
      term.rawAt fun copy => valueOf copy.atom := by
  rw [rawAt_eq, rawAt_eq, frame, List.map_map]
  rfl

theorem costAt_frame (term : LocalTerm ℝ) (valueOf : AtomId → ℝ) :
    term.frame.costAt valueOf = term.costAt valueOf := by
  rw [costAt, rawAt_frame]
  rfl

theorem admitsAt_frame (term : LocalTerm ℝ) (valueOf : AtomId → ℝ) :
    term.frame.AdmitsAt valueOf ↔ term.AdmitsAt valueOf := by
  rw [AdmitsAt, rawAt_frame]
  rfl

theorem sound_of_frame {term other : LocalTerm ℝ} (same : term.frame = other.frame)
    (sound : other.Sound) : term.Sound := by
  have coefficients (term : LocalTerm ℝ) :
      (term.copies.map fun copy => copy.coefficient ^ 2) =
        term.frame.copies.map fun copy => copy.coefficient ^ 2 := by
    rw [frame, List.map_map]
    rfl
  constructor
  · have weights : term.weight = other.weight :=
      show term.frame.weight = other.frame.weight by rw [same]
    rw [weights]
    exact sound.nonnegative
  · have norms : term.normSquared = other.normSquared :=
      show term.frame.normSquared = other.frame.normSquared by rw [same]
    rw [norms, coefficients, same, ← coefficients]
    exact sound.norm

end LocalTerm

namespace ConsensusState

/-- The frames of the terms. -/
noncomputable def frames (terms : List (LocalTerm ℝ)) : List (LocalTerm ℝ) :=
  terms.map LocalTerm.frame

/-- The atoms of all copies, in order. -/
def atomsOf (terms : List (LocalTerm ℝ)) : List AtomId := (copiesOf terms).map Copy.atom

theorem atomsOf_frames (terms : List (LocalTerm ℝ)) : atomsOf (frames terms) = atomsOf terms := by
  simp only [atomsOf, copiesOf, frames, List.map_flatMap, List.flatMap_map, LocalTerm.frame,
    List.map_map]
  rfl

theorem length_copiesAt (terms : List (LocalTerm ℝ)) (index : Nat) :
    (copiesAt terms index).length =
      ((atomsOf terms).filter fun atom => atom.index = index).length := by
  rw [copiesAt, atomsOf, List.filter_map, List.length_map]
  rfl

theorem frames_map {terms : List (LocalTerm ℝ)} {change : LocalTerm ℝ → LocalTerm ℝ}
    (kept : ∀ term, (change term).frame = term.frame) :
    frames (terms.map change) = frames terms := by
  rw [frames, List.map_map, frames]
  exact List.map_congr_left fun term _ => kept term

/-- Two states of one problem have the same atoms in their copies. -/
theorem atomsOf_congr {terms others : List (LocalTerm ℝ)} (same : frames terms = frames others) :
    atomsOf terms = atomsOf others := by
  rw [← atomsOf_frames, same, atomsOf_frames]

/-- States of one problem cost the same at values of the atoms. -/
theorem sum_costAt_congr {terms others : List (LocalTerm ℝ)} (same : frames terms = frames others)
    (valueOf : AtomId → ℝ) :
    (terms.map fun term => term.costAt valueOf).sum =
      (others.map fun term => term.costAt valueOf).sum := by
  have framed (terms : List (LocalTerm ℝ)) : (terms.map fun term => term.costAt valueOf) =
      (frames terms).map fun term => term.costAt valueOf := by
    rw [frames, List.map_map]
    exact List.map_congr_left fun term _ => (term.costAt_frame valueOf).symm
  rw [framed, same, ← framed]

/-- States of one problem are satisfied by the same values of the atoms. -/
theorem admitsAt_congr {terms others : List (LocalTerm ℝ)} (same : frames terms = frames others)
    {valueOf : AtomId → ℝ} (admits : ∀ term ∈ others, term.AdmitsAt valueOf) :
    ∀ term ∈ terms, term.AdmitsAt valueOf := by
  intro term member
  have framed : term.frame ∈ frames others := same ▸ List.mem_map_of_mem member
  obtain ⟨other, otherMember, sameFrame⟩ := List.mem_map.mp framed
  rw [← term.admitsAt_frame, ← sameFrame, other.admitsAt_frame]
  exact admits other otherMember

/-- A state that a run can begin with: the terms are sound, the copies belong to atoms that are
there, all values are in the unit interval, and no copy has a price. -/
structure Initial (plan : Plan ℝ ℝ) (begun : ConsensusState ℝ) : Prop where
  sound : ∀ term ∈ begun.terms, term.Sound
  inRange : ∀ atom ∈ atomsOf begun.terms, atom.index < begun.values.size
  counted : ∀ index < begun.values.size,
    plan.counts.getD index 0 = (copiesAt begun.terms index).length
  inUnit : ∀ index, 0 ≤ begun.values.getD index 0 ∧ begun.values.getD index 0 ≤ 1
  free : ∀ copy ∈ copiesOf begun.terms, copy.price = 0

/-- What the iterations keep, whatever the terms are and at any penalty. -/
structure Steady (plan : Plan ℝ ℝ) (begun state : ConsensusState ℝ) : Prop where
  frames : frames state.terms = frames begun.terms
  size : state.values.size = begun.values.size
  kept : ∀ index, plan.counts.getD index 0 = 0 →
    state.values.getD index 0 = begun.values.getD index 0
  inUnit : ∀ index, 0 ≤ state.values.getD index 0 ∧ state.values.getD index 0 ≤ 1

/-- A state in the course of a run. -/
structure Regular (plan : Plan ℝ ℝ) (begun state : ConsensusState ℝ) : Prop
    extends Steady plan begun state where
  favoured : ∀ valueOf : AtomId → ℝ, (∀ atom, 0 ≤ valueOf atom ∧ valueOf atom ≤ 1) →
    ((copiesOf state.terms).map fun copy =>
      copy.price * (valueOf copy.atom - valueAt state.values copy.atom)).sum ≤ 0

variable {plan : Plan ℝ ℝ} {begun state : ConsensusState ℝ}

theorem Initial.regular (initial : Initial plan begun) : Regular plan begun begun where
  frames := rfl
  size := rfl
  kept _ _ := rfl
  inUnit := initial.inUnit
  favoured valueOf _ := by
    refine (List.sum_eq_zero fun summand member => ?_).le
    obtain ⟨copy, copyMember, rfl⟩ := List.mem_map.mp member
    rw [initial.free copy copyMember, zero_mul]

theorem Regular.sound (regular : Regular plan begun state) (initial : Initial plan begun)
    {term : LocalTerm ℝ} (member : term ∈ state.terms) : term.Sound := by
  have framed : term.frame ∈ ConsensusState.frames begun.terms :=
    regular.frames ▸ List.mem_map_of_mem member
  obtain ⟨other, otherMember, same⟩ := List.mem_map.mp framed
  exact LocalTerm.sound_of_frame same.symm (initial.sound other otherMember)

theorem terms_iterate (plan : Plan ℝ ℝ) (state : ConsensusState ℝ) :
    (iterate plan state).1.terms = state.terms.map
      (LocalTerm.update state.values (iterate plan state).1.values plan.penalty) := by
  simp only [iterate, List.map_map]
  rfl

theorem copiesOf_raisePrices (values : Array ℝ) (penalty : ℝ) (terms : List (LocalTerm ℝ)) :
    copiesOf (terms.map (LocalTerm.raisePrices values penalty)) =
      (copiesOf terms).map fun copy =>
        { copy with price := copy.price + penalty * (copy.value - valueAt values copy.atom) } := by
  simp only [copiesOf, List.flatMap_map, List.map_flatMap]
  rfl

theorem Steady.iterate (steady : Steady plan begun state) :
    Steady plan begun (iterate plan state).1 where
  frames := by
    rw [terms_iterate, frames_map fun term => term.frame_update _ _ _]
    exact steady.frames
  size := (size_average ..).trans steady.size
  kept index none :=
    (getD_average_of_no_copies plan.penalty _ state.values none).trans (steady.kept index none)
  inUnit := average_inUnit plan.penalty plan.counts _ steady.inUnit

/-- An iteration of a regular state is regular. -/
theorem Regular.iterate (regular : Regular plan begun state) (initial : Initial plan begun)
    (positive : 0 < plan.penalty) : Regular plan begun (iterate plan state).1 where
  toSteady := regular.toSteady.iterate
  favoured valueOf inUnit := by
    have atoms := atomsOf_congr ((frames_map fun term =>
      term.frame_minimize state.values plan.penalty).trans regular.frames)
    change ((copiesOf ((state.terms.map (LocalTerm.minimize state.values plan.penalty)).map
      (LocalTerm.raisePrices _ plan.penalty))).map _).sum ≤ 0
    rw [copiesOf_raisePrices, List.map_map]
    refine average_optimal positive ?_ ?_ inUnit
    · intro copy member
      rw [regular.size]
      exact initial.inRange _ (atoms ▸ List.mem_map_of_mem member)
    · intro index inRange
      rw [initial.counted index (regular.size ▸ inRange), length_copiesAt, length_copiesAt, atoms]

theorem sum_copiesOf (terms : List (LocalTerm ℝ)) (summand : Copy ℝ → ℝ) :
    ((copiesOf terms).map summand).sum =
      (terms.map fun term => (term.copies.map summand).sum).sum := by
  induction terms with
  | nil => rfl
  | cons term later inductionHypothesis =>
      rw [copiesOf, List.flatMap_cons, List.map_append, List.sum_append, List.map_cons,
        List.sum_cons, ← inductionHypothesis, copiesOf]

/-- After an iteration all copies satisfy their terms, if any values of the atoms do, and the prices
support the sum of the costs up to the move of the atoms. -/
theorem Regular.iterate_supports (regular : Regular plan begun state)
    (initial : Initial plan begun) (positive : 0 < plan.penalty) {valueOf : AtomId → ℝ}
    (admits : ∀ term ∈ begun.terms, term.AdmitsAt valueOf) :
    let next := (ConsensusState.iterate plan state).1
    (∀ term ∈ next.terms, term.Holds) ∧
      (next.terms.map LocalTerm.ownCost).sum + ((copiesOf next.terms).map fun copy =>
          (plan.penalty * (valueAt state.values copy.atom - valueAt next.values copy.atom) -
            copy.price) * (valueOf copy.atom - copy.value)).sum ≤
        (begun.terms.map fun term => term.costAt valueOf).sum := by
  intro next
  have supports (term : LocalTerm ℝ) (member : term ∈ state.terms) :=
    (regular.sound initial member).update_supports positive state.values next.values
      (admitsAt_congr regular.frames admits term member)
  have terms : next.terms =
      state.terms.map (LocalTerm.update state.values next.values plan.penalty) :=
    terms_iterate plan state
  constructor
  · intro moved member
    rw [terms] at member
    obtain ⟨term, termMember, rfl⟩ := List.mem_map.mp member
    exact (supports term termMember).1
  · rw [sum_copiesOf, ← List.sum_map_add, terms, List.map_map, ← sum_costAt_congr regular.frames]
    exact List.sum_le_sum fun term member => (supports term member).2

/-- The state after some iterations. -/
noncomputable def run (plan : Plan ℝ ℝ) (begun : ConsensusState ℝ) (count : Nat) :
    ConsensusState ℝ :=
  (fun state => (iterate plan state).1)^[count] begun

theorem run_zero (plan : Plan ℝ ℝ) (begun : ConsensusState ℝ) : run plan begun 0 = begun := rfl

theorem run_succ (plan : Plan ℝ ℝ) (begun : ConsensusState ℝ) (count : Nat) :
    run plan begun (count + 1) = (iterate plan (run plan begun count)).1 :=
  Function.iterate_succ_apply' _ count begun

/-- Every state of a run is regular. -/
theorem Initial.run_regular (initial : Initial plan begun) (positive : 0 < plan.penalty)
    (count : Nat) : Regular plan begun (run plan begun count) := by
  induction count with
  | zero => exact initial.regular
  | succ count inductionHypothesis =>
      rw [run_succ]
      exact inductionHypothesis.iterate initial positive

end ConsensusState

end HingeLoss
