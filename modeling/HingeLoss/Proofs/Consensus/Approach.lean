import HingeLoss.Proofs.Consensus.Proximal
import HingeLoss.Proofs.Consensus.Outcome

/-! Runs over one unhinged potential with one free atom move towards the minimum. -/

namespace HingeLoss

namespace Scalar

theorem clampUnit_mono : Monotone (clampUnit : ℝ → ℝ) := by
  intro first second below
  rw [clampUnit_eq, clampUnit_eq]
  exact max_le_max_left 0 (min_le_min_left 1 below)

/-- A move that is made again and again leads as far as one move over the whole way. -/
theorem moveInTurn_replicate {value : ℝ} (inUnit : 0 ≤ value ∧ value ≤ 1) (count : Nat)
    (move : ℝ) :
    moveInTurn value (List.replicate count move) = clampUnit (value - count * move) := by
  have unopposed : Unopposed value (List.replicate count move) := by
    rcases le_total 0 move with forward | backward
    · exact unopposed_of_nonneg inUnit.2 fun other member =>
        (List.eq_of_mem_replicate member).symm ▸ forward
    · exact unopposed_of_nonpos inUnit.1 fun other member =>
        (List.eq_of_mem_replicate member).symm ▸ backward
  have turned := unopposed.moveInTurn_eq
  rwa [clampUnit_of_mem inUnit.1 inUnit.2, List.sum_replicate, nsmul_eq_mul] at turned

/-- A price holds a value at an end of the unit interval, and only if the target does not lie before
this end. -/
inductive Pressed (target : ℝ) : ℝ → ℝ → Prop
  | loose (value : ℝ) : Pressed target value 0
  | top {price : ℝ} (beyond : 1 ≤ target) (upward : 0 ≤ price) : Pressed target 1 price
  | bottom {price : ℝ} (beyond : target ≤ 0) (downward : price ≤ 0) : Pressed target 0 price

variable {target value price penalty share : ℝ}

theorem pressed_clampUnit {aim : ℝ} (positive : 0 < penalty) (below : aim < 0 → target ≤ 0)
    (above : 1 < aim → 1 ≤ target) :
    Pressed target (clampUnit aim) (penalty * (aim - clampUnit aim)) := by
  rcases lt_or_ge aim 0 with negative | nonnegative
  · rw [clampUnit_of_nonpos negative.le]
    refine .bottom (below negative) (mul_nonpos_of_nonneg_of_nonpos positive.le ?_)
    linarith
  · rcases lt_or_ge 1 aim with large | atMostOne
    · rw [clampUnit_of_one_le large.le]
      refine .top (above large) (mul_nonneg positive.le ?_)
      linarith
    · rw [clampUnit_of_mem nonnegative atMostOne, sub_self, mul_zero]
      exact .loose aim

/-- One step over a part of the way from the pulled value to the target, cut off at the ends of the
unit interval. It leads towards the target, and it makes the distance to a target of the interval
smaller by the same factor wherever it begins. -/
theorem Pressed.step (pressed : Pressed target value price) (positive : 0 < penalty)
    (inUnit : 0 ≤ value ∧ value ≤ 1) (nonnegative : 0 ≤ share) (part : share ≤ 1) :
    let aim := value - share * (value - price / penalty - target)
    Pressed target (clampUnit aim) (penalty * (aim - clampUnit aim)) ∧
      clampUnit aim ∈ Set.uIcc value (clampUnit target) ∧
      (0 ≤ target → target ≤ 1 → clampUnit aim - target = (1 - share) * (value - target)) := by
  intro aim
  have clamped := clampUnit_of_mem inUnit.1 inUnit.2
  cases pressed with
  | loose =>
      have between : aim ∈ Set.uIcc value target := by
        rw [Set.mem_uIcc]
        rcases le_total value target with below | above
        · refine .inl ⟨?_, ?_⟩ <;> simp only [aim, zero_div] <;> nlinarith
        · refine .inr ⟨?_, ?_⟩ <;> simp only [aim, zero_div] <;> nlinarith
      refine ⟨pressed_clampUnit positive (fun negative => ?_) (fun large => ?_), ?_, ?_⟩
      · rcases Set.mem_uIcc.mp between with ⟨below, -⟩ | ⟨above, -⟩ <;> linarith [inUnit.1]
      · rcases Set.mem_uIcc.mp between with ⟨-, below⟩ | ⟨-, above⟩ <;> linarith [inUnit.2]
      · have image := clampUnit_mono.mapsTo_uIcc between
        rwa [clamped] at image
      · intro nonnegative atMostOne
        have inside : 0 ≤ aim ∧ aim ≤ 1 :=
          Set.uIcc_subset_Icc ⟨inUnit.1, inUnit.2⟩ ⟨nonnegative, atMostOne⟩ between
        rw [clampUnit_of_mem inside.1 inside.2]
        simp only [aim, zero_div]
        ring
  | top beyond upward =>
      have held : 1 ≤ aim := by
        have := div_nonneg upward positive.le
        simp only [aim]
        nlinarith
      refine ⟨pressed_clampUnit positive (fun negative => ?_) (fun _ => beyond), ?_, ?_⟩
      · linarith
      · rw [clampUnit_of_one_le held]
        exact Set.left_mem_uIcc
      · intro _ atMostOne
        rw [clampUnit_of_one_le held, le_antisymm atMostOne beyond, sub_self, mul_zero]
  | bottom beyond downward =>
      have held : aim ≤ 0 := by
        have := div_nonpos_of_nonpos_of_nonneg downward positive.le
        simp only [aim]
        nlinarith
      refine ⟨pressed_clampUnit positive (fun _ => beyond) (fun large => ?_), ?_, ?_⟩
      · linarith
      · rw [clampUnit_of_nonpos held]
        exact Set.left_mem_uIcc
      · intro nonnegative _
        rw [clampUnit_of_nonpos held, le_antisymm beyond nonnegative, sub_self, mul_zero]

end Scalar

namespace Term

/-- The entries whose atoms are free. -/
def freeEntries (records : Array (AtomRecord ℝ)) (term : Term ℝ) : List (AtomId × ℝ) :=
  term.entries.filter fun entry => records[entry.1.index]?.any fun record => !record.fixed

/-- The zero of a linear form whose free entry has a coefficient. -/
noncomputable def root (records : Array (AtomRecord ℝ)) (term : Term ℝ) (coefficient : ℝ) : ℝ :=
  -(LocalTerm.ofTerm records term).constant / coefficient

end Term

namespace LocalTerm

theorem freeCopies_eq (records : Array (AtomRecord ℝ)) (term : Term ℝ) :
    freeCopies records term.entries = (term.freeEntries records).map fun entry =>
      ⟨entry.1, entry.2, (records[entry.1.index]?.map AtomRecord.value).getD 0, 0⟩ := by
  rw [Term.freeEntries]
  induction term.entries with
  | nil => rfl
  | cons entry later inductionHypothesis =>
      rw [List.filter_cons, freeCopies, List.filterMap_cons, ← freeCopies, inductionHypothesis]
      cases found : records[entry.1.index]? with
      | none => simp [found]
      | some record => cases fixed : record.fixed <;> simp [fixed, found]

/-- Where the only copy of a term would take its atom if the unit interval had no ends. -/
noncomputable def aim (term : LocalTerm ℝ) (penalty coefficient value price : ℝ) : ℝ :=
  value - term.stepLength penalty (term.constant + coefficient * (value - price / penalty)) *
    coefficient

variable {term : LocalTerm ℝ} {weight : ℝ}

theorem aim_linear (soft : term.weight = .soft weight) (shape : term.shape = .linear)
    (penalty coefficient value price : ℝ) :
    term.aim penalty coefficient value price = value - weight / penalty * coefficient := by
  simp only [aim, stepLength, soft, shape]

/-- A square takes the atom over a part of the way to the zero of its linear form. -/
theorem aim_squaredLinear (soft : term.weight = .soft weight) (shape : term.shape = .squaredLinear)
    {penalty coefficient : ℝ} (norm : term.normSquared = coefficient ^ 2) (positive : 0 < penalty)
    (nonnegative : 0 ≤ weight) (nonzero : coefficient ≠ 0) (value price : ℝ) :
    term.aim penalty coefficient value price =
      value - (1 - 1 / (1 + 2 * weight * coefficient ^ 2 / penalty)) *
        (value - price / penalty - -term.constant / coefficient) := by
  have divisor : 0 < penalty + 2 * weight * coefficient ^ 2 := by positivity
  have whole : 1 + 2 * weight * coefficient ^ 2 / penalty =
      (penalty + 2 * weight * coefficient ^ 2) / penalty := by
    field_simp
  simp only [aim, stepLength, soft, shape, stepLength.squaredStep, norm, Scalar.two_eq]
  rw [whole]
  field_simp
  ring

end LocalTerm

namespace ConsensusState

open ConsensusSolver (start)

variable {plan : Plan ℝ ℝ} {state : ConsensusState ℝ}

/-- A state whose only term has one copy, that of an atom and with a price. -/
structure SoleCopy (term : LocalTerm ℝ) (atom : AtomId) (coefficient price : ℝ)
    (state : ConsensusState ℝ) : Prop where
  terms : ∃ own, state.terms = [{ term with copies := [⟨atom, coefficient, own, price⟩] }]
  inside : atom.index < state.values.size

/-- An iteration takes the atom of the only copy to its aim, as far as the unit interval goes, and
the rest of the way is in the price. -/
theorem SoleCopy.iterate {term : LocalTerm ℝ} {atom : AtomId} {coefficient price : ℝ}
    (sole : SoleCopy term atom coefficient price state)
    (counted : plan.counts.getD atom.index 0 = 1) (positive : 0 < plan.penalty) :
    let aim := term.aim plan.penalty coefficient (valueAt state.values atom) price
    let next := (ConsensusState.iterate plan state).1
    valueAt next.values atom = Scalar.clampUnit aim ∧
      SoleCopy term atom coefficient (plan.penalty * (aim - Scalar.clampUnit aim)) next := by
  intro aim next
  obtain ⟨own, terms⟩ := sole.terms
  let moved : LocalTerm ℝ :=
    { term with copies := [⟨atom, coefficient, aim - price / plan.penalty, price⟩] }
  have minimized : state.terms.map (LocalTerm.minimize state.values plan.penalty) = [moved] := by
    rw [terms, List.map_singleton]
    have value : valueAt state.values atom - price / plan.penalty -
        term.stepLength plan.penalty (term.constant + coefficient *
          (valueAt state.values atom - price / plan.penalty)) * coefficient =
        aim - price / plan.penalty := by
      simp only [aim, LocalTerm.aim]
      ring
    exact congrArg
      (fun value => [{ term with copies := [⟨atom, coefficient, value, price⟩] }]) value
  have average : next.values = average plan.penalty plan.counts [moved] state.values :=
    congrArg (fun terms => ConsensusState.average plan.penalty plan.counts terms state.values)
      minimized
  have copies : copiesAt [moved] atom.index = moved.copies := by simp [copiesAt, copiesOf, moved]
  have value : valueAt next.values atom = Scalar.clampUnit aim := by
    rw [average, valueAt, getD_average _ _ _ _ sole.inside, counted, copies, Scalar.clampUnit_eq]
    simp [moved]
  refine ⟨value, ⟨aim - price / plan.penalty, ?_⟩, ?_⟩
  · have raised : next.terms = [moved].map (LocalTerm.raisePrices next.values plan.penalty) :=
      congrArg (List.map (LocalTerm.raisePrices next.values plan.penalty)) minimized
    have price : price + plan.penalty * (aim - price / plan.penalty - valueAt next.values atom) =
        plan.penalty * (aim - Scalar.clampUnit aim) := by
      rw [value]
      field_simp
      ring
    rw [raised, ← price]
    rfl
  · rw [average, size_average]
    exact sole.inside

/-- A potential over a store in which one of its entries is free, and a run over it. -/
structure Sole (plan : Plan ℝ ℝ) (atoms : AtomStore ℝ) (term : Term ℝ) (weight : ℝ) (atom : AtomId)
    (coefficient : ℝ) : Prop where
  soft : term.weight = .soft weight
  weightPositive : 0 < weight
  accepted : term.Accepted
  held : ∀ atom ∈ term.atoms, atom.index < atoms.size
  free : term.freeEntries atoms.records = [(atom, coefficient)]
  nonzero : coefficient ≠ 0
  positive : 0 < plan.penalty
  counts : plan.counts = (start [term] atoms).copyCounts
  built : atoms.Built

variable {atoms : AtomStore ℝ} {term : Term ℝ} {weight : ℝ} {atom : AtomId} {coefficient : ℝ}

namespace Sole

variable (sole : Sole plan atoms term weight atom coefficient)

include sole

theorem exists_record :
    ∃ record, atoms.records[atom.index]? = some record ∧ record.fixed = false := by
  have member : (atom, coefficient) ∈ term.freeEntries atoms.records := by
    rw [sole.free]
    exact List.mem_singleton_self _
  have free := (List.mem_filter.mp member).2
  cases found : atoms.records[atom.index]? with
  | none => simp [found] at free
  | some record => exact ⟨record, rfl, by simpa [found] using free⟩

theorem initial : Initial plan (start [term] atoms) := by
  refine initial_start (fun other member => ?_) sole.built.inUnit sole.counts
  rw [List.mem_singleton.mp member]
  exact sole.accepted

theorem copies_ofTerm : ∃ own, (LocalTerm.ofTerm atoms.records term).copies =
    [⟨atom, coefficient, own, 0⟩] := by
  have copies := LocalTerm.freeCopies_eq atoms.records term
  rw [sole.free, List.map_singleton] at copies
  exact ⟨_, copies⟩

theorem normSquared_ofTerm :
    (LocalTerm.ofTerm atoms.records term).normSquared = coefficient ^ 2 := by
  obtain ⟨own, copies⟩ := sole.copies_ofTerm
  rw [(LocalTerm.sound_ofTerm atoms.records sole.accepted).norm, copies]
  simp

theorem soleCopy_start :
    SoleCopy (LocalTerm.ofTerm atoms.records term) atom coefficient 0 (start [term] atoms) where
  terms := by
    obtain ⟨own, copies⟩ := sole.copies_ofTerm
    exact ⟨own, by rw [← copies]; rfl⟩
  inside := by
    obtain ⟨record, found, -⟩ := sole.exists_record
    rw [start, AtomStore.values, Array.size_map]
    exact (Array.getElem?_eq_some_iff.mp found).1

theorem counted : plan.counts.getD atom.index 0 = 1 := by
  obtain ⟨own, copies⟩ := sole.copies_ofTerm
  rw [sole.counts, getD_copyCounts _ sole.soleCopy_start.inside, copiesAt, copiesOf, start,
    List.map_singleton, List.flatMap_singleton, copies]
  simp

/-- At values that agree on the observed atoms, the linear form depends on the free one alone. -/
theorem raw_eq {valueOf : AtomId → ℝ} (agrees : AgreesOn atoms valueOf) :
    term.raw valueOf =
      (LocalTerm.ofTerm atoms.records term).constant + coefficient * valueOf atom := by
  obtain ⟨own, copies⟩ := sole.copies_ofTerm
  rw [← LocalTerm.rawAt_ofTerm sole.held agrees, LocalTerm.rawAt_eq, copies, List.map_singleton,
    List.sum_singleton]

theorem objective_update (value : ℝ) :
    term.objective (Function.update (valueAt atoms.values) atom value) = weight *
      term.shape.apply
        ((LocalTerm.ofTerm atoms.records term).constant + coefficient * value) := by
  have agrees : AgreesOn atoms (Function.update (valueAt atoms.values) atom value) := by
    intro other record found fixed
    have apart : other ≠ atom := by
      rintro rfl
      obtain ⟨held, foundHeld, free⟩ := sole.exists_record
      rw [found, Option.some.injEq] at foundHeld
      rw [← foundHeld, fixed] at free
      cases free
    rw [Function.update_of_ne apart, valueAt, AtomStore.getD_values, found]
    rfl
  rw [Term.objective, sole.soft, Term.dissatisfaction, sole.raw_eq agrees, Function.update_self]

/-- What every iteration keeps of the value and the price of the only copy holds in the course of a
run. -/
theorem exists_price (holds : ℝ → ℝ → Prop) (begins : holds (valueAt atoms.values atom) 0)
    (steps : ∀ value price, 0 ≤ value ∧ value ≤ 1 → holds value price →
      let aim := (LocalTerm.ofTerm atoms.records term).aim plan.penalty coefficient value price
      holds (Scalar.clampUnit aim) (plan.penalty * (aim - Scalar.clampUnit aim)))
    (count : Nat) :
    let state := run plan (start [term] atoms) count
    ∃ price, SoleCopy (LocalTerm.ofTerm atoms.records term) atom coefficient price state ∧
      holds (valueAt state.values atom) price := by
  induction count with
  | zero => exact ⟨0, sole.soleCopy_start, begins⟩
  | succ count inductionHypothesis =>
      obtain ⟨price, copy, here⟩ := inductionHypothesis
      obtain ⟨value, next⟩ := copy.iterate sole.counted sole.positive
      have inUnit := (sole.initial.run_regular sole.positive count).inUnit atom.index
      refine ⟨_, run_succ plan _ count ▸ next, ?_⟩
      rw [run_succ, value]
      exact steps _ price inUnit here

theorem linear_step (linear : term.shape = .linear) (count : Nat) :
    valueAt (run plan (start [term] atoms) (count + 1)).values atom = Scalar.clampUnit
      (valueAt (run plan (start [term] atoms) count).values atom -
        weight / plan.penalty * coefficient) := by
  obtain ⟨price, copy, -⟩ :=
    sole.exists_price (fun _ _ => True) trivial (fun _ _ _ _ => trivial) count
  rw [run_succ, (copy.iterate sole.counted sole.positive).1, LocalTerm.aim_linear sole.soft linear]

/-- A linear potential moves its atom by the same distance in every iteration, as far as the unit
interval goes. -/
theorem linear_run (linear : term.shape = .linear) (count : Nat) :
    valueAt (run plan (start [term] atoms) count).values atom = Scalar.clampUnit
      (valueAt atoms.values atom - count * (weight / plan.penalty * coefficient)) := by
  have inUnit : 0 ≤ valueAt atoms.values atom ∧ valueAt atoms.values atom ≤ 1 :=
    sole.built.inUnit.values atom.index
  rw [← Scalar.moveInTurn_replicate inUnit]
  induction count with
  | zero => rfl
  | succ count inductionHypothesis =>
      rw [List.replicate_succ', Scalar.moveInTurn, List.foldl_append, sole.linear_step linear,
        inductionHypothesis]
      rfl

/-- The objective of a square is the weighted square of the distance to the zero of its linear form,
in units of the coefficient. -/
theorem squared_objective (squared : term.shape = .squaredLinear) (value : ℝ) :
    term.objective (Function.update (valueAt atoms.values) atom value) =
      weight * coefficient ^ 2 * (value - term.root atoms.records coefficient) ^ 2 := by
  have nonzero := sole.nonzero
  rw [sole.objective_update, squared, Shape.apply_squaredLinear, Term.root]
  field_simp
  ring

theorem squared_nearer (squared : term.shape = .squaredLinear) {value other : ℝ}
    (cheaper : term.objective (Function.update (valueAt atoms.values) atom value) ≤
      term.objective (Function.update (valueAt atoms.values) atom other)) :
    (value - term.root atoms.records coefficient) ^ 2 ≤
      (other - term.root atoms.records coefficient) ^ 2 := by
  have scale : 0 < weight * coefficient ^ 2 :=
    mul_pos sole.weightPositive (sq_pos_of_ne_zero sole.nonzero)
  rw [sole.squared_objective squared, sole.squared_objective squared] at cheaper
  exact le_of_mul_le_mul_left cheaper scale

/-- The value of least objective of all, for a square. -/
theorem squared_lowest (squared : term.shape = .squaredLinear) {lowest : ℝ}
    (least : ∀ value, term.objective (Function.update (valueAt atoms.values) atom lowest) ≤
      term.objective (Function.update (valueAt atoms.values) atom value)) :
    lowest = term.root atoms.records coefficient := by
  have nearer := sole.squared_nearer squared (least (term.root atoms.records coefficient))
  rw [sub_self, zero_pow two_ne_zero] at nearer
  exact sub_eq_zero.mp (pow_eq_zero_iff two_ne_zero |>.mp (le_antisymm nearer (sq_nonneg _)))

/-- A square moves its atom towards the zero of its linear form, and if this is in the unit
interval, over the same part of the way in every iteration. -/
theorem squared_step (squared : term.shape = .squaredLinear) (count : Nat) :
    let value := valueAt (run plan (start [term] atoms) count).values atom
    let next := valueAt (run plan (start [term] atoms) (count + 1)).values atom
    let root := term.root atoms.records coefficient
    next ∈ Set.uIcc value (Scalar.clampUnit root) ∧
      (0 ≤ root → root ≤ 1 → next - root =
        1 / (1 + 2 * weight * coefficient ^ 2 / plan.penalty) * (value - root)) := by
  intro value next root
  let share := 1 - 1 / (1 + 2 * weight * coefficient ^ 2 / plan.penalty)
  have added : 0 ≤ 2 * weight * coefficient ^ 2 / plan.penalty :=
    div_nonneg (mul_nonneg (mul_nonneg zero_le_two sole.weightPositive.le) (sq_nonneg _))
      sole.positive.le
  have nonnegative : 0 ≤ share := by
    have below : 1 / (1 + 2 * weight * coefficient ^ 2 / plan.penalty) ≤ 1 :=
      div_le_one_of_le₀ (by linarith) (by linarith)
    exact sub_nonneg.mpr below
  have part : share ≤ 1 := sub_le_self 1 (one_div_nonneg.mpr (by linarith))
  have soft : (LocalTerm.ofTerm atoms.records term).weight = .soft weight := sole.soft
  have shape : (LocalTerm.ofTerm atoms.records term).shape = .squaredLinear := squared
  have aims := LocalTerm.aim_squaredLinear soft shape sole.normSquared_ofTerm sole.positive
    sole.weightPositive.le sole.nonzero
  obtain ⟨price, copy, pressed⟩ := sole.exists_price (Scalar.Pressed root) (.loose _)
    (fun value price inUnit pressed => by
      dsimp only
      rw [aims]
      exact (pressed.step sole.positive inUnit nonnegative part).1) count
  have moved : next = _ :=
    (congrArg (fun state => valueAt state.values atom) (run_succ plan _ count)).trans
      (copy.iterate sole.counted sole.positive).1
  have inUnit := (sole.initial.run_regular sole.positive count).inUnit atom.index
  obtain ⟨-, towards, nearer⟩ := pressed.step sole.positive inUnit nonnegative part
  rw [aims] at moved
  rw [moved]
  refine ⟨towards, fun nonnegative atMostOne => (nearer nonnegative atMostOne).trans ?_⟩
  rw [sub_sub_cancel]

/-- The linear form in the course of a run. -/
theorem raw_run (count : Nat) :
    let values := (run plan (start [term] atoms) count).values
    term.raw (valueAt values) =
      coefficient * (valueAt values atom - term.root atoms.records coefficient) := by
  have nonzero := sole.nonzero
  have regular := sole.initial.run_regular sole.positive count
  dsimp only
  rw [sole.raw_eq (regular.agreesOn sole.counts), Term.root]
  field_simp
  ring

section Best

variable {best : ℝ} (inUnit : 0 ≤ best ∧ best ≤ 1)
  (least : ∀ value, 0 ≤ value → value ≤ 1 →
    term.objective (Function.update (valueAt atoms.values) atom best) ≤
      term.objective (Function.update (valueAt atoms.values) atom value))

include inUnit least

/-- The value of least objective in the unit interval, for a square. -/
theorem squared_best (squared : term.shape = .squaredLinear) :
    best = Scalar.clampUnit (term.root atoms.records coefficient) := by
  have clamped := AtomStore.clampUnit_inUnit (term.root atoms.records coefficient)
  have nearer := sole.squared_nearer squared (least _ clamped.1 clamped.2)
  have separates := clamp_separates (term.root atoms.records coefficient) inUnit.1 inUnit.2
  rw [← Scalar.clampUnit_eq] at separates
  have square : (best - Scalar.clampUnit (term.root atoms.records coefficient)) ^ 2 ≤ 0 := by
    linarith
  exact sub_eq_zero.mp (pow_eq_zero_iff two_ne_zero |>.mp (le_antisymm square (sq_nonneg _)))

/-- The value of least objective, for a linear potential. -/
theorem linear_best (linear : term.shape = .linear) :
    (0 < coefficient → best = 0) ∧ (coefficient < 0 → best = 1) := by
  have cheaper (value : ℝ) (nonnegative : 0 ≤ value) (atMostOne : value ≤ 1) :
      coefficient * best ≤ coefficient * value := by
    have costs := least value nonnegative atMostOne
    rw [sole.objective_update, sole.objective_update, linear] at costs
    have raws := le_of_mul_le_mul_left costs sole.weightPositive
    change _ + _ ≤ _ + _ at raws
    linarith
  constructor
  · intro above
    have below := le_of_mul_le_mul_left (cheaper 0 le_rfl zero_le_one) above
    exact le_antisymm below inUnit.1
  · intro below
    have above := (mul_le_mul_left_of_neg below).mp (cheaper 1 zero_le_one le_rfl)
    exact le_antisymm inUnit.2 above

/-- A linear potential moves its atom towards the end of the unit interval that costs least. -/
theorem linear_towards (linear : term.shape = .linear) (count : Nat) :
    valueAt (run plan (start [term] atoms) (count + 1)).values atom ∈
      Set.uIcc (valueAt (run plan (start [term] atoms) count).values atom) best := by
  have before := (sole.initial.run_regular sole.positive count).inUnit atom.index
  have after := AtomStore.clampUnit_inUnit (valueAt (run plan (start [term] atoms) count).values
    atom - weight / plan.penalty * coefficient)
  have clamped := Scalar.clampUnit_of_mem before.1 before.2
  have speed : 0 < weight / plan.penalty := div_pos sole.weightPositive sole.positive
  rw [sole.linear_step linear, Set.mem_uIcc]
  rcases lt_or_gt_of_ne sole.nonzero with below | above
  · rw [(sole.linear_best inUnit least linear).2 below]
    refine .inl ⟨?_, after.2⟩
    have further := mul_neg_of_pos_of_neg speed below
    exact clamped.symm.trans_le (Scalar.clampUnit_mono (by rw [valueAt]; linarith))
  · rw [(sole.linear_best inUnit least linear).1 above]
    refine .inr ⟨after.1, ?_⟩
    have further := mul_pos speed above
    exact (Scalar.clampUnit_mono (by rw [valueAt]; linarith)).trans_eq clamped

/-- A linear potential has moved its atom to the end when the way is at least one. -/
theorem linear_arrives (linear : term.shape = .linear) {count : Nat}
    (enough : plan.penalty / (weight * |coefficient|) ≤ count) :
    valueAt (run plan (start [term] atoms) count).values atom = best := by
  have begun : 0 ≤ valueAt atoms.values atom ∧ valueAt atoms.values atom ≤ 1 :=
    sole.built.inUnit.values atom.index
  have way : 1 ≤ count * (weight / plan.penalty * |coefficient|) := by
    have size : 0 < weight * |coefficient| := mul_pos sole.weightPositive (abs_pos.mpr sole.nonzero)
    rw [div_le_iff₀ size] at enough
    have scaled := (one_le_div sole.positive).mpr enough
    rwa [mul_div_assoc, mul_div_right_comm] at scaled
  rw [sole.linear_run linear]
  rcases lt_or_gt_of_ne sole.nonzero with below | above
  · rw [(sole.linear_best inUnit least linear).2 below]
    rw [abs_of_neg below, mul_neg, mul_neg] at way
    exact Scalar.clampUnit_of_one_le (by linarith)
  · rw [(sole.linear_best inUnit least linear).1 above]
    rw [abs_of_pos above] at way
    exact Scalar.clampUnit_of_nonpos (by linarith)

end Best

end Sole

end ConsensusState

open ConsensusState
open ConsensusSolver (start)

/-- A run over one unhinged potential with one free atom approaches the value of least objective in
the unit interval and never goes past it. -/
theorem single_term_approached {solver : ConsensusSolver ℝ} {store : ResidentStore ℝ}
    {atoms : AtomStore ℝ} {term : Term ℝ} {weight : ℝ} {atom : AtomId} {coefficient best : ℝ}
    (ready : store.phase = .ready) (single : store.terms = #[term])
    (soft : term.weight = .soft weight) (weightPositive : 0 < weight)
    (unhinged : term.shape.isHinged = false) (accepted : term.Accepted)
    (held : ∀ atom ∈ term.atoms, atom.index < atoms.size) (built : atoms.Built)
    (free : term.freeEntries atoms.records = [(atom, coefficient)]) (nonzero : coefficient ≠ 0)
    (positive : 0 < solver.settings.penalty) (inUnit : 0 ≤ best ∧ best ≤ 1)
    (least : ∀ value, 0 ≤ value → value ≤ 1 →
      term.objective (Function.update (valueAt atoms.values) atom best) ≤
        term.objective (Function.update (valueAt atoms.values) atom value))
    (cancelled : Nat → Bool) :
    let plan : Plan ℝ ℝ := ConsensusSolver.plan solver.settings solver.tree (start [term] atoms)
    let values (count : Nat) : Array ℝ := (run plan (start [term] atoms) count).values
    (∃ (report : RunReport ℝ) (left : ConsensusSolver ℝ) (after : AtomStore ℝ),
        solver.optimize store atoms cancelled = (.ok report, left, after) ∧
          report.iterations ≤ solver.settings.maxIterations ∧
          left.consensus = .ok (values report.iterations) ∧
          after.values = values report.iterations) ∧
      (∀ count, valueAt (values (count + 1)) atom ∈ Set.uIcc (valueAt (values count) atom) best) ∧
      (term.shape = .squaredLinear → ∀ lowest : ℝ, 0 ≤ lowest → lowest ≤ 1 →
        (∀ value, term.objective (Function.update (valueAt atoms.values) atom lowest) ≤
          term.objective (Function.update (valueAt atoms.values) atom value)) →
        ∀ count, term.raw (valueAt (values (count + 1))) = term.raw (valueAt (values count)) /
          (1 + 2 * weight * coefficient ^ 2 / solver.settings.penalty)) ∧
      (term.shape = .linear → ∀ count : Nat,
        solver.settings.penalty / (weight * |coefficient|) ≤ count →
        valueAt (values count) atom = best) := by
  intro plan values
  have sole : Sole plan atoms term weight atom coefficient :=
    { soft, weightPositive, accepted, held, free, nonzero, positive, built, counts := rfl }
  have terms : store.terms.toList = [term] := by rw [single]
  have each {holds : Term ℝ → Prop} (here : holds term) :
      ∀ other ∈ store.terms.toList, holds other := by
    rw [terms]
    exact List.forall_mem_singleton.mpr here
  refine ⟨?_, fun count => ?_, fun squared lowest nonnegative atMostOne under count => ?_,
    fun linear count => sole.linear_arrives inUnit least linear⟩
  · obtain ⟨after, answered, written, state, bounded⟩ :=
      solver.exists_optimize ready positive (each accepted) built (each held) cancelled
    rw [terms] at answered written state bounded
    have ended := congrArg ConsensusState.values state
    exact ⟨_, _, after, answered, bounded, congrArg Except.ok ended, written.trans ended⟩
  · cases shape : term.shape with
    | linear => exact sole.linear_towards inUnit least shape count
    | squaredLinear =>
        rw [sole.squared_best inUnit least shape]
        exact (sole.squared_step shape count).1
    | hinge => rw [shape] at unhinged; cases unhinged
    | squaredHinge => rw [shape] at unhinged; cases unhinged
  · have root := sole.squared_lowest squared under
    have nearer := (sole.squared_step squared count).2 (root ▸ nonnegative) (root ▸ atMostOne)
    have raws := (sole.raw_run (count + 1)).trans (congrArg (coefficient * ·) nearer)
    rw [raws, sole.raw_run count, mul_left_comm, one_div_mul_eq_div]
    rfl

/-- A square whose zero is the end of the unit interval, and a penalty of one: every iteration goes
two thirds of the way. -/
theorem single_term_approached_sample :
    let solver : ConsensusSolver ℝ := .ofSettings .standard
    let plan : Plan ℝ ℝ :=
      ConsensusSolver.plan solver.settings solver.tree (start [unitTerm] sampleAtoms)
    let values (count : Nat) : Array ℝ := (run plan (start [unitTerm] sampleAtoms) count).values
    ∃ (report : RunReport ℝ) (left : ConsensusSolver ℝ) (after : AtomStore ℝ),
      solver.optimize ⟨#[unitTerm], .empty, ∅, .ready⟩ sampleAtoms (fun _ => false) =
          (.ok report, left, after) ∧
        after.values = values report.iterations ∧
        ∀ count, unitTerm.raw (valueAt (values (count + 1))) =
          unitTerm.raw (valueAt (values count)) / 3 := by
  intro solver plan values
  have free : unitTerm.freeEntries sampleAtoms.records = [(⟨0⟩, 1)] := by
    simp [Term.freeEntries, unitTerm, sampleAtoms, Term.entries, AtomId.index]
  have objective (value : ℝ) : unitTerm.objective
      (Function.update (valueAt sampleAtoms.values) ⟨0⟩ value) = (value - 1) ^ 2 := by
    simp [unitTerm, Term.objective, Term.dissatisfaction, Term.raw, Term.entries,
      Shape.apply_squaredLinear, sub_eq_neg_add]
  have least (value : ℝ) :
      unitTerm.objective (Function.update (valueAt sampleAtoms.values) ⟨0⟩ 1) ≤
        unitTerm.objective (Function.update (valueAt sampleAtoms.values) ⟨0⟩ value) := by
    rw [objective, objective, sub_self, zero_pow two_ne_zero]
    exact sq_nonneg _
  have positive : 0 < solver.settings.penalty := zero_lt_one
  let store : ResidentStore ℝ := ⟨#[unitTerm], .empty, ∅, .ready⟩
  have single : store.terms = #[unitTerm] := rfl
  obtain ⟨⟨report, left, after, ran, -, -, written⟩, -, divided, -⟩ :=
    single_term_approached rfl single rfl zero_lt_one rfl unitTerm_accepted unitTerm_held
      sampleAtoms_built free one_ne_zero positive ⟨zero_le_one, le_rfl⟩
      (fun value _ _ => least value) fun _ => false
  refine ⟨report, left, after, ran, written, fun count => ?_⟩
  have third := divided rfl 1 zero_le_one le_rfl least count
  have divisor : (1 : ℝ) + 2 * 1 * 1 ^ 2 / solver.settings.penalty = 3 := by
    norm_num [solver, ConsensusSolver.ofSettings, ConsensusSettings.standard]
  rwa [divisor] at third

end HingeLoss
