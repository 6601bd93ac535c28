import HingeLoss.Proofs.Consensus.Start

/-! Both halves of an iteration are exact minimizations. -/

namespace HingeLoss

/-- The sum of the products of coefficients and coordinates. -/
noncomputable def weightedSum (coefficients point : List ℝ) : ℝ :=
  (List.zipWith (· * ·) coefficients point).sum

/-- The square of the distance between two points. -/
noncomputable def squaredDistance (first second : List ℝ) : ℝ :=
  (List.zipWith (fun left right => (left - right) ^ 2) first second).sum

section Points

variable {γ : Type} {items : List γ} {other : List ℝ}

@[simp] theorem weightedSum_cons (value coordinate : ℝ) (coefficients point : List ℝ) :
    weightedSum (value :: coefficients) (coordinate :: point) =
      value * coordinate + weightedSum coefficients point := List.sum_cons

@[simp] theorem squaredDistance_cons (left right : ℝ) (first second : List ℝ) :
    squaredDistance (left :: first) (right :: second) =
      (left - right) ^ 2 + squaredDistance first second := List.sum_cons

theorem squaredDistance_nonneg (first second : List ℝ) : 0 ≤ squaredDistance first second := by
  induction first generalizing second with
  | nil => exact le_refl 0
  | cons left first inductionHypothesis =>
      cases second with
      | nil => exact le_refl 0
      | cons right second =>
          rw [squaredDistance_cons]
          exact add_nonneg (sq_nonneg _) (inductionHypothesis second)

/-- Different points of one space have a distance. -/
theorem squaredDistance_pos {first second : List ℝ} (paired : first.length = second.length)
    (different : first ≠ second) : 0 < squaredDistance first second := by
  induction first generalizing second with
  | nil =>
      rw [List.length_nil, eq_comm, List.length_eq_zero_iff] at paired
      exact absurd paired.symm different
  | cons left first inductionHypothesis =>
      obtain ⟨right, second, rfl⟩ := List.exists_cons_of_length_eq_add_one paired.symm
      rw [squaredDistance_cons]
      by_cases same : left = right
      · subst same
        exact add_pos_of_nonneg_of_pos (sq_nonneg _) (inductionHypothesis (Nat.succ.inj paired)
          fun equal => different (congrArg _ equal))
      · exact add_pos_of_pos_of_nonneg (sq_pos_of_ne_zero (sub_ne_zero.mpr same))
          (squaredDistance_nonneg first second)

/-- A step along the coefficients lowers their weighted sum by their squares. -/
theorem weightedSum_step (coefficient target : γ → ℝ) (step : ℝ) :
    weightedSum (items.map coefficient)
        (items.map fun item => target item - step * coefficient item) =
      (items.map fun item => coefficient item * target item).sum -
        step * (items.map fun item => coefficient item ^ 2).sum := by
  induction items with
  | nil => simp [weightedSum]
  | cons item later inductionHypothesis =>
      simp only [List.map_cons, weightedSum_cons, List.sum_cons, inductionHypothesis]
      ring

/-- Coefficients that are all zero weigh nothing. -/
theorem weightedSum_of_zero {coefficients : List ℝ} (zero : ∀ value ∈ coefficients, value = 0)
    (point : List ℝ) : weightedSum coefficients point = 0 := by
  induction coefficients generalizing point with
  | nil => rfl
  | cons value later inductionHypothesis =>
      rw [List.forall_mem_cons] at zero
      cases point with
      | nil => rfl
      | cons coordinate point =>
          rw [weightedSum_cons, inductionHypothesis zero.2, zero.1, zero_mul, add_zero]

/-- The distance of a point from a target, split at the point that a step along the coefficients
leads to from the target. -/
theorem squaredDistance_split (coefficient target : γ → ℝ) (step : ℝ)
    (paired : other.length = items.length) :
    let reached := items.map fun item => target item - step * coefficient item
    squaredDistance other (items.map target) =
      squaredDistance reached (items.map target) + squaredDistance other reached -
        2 * step * (weightedSum (items.map coefficient) other -
          weightedSum (items.map coefficient) reached) := by
  induction items generalizing other with
  | nil =>
      rw [List.length_nil, List.length_eq_zero_iff] at paired
      simp [paired, squaredDistance, weightedSum]
  | cons item later inductionHypothesis =>
      obtain ⟨coordinate, rest, rfl⟩ := List.exists_cons_of_length_eq_add_one paired
      have split := inductionHypothesis (Nat.succ.inj paired)
      simp only [List.map_cons, squaredDistance_cons, weightedSum_cons] at split ⊢
      rw [split]
      ring

end Points

namespace Term

/-- The coefficients of the entries whose atoms are free. Each of these entries has a copy. -/
def freeCoefficients (records : Array (AtomRecord ℝ)) (term : Term ℝ) : List ℝ :=
  (term.entries.filter fun entry =>
    records[entry.1.index]?.any fun record => !record.fixed).map Prod.snd

/-- The constant of a term with what its observed atoms add. -/
noncomputable def observedConstant (records : Array (AtomRecord ℝ)) (term : Term ℝ) : ℝ :=
  term.constant + (term.entries.map fun entry =>
    ((records[entry.1.index]?.filter AtomRecord.fixed).map fun record =>
      entry.2 * record.value).getD 0).sum

/-- The linear form of a term with a coordinate for every entry whose atom is free. -/
noncomputable def rawOver (records : Array (AtomRecord ℝ)) (term : Term ℝ) (point : List ℝ) : ℝ :=
  weightedSum (term.freeCoefficients records) point + term.observedConstant records

end Term

namespace LocalTerm

theorem coefficients_freeCopies (records : Array (AtomRecord ℝ)) (term : Term ℝ) :
    (freeCopies records term.entries).map Copy.coefficient = term.freeCoefficients records := by
  rw [Term.freeCoefficients]
  generalize term.entries = entries
  induction entries with
  | nil => rfl
  | cons entry later inductionHypothesis =>
      obtain ⟨atom, coefficient⟩ := entry
      rw [freeCopies] at inductionHypothesis ⊢
      cases found : records[atom.index]? with
      | none => simpa [found] using inductionHypothesis
      | some record =>
          cases fixed : record.fixed with
          | true => simpa [found, fixed] using inductionHypothesis
          | false => simpa [found, fixed] using inductionHypothesis

theorem foldedConstant_eq (records : Array (AtomRecord ℝ)) (term : Term ℝ) :
    foldedConstant records term.constant term.entries = term.observedConstant records := by
  rw [Term.observedConstant]
  generalize term.constant = constant
  generalize term.entries = entries
  induction entries generalizing constant with
  | nil => simp [foldedConstant]
  | cons entry later inductionHypothesis =>
      obtain ⟨atom, coefficient⟩ := entry
      rw [foldedConstant, List.foldl_cons, ← foldedConstant, inductionHypothesis, List.map_cons,
        List.sum_cons]
      cases found : records[atom.index]? with
      | none => simp [found]
      | some record =>
          by_cases fixed : record.fixed = true
          · simp [found, fixed, Option.filter, add_assoc]
          · simp [found, fixed, Option.filter]

/-- The linear form of a local term with a coordinate for every copy. -/
noncomputable def rawOver (term : LocalTerm ℝ) (point : List ℝ) : ℝ :=
  weightedSum (term.copies.map Copy.coefficient) point + term.constant

/-- A local step leads away from the pulling points along the coefficients. -/
theorem values_minimize (term : LocalTerm ℝ) (penalty : ℝ) (values : Array ℝ) :
    (term.minimize values penalty).copies.map Copy.value = term.copies.map fun copy =>
      pull values penalty copy -
        term.stepLength penalty (term.rawAt (pull values penalty)) * copy.coefficient := by
  simp only [minimize, List.map_map]
  rfl

/-- Any other point is apart from the one that a local step leads to. -/
theorem distance_pos (term : LocalTerm ℝ) (penalty : ℝ) (values : Array ℝ) {other : List ℝ}
    (paired : other.length = term.copies.length)
    (different : other ≠ (term.minimize values penalty).copies.map Copy.value) :
    0 < squaredDistance other ((term.minimize values penalty).copies.map Copy.value) := by
  refine squaredDistance_pos ?_ different
  rw [values_minimize, List.length_map, paired]

/-- The linear form at the point that a local step leads to. -/
theorem Sound.rawOver_minimize {term : LocalTerm ℝ} (sound : term.Sound) (penalty : ℝ)
    (values : Array ℝ) :
    let pulled := term.rawAt (pull values penalty)
    term.rawOver ((term.minimize values penalty).copies.map Copy.value) =
      pulled - term.stepLength penalty pulled * term.normSquared := by
  intro pulled
  rw [rawOver, values_minimize, weightedSum_step, ← sound.norm]
  simp only [pulled, rawAt_eq]
  ring

/-- The point that a local step leads to satisfies a constraint with a norm. -/
theorem Sound.minimize_admits {term : LocalTerm ℝ} (sound : term.Sound) {penalty : ℝ}
    (positive : 0 < penalty) (values : Array ℝ) (norm : term.normSquared ≠ 0) :
    term.weight.Admits term.shape
      (term.rawOver ((term.minimize values penalty).copies.map Copy.value)) := by
  have zero : term.weight.Admits term.shape 0 := fun _ => by
    split
    · exact le_refl 0
    · rfl
  rw [sound.rawOver_minimize]
  exact (stepLength_supports positive sound.nonnegative sound.norm_nonneg
    (fun flat => absurd flat norm) zero).1

/-- No point costs less than the one that a local step leads to, and the margin grows with the
distance from it. -/
theorem Sound.minimize_supports {term : LocalTerm ℝ} (sound : term.Sound) {penalty : ℝ}
    (positive : 0 < penalty) (values : Array ℝ) {other : List ℝ}
    (paired : other.length = term.copies.length)
    (admits : term.weight.Admits term.shape (term.rawOver other)) :
    let target := term.copies.map (pull values penalty)
    let reached := (term.minimize values penalty).copies.map Copy.value
    term.weight.cost term.shape (term.rawOver reached) +
        penalty / 2 * (squaredDistance reached target + squaredDistance other reached) ≤
      term.weight.cost term.shape (term.rawOver other) +
        penalty / 2 * squaredDistance other target := by
  intro target reached
  let step := term.stepLength penalty (term.rawAt (pull values penalty))
  have reachedRaw :
      term.rawOver reached = term.rawAt (pull values penalty) - step * term.normSquared :=
    sound.rawOver_minimize penalty values
  have flat (noNorm : term.normSquared = 0) :
      term.rawOver other = term.rawAt (pull values penalty) := by
    have zero : ∀ value ∈ term.copies.map Copy.coefficient, value = 0 :=
      List.forall_mem_map.mpr fun copy member => sound.coefficient_of_flat noNorm member
    rw [noNorm, mul_zero, sub_zero] at reachedRaw
    rw [← reachedRaw, rawOver, rawOver, weightedSum_of_zero zero, weightedSum_of_zero zero]
  have line := (stepLength_supports positive sound.nonnegative sound.norm_nonneg flat admits).2
  rw [← reachedRaw] at line
  have split := squaredDistance_split Copy.coefficient (pull values penalty) step paired
  rw [← term.values_minimize penalty values] at split
  have difference : term.rawOver other - term.rawOver reached =
      weightedSum (term.copies.map Copy.coefficient) other -
        weightedSum (term.copies.map Copy.coefficient) reached := add_sub_add_right_eq_sub _ _ _
  rw [split, ← difference]
  linarith

/-- A local term in the course of a run has the linear form of its term. -/
theorem rawOver_of_frame {records : Array (AtomRecord ℝ)} {term : Term ℝ} {before : LocalTerm ℝ}
    (same : before.frame = (ofTerm records term).frame) :
    before.copies.map Copy.coefficient = term.freeCoefficients records ∧
      before.rawOver = term.rawOver records := by
  have framed (term : LocalTerm ℝ) :
      term.frame.copies.map Copy.coefficient = term.copies.map Copy.coefficient := by
    rw [frame, List.map_map]
    rfl
  have coefficients : before.copies.map Copy.coefficient = term.freeCoefficients records := by
    rw [← framed, same, framed]
    exact coefficients_freeCopies records term
  have constant : before.constant = term.observedConstant records := by
    change before.frame.constant = _
    rw [same]
    exact foldedConstant_eq records term
  refine ⟨coefficients, funext fun point => ?_⟩
  rw [rawOver, coefficients, constant, Term.rawOver]

end LocalTerm

namespace Term

/-- What a point costs a potential: its weighted shape, and half the penalty times the square of the
distance from a target. -/
noncomputable def proximalCost (records : Array (AtomRecord ℝ)) (term : Term ℝ)
    (weight penalty : ℝ) (target point : List ℝ) : ℝ :=
  weight * term.shape.apply (term.rawOver records point) +
    penalty / 2 * squaredDistance point target

/-- Whether a point satisfies a constraint without any slack. -/
def SatisfiedOver (records : Array (AtomRecord ℝ)) (term : Term ℝ) (point : List ℝ) : Prop :=
  if term.shape.isHinged then term.rawOver records point ≤ 0 else term.rawOver records point = 0

variable {records : Array (AtomRecord ℝ)} {term : Term ℝ} {before : LocalTerm ℝ} {penalty : ℝ}

/-- The local step of a potential leads to the only point of least cost. -/
theorem minimize_potential (accepted : term.Accepted)
    (same : before.frame = (LocalTerm.ofTerm records term).frame) (positive : 0 < penalty)
    (values : Array ℝ) {weight : ℝ} (soft : term.weight = .soft weight) {other : List ℝ}
    (paired : other.length = (term.freeCoefficients records).length) :
    let target := before.copies.map (LocalTerm.pull values penalty)
    let reached := (before.minimize values penalty).copies.map Copy.value
    other ≠ reached → term.proximalCost records weight penalty target reached <
      term.proximalCost records weight penalty target other := by
  intro target reached different
  have sound := LocalTerm.sound_of_frame same (LocalTerm.sound_ofTerm records accepted)
  obtain ⟨coefficients, raw⟩ := LocalTerm.rawOver_of_frame same
  have weights : before.weight = .soft weight := by
    rw [← soft]
    exact congrArg LocalTerm.weight same
  have shapes : before.shape = term.shape := congrArg LocalTerm.shape same
  rw [← coefficients, List.length_map] at paired
  have admits : before.weight.Admits before.shape (before.rawOver other) := by
    rw [weights]
    exact Weight.admits_soft weight _ _
  have supports := sound.minimize_supports positive values paired admits
  simp only [weights, shapes, raw, Weight.cost] at supports
  have apart : 0 < squaredDistance other reached :=
    before.distance_pos penalty values paired different
  have margin := mul_pos (half_pos positive) apart
  simp only [proximalCost]
  linarith

/-- The local step of a constraint leads to the nearest point that satisfies it. -/
theorem minimize_constraint (accepted : term.Accepted)
    (same : before.frame = (LocalTerm.ofTerm records term).frame) (positive : 0 < penalty)
    (values : Array ℝ) (hard : term.weight = .hard)
    (some : ∃ coefficient ∈ term.freeCoefficients records, coefficient ≠ 0) :
    let target := before.copies.map (LocalTerm.pull values penalty)
    let reached := (before.minimize values penalty).copies.map Copy.value
    term.SatisfiedOver records reached ∧
      ∀ other : List ℝ, other.length = (term.freeCoefficients records).length →
        term.SatisfiedOver records other → other ≠ reached →
          squaredDistance reached target < squaredDistance other target := by
  intro target reached
  have sound := LocalTerm.sound_of_frame same (LocalTerm.sound_ofTerm records accepted)
  obtain ⟨coefficients, raw⟩ := LocalTerm.rawOver_of_frame same
  have weights : before.weight = .hard := hard ▸ congrArg LocalTerm.weight same
  have shapes : before.shape = term.shape := congrArg LocalTerm.shape same
  have norm : before.normSquared ≠ 0 := by
    intro flat
    obtain ⟨coefficient, member, nonzero⟩ := some
    rw [← coefficients] at member
    obtain ⟨copy, copyMember, rfl⟩ := List.mem_map.mp member
    exact nonzero (sound.coefficient_of_flat flat copyMember)
  have admits_iff (point : List ℝ) :
      before.weight.Admits before.shape (before.rawOver point) ↔
        term.SatisfiedOver records point := by
    rw [weights, shapes, raw]
    exact ⟨fun admits => admits rfl, fun satisfied _ => satisfied⟩
  refine ⟨(admits_iff _).mp (sound.minimize_admits positive values norm), ?_⟩
  intro other paired satisfied different
  rw [← coefficients, List.length_map] at paired
  have supports := sound.minimize_supports positive values paired ((admits_iff other).mpr satisfied)
  simp only [weights, Weight.cost, zero_add] at supports
  have apart : 0 < squaredDistance other reached :=
    before.distance_pos penalty values paired different
  have nearer := le_of_mul_le_mul_left supports (half_pos positive)
  exact lt_of_lt_of_le (lt_add_of_pos_right _ apart) nearer

end Term

namespace ConsensusState

open ConsensusSolver (start)

/-- What a value of an atom costs its copies: the prices times the distances, and half the penalty
times the squares of the distances. -/
noncomputable def costOfCopies (penalty : ℝ) (copies : List (Copy ℝ)) (value : ℝ) : ℝ :=
  (copies.map fun copy =>
    copy.price * (copy.value - value) + penalty / 2 * (copy.value - value) ^ 2).sum

/-- The cost is a parabola around the mean of the copies with their prices. -/
theorem costOfCopies_sub {penalty : ℝ} (positive : 0 < penalty) (copies : List (Copy ℝ))
    (other value : ℝ) :
    costOfCopies penalty copies other - costOfCopies penalty copies value =
      penalty / 2 * (copies.length * (other ^ 2 - value ^ 2) -
        2 * (other - value) * (copies.map fun copy => copy.value + copy.price / penalty).sum) := by
  induction copies with
  | nil => simp [costOfCopies]
  | cons copy later inductionHypothesis =>
      simp only [costOfCopies, List.map_cons, List.sum_cons, List.length_cons,
        Nat.cast_add, Nat.cast_one] at inductionHypothesis ⊢
      rw [add_sub_add_comm, inductionHypothesis]
      field_simp
      ring

/-- An atom with copies takes their clipped mean. -/
theorem getD_average_of_copies (penalty : ℝ) {counts : Array Nat} {terms : List (LocalTerm ℝ)}
    {values : Array ℝ} {index : Nat} (inRange : index < values.size)
    (counted : counts.getD index 0 = (copiesAt terms index).length)
    (some : copiesAt terms index ≠ []) :
    (average penalty counts terms values).getD index 0 =
      max 0 (min 1 (((copiesAt terms index).map fun copy =>
        copy.value + copy.price / penalty).sum / (copiesAt terms index).length)) := by
  rw [getD_average penalty counts terms values inRange, counted,
    if_neg fun none => some (List.length_eq_zero_iff.mp none)]

/-- The step of an atom with copies leads to the only value of the unit interval of least cost. -/
theorem average_minimizes {penalty : ℝ} (positive : 0 < penalty) {counts : Array Nat}
    {terms : List (LocalTerm ℝ)} {values : Array ℝ} {index : Nat} (inRange : index < values.size)
    (counted : counts.getD index 0 = (copiesAt terms index).length)
    (some : copiesAt terms index ≠ []) {other : ℝ} (nonnegative : 0 ≤ other)
    (atMostOne : other ≤ 1) :
    let reached := (average penalty counts terms values).getD index 0
    other ≠ reached → costOfCopies penalty (copiesAt terms index) reached <
      costOfCopies penalty (copiesAt terms index) other := by
  intro reached different
  let copies := copiesAt terms index
  let sum := (copies.map fun copy => copy.value + copy.price / penalty).sum
  have several : (0 : ℝ) < copies.length := by
    exact_mod_cast List.length_pos_iff.mpr some
  have clamped : reached = max 0 (min 1 (sum / copies.length)) :=
    getD_average_of_copies penalty inRange counted some
  have separated := clamp_separates (sum / copies.length) nonnegative atMostOne
  rw [← clamped] at separated
  have apart : 0 < (other - reached) ^ 2 := sq_pos_of_ne_zero (sub_ne_zero.mpr different)
  rw [← sub_pos, costOfCopies_sub positive]
  have total : sum = copies.length * (sum / copies.length) := (mul_div_cancel₀ _ several.ne').symm
  change 0 < penalty / 2 * (copies.length * _ - 2 * _ * sum)
  rw [total]
  have parabola : (copies.length : ℝ) * (other ^ 2 - reached ^ 2) -
      2 * (other - reached) * (copies.length * (sum / copies.length)) =
        copies.length * ((other - reached) ^ 2 -
          2 * ((sum / copies.length - reached) * (other - reached))) := by
    ring
  rw [parabola]
  exact mul_pos (half_pos positive) (mul_pos several (by linarith))

/-- States of one problem have copies of the same atoms, all of which are there, and the plan of a
run counts them. -/
theorem counted_of_frames {terms : List (Term ℝ)} {atoms : AtomStore ℝ}
    {states : List (LocalTerm ℝ)} (same : frames states = frames (start terms atoms).terms)
    {index : Nat} (some : copiesAt states index ≠ []) :
    index < atoms.size ∧
      (start terms atoms).copyCounts.getD index 0 = (copiesAt states index).length := by
  have sameAtoms := atomsOf_congr same
  have inRange : index < atoms.size := by
    obtain ⟨copy, member⟩ := List.exists_mem_of_ne_nil _ some
    obtain ⟨copyMember, here⟩ := List.mem_filter.mp member
    have named : copy.atom ∈ atomsOf (start terms atoms).terms :=
      sameAtoms ▸ List.mem_map_of_mem copyMember
    obtain ⟨begun, begunMember, atom⟩ := List.mem_map.mp named
    obtain ⟨-, record, found, -⟩ := mem_copiesOf_start begunMember
    rw [atom, of_decide_eq_true here] at found
    exact (Array.getElem?_eq_some_iff.mp found).1
  refine ⟨inRange, ?_⟩
  rw [getD_copyCounts _ (by simpa [start, AtomStore.values, AtomStore.size] using inRange),
    length_copiesAt, length_copiesAt, sameAtoms]

/-- The free atom twice should be as large as the observed one, as a constraint. -/
noncomputable def pairTerm : Term ℝ := ⟨⟨0⟩, .linear, .hard, 0, [⟨0⟩, ⟨0⟩, ⟨1⟩], [1, 1, -1]⟩

theorem pairTerm_accepted : pairTerm.Accepted := by
  simp [Term.Accepted, Term.build, pairTerm, Term.maxArity, Scalar.isFinite]

theorem freeCoefficients_pairTerm :
    pairTerm.freeCoefficients sampleAtoms.records = [1, 1] := by
  simp [Term.freeCoefficients, pairTerm, sampleAtoms, Term.entries, AtomId.index]

theorem freeCoefficients_unitTerm : unitTerm.freeCoefficients sampleAtoms.records = [1] := by
  simp [Term.freeCoefficients, unitTerm, sampleAtoms, Term.entries, AtomId.index]

theorem rawOver_pairTerm (left right : ℝ) :
    pairTerm.rawOver sampleAtoms.records [left, right] = left + right - 1 := by
  rw [Term.rawOver, freeCoefficients_pairTerm]
  simp [Term.observedConstant, pairTerm, sampleAtoms, Term.entries, AtomId.index, Option.filter,
    weightedSum, sub_eq_add_neg]

theorem rawOver_unitTerm (value : ℝ) :
    unitTerm.rawOver sampleAtoms.records [value] = value - 1 := by
  rw [Term.rawOver, freeCoefficients_unitTerm]
  simp [Term.observedConstant, unitTerm, sampleAtoms, Term.entries, AtomId.index, Option.filter,
    weightedSum, sub_eq_add_neg]

theorem ofTerm_pairTerm : LocalTerm.ofTerm sampleAtoms.records pairTerm =
    ⟨⟨0⟩, .linear, .hard, -1, 1 + 1, [⟨⟨0⟩, 1, 0, 0⟩, ⟨⟨0⟩, 1, 0, 0⟩]⟩ := by
  simp [LocalTerm.ofTerm, pairTerm, sampleAtoms, Term.entries, LocalTerm.freeCopies,
    LocalTerm.foldedConstant, AtomId.index, Scalar.square]

end ConsensusState

end HingeLoss
