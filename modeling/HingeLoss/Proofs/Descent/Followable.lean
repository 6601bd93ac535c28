import HingeLoss.Descent.Step

/-! Which terms a descent can follow is known before the first step. -/

namespace HingeLoss

variable {α β : Type}

/-- A term that a descent over so many atoms can follow. -/
def Term.Followable (size : Nat) (term : Term α) : Prop :=
  term.isHard = false ∧ ∀ atom ∈ term.atoms, atom.index < size

instance (size : Nat) (term : Term α) : Decidable (term.Followable size) :=
  inferInstanceAs (Decidable (_ ∧ _))

/-- A followable term reads no value that is not there. -/
theorem Term.Followable.readsBelow {size : Nat} {term : Term α}
    (followable : term.Followable size) : term.readsBelow size = true :=
  List.all_eq_true.mpr fun entry member =>
    decide_eq_true (followable.2 entry.1 (List.of_mem_zip member).1)

namespace Epoch

/-- The fault at a term that cannot be followed, where so many terms have been followed before. -/
inductive Refuses (size visited : Nat) (term : Term α) : SolverFault α → Prop
  | hard (hard : term.isHard = true) : Refuses size visited term (.hardConstraint visited)
  | outside {atom : AtomId} (soft : term.isHard = false) (member : atom ∈ term.atoms)
      (outside : size ≤ atom.index) :
      Refuses size visited term (.atom (.outOfRange atom.index size))

/-- Atoms that all have values pass the check. -/
theorem checkAtoms_ok {size : Nat} {atoms : List AtomId}
    (held : ∀ atom ∈ atoms, atom.index < size) :
    (checkAtoms size atoms : Except (SolverFault α) Unit) = .ok () := by
  have none : (atoms.find? fun atom => size ≤ atom.index) = none :=
    List.find?_eq_none.mpr fun atom member => by simpa using held atom member
  rw [checkAtoms, none]

theorem checkAtoms_error {size : Nat} {atoms : List AtomId}
    (unheld : ¬ ∀ atom ∈ atoms, atom.index < size) :
    ∃ atom ∈ atoms, size ≤ atom.index ∧
      (checkAtoms size atoms : Except (SolverFault α) Unit) =
        .error (.atom (.outOfRange atom.index size)) := by
  cases found : atoms.find? fun atom => size ≤ atom.index with
  | none =>
      refine absurd (fun atom member => ?_) unheld
      simpa using List.find?_eq_none.mp found atom member
  | some atom =>
      refine ⟨atom, List.mem_of_find?_eq_some found, ?_, by rw [checkAtoms, found]⟩
      simpa using List.find?_some found

variable [Scalar α] [Scalar β] [Widening α β] {plan : EpochPlan α} {epoch : Epoch α β}

theorem size_moveAtom (scale : α) (entry : AtomId × α) :
    (moveAtom plan scale epoch entry).values.size = epoch.values.size := by
  unfold moveAtom
  dsimp only
  split
  · rfl
  · split
    · rfl
    · exact Array.size_setIfInBounds

theorem visited_moveAtom (scale : α) (entry : AtomId × α) :
    (moveAtom plan scale epoch entry).visited = epoch.visited := by
  unfold moveAtom
  dsimp only
  split
  · rfl
  · split <;> rfl

theorem size_foldl_moveAtom (scale : α) (entries : List (AtomId × α)) :
    (entries.foldl (moveAtom plan scale) epoch).values.size = epoch.values.size := by
  induction entries generalizing epoch with
  | nil => rfl
  | cons entry later inductionHypothesis =>
      rw [List.foldl_cons, inductionHypothesis, size_moveAtom]

theorem visited_foldl_moveAtom (scale : α) (entries : List (AtomId × α)) :
    (entries.foldl (moveAtom plan scale) epoch).visited = epoch.visited := by
  induction entries generalizing epoch with
  | nil => rfl
  | cons entry later inductionHypothesis =>
      rw [List.foldl_cons, inductionHypothesis, visited_moveAtom]

variable (plan) (epoch)

/-- A followable term is counted, and there are as many values as before. -/
theorem follow_of_followable {term : Term α} (followable : term.Followable epoch.values.size) :
    ∃ after, follow plan epoch term = .ok after ∧ after.values.size = epoch.values.size ∧
      after.visited = epoch.visited + 1 := by
  obtain ⟨soft, held⟩ := followable
  simp only [follow, soft, Bool.false_eq_true, if_false, checkAtoms_ok held]
  split
  · exact ⟨_, rfl, rfl, rfl⟩
  · exact ⟨_, rfl, size_foldl_moveAtom _ _, visited_foldl_moveAtom _ _⟩

theorem follow_of_not_followable {term : Term α}
    (unfit : ¬ term.Followable epoch.values.size) :
    ∃ fault, Refuses epoch.values.size epoch.visited term fault ∧
      follow plan epoch term = .error fault := by
  by_cases hard : term.isHard = true
  · exact ⟨_, .hard hard, by rw [follow, if_pos hard]⟩
  · have soft : term.isHard = false := Bool.not_eq_true _ ▸ hard
    obtain ⟨atom, member, outside, checked⟩ :=
      checkAtoms_error (α := α) fun held => unfit ⟨soft, held⟩
    refine ⟨_, .outside soft member outside, ?_⟩
    simp only [follow, soft, Bool.false_eq_true, if_false, checked]

/-- Followable terms are followed one after another. -/
theorem foldlM_follow_ok (terms : List (Term α))
    (followable : ∀ term ∈ terms, term.Followable epoch.values.size) :
    ∃ after, terms.foldlM (follow plan) epoch = .ok after ∧
      after.values.size = epoch.values.size := by
  induction terms generalizing epoch with
  | nil => exact ⟨epoch, rfl, rfl⟩
  | cons term later inductionHypothesis =>
      rw [List.forall_mem_cons] at followable
      obtain ⟨next, followed, size, -⟩ := follow_of_followable plan epoch followable.1
      rw [← size] at followable
      obtain ⟨after, rest, sizeRest⟩ := inductionHypothesis next followable.2
      exact ⟨after, by rw [List.foldlM_cons, followed]; exact rest, sizeRest.trans size⟩

/-- The first term that cannot be followed is the fault, and the number in it is that of the terms
before. -/
theorem foldlM_follow_error (terms : List (Term α))
    (unfit : ¬ ∀ term ∈ terms, term.Followable epoch.values.size) :
    ∃ place term fault, terms[place]? = some term ∧
      (∀ earlier ∈ terms.take place, earlier.Followable epoch.values.size) ∧
      Refuses epoch.values.size (epoch.visited + place) term fault ∧
      terms.foldlM (follow plan) epoch = .error fault := by
  induction terms generalizing epoch with
  | nil => exact absurd (fun _ member => absurd member List.not_mem_nil) unfit
  | cons term later inductionHypothesis =>
      by_cases first : term.Followable epoch.values.size
      · obtain ⟨next, followed, size, visited⟩ := follow_of_followable plan epoch first
        have unfitLater : ¬ ∀ term ∈ later, term.Followable next.values.size := by
          rw [size]
          exact fun fit => unfit (List.forall_mem_cons.mpr ⟨first, fit⟩)
        obtain ⟨place, refused, fault, found, earlier, refuses, failed⟩ :=
          inductionHypothesis next unfitLater
        rw [size] at earlier refuses
        rw [visited, Nat.add_assoc, Nat.add_comm 1] at refuses
        refine ⟨place + 1, refused, fault, found, ?_, refuses, ?_⟩
        · rw [List.take_succ_cons]
          exact List.forall_mem_cons.mpr ⟨first, earlier⟩
        · rw [List.foldlM_cons, followed]
          exact failed
      · obtain ⟨fault, refuses, failed⟩ := follow_of_not_followable plan epoch first
        refine ⟨0, term, fault, rfl, fun _ member => absurd member List.not_mem_nil, refuses, ?_⟩
        rw [List.foldlM_cons, failed]
        rfl

end Epoch

end HingeLoss
