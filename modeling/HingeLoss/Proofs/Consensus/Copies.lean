import HingeLoss.Consensus.Solver

/-! What an iteration makes of an atom is a matter of its own copies. -/

namespace HingeLoss

/-- The items of a place change its cell in their order, and no other item does. -/
theorem getElem?_foldl_modify {γ δ : Type} (place : γ → Nat) (change : γ → δ → δ) (items : List γ)
    (cells : Array δ) (index : Nat) :
    (items.foldl (fun cells item => cells.modify (place item) (change item)) cells)[index]? =
      cells[index]?.map fun cell =>
        (items.filter fun item => place item = index).foldl (fun cell item => change item cell)
          cell := by
  induction items generalizing cells with
  | nil => simp
  | cons item later inductionHypothesis =>
      rw [List.foldl_cons, inductionHypothesis, Array.getElem?_modify, List.filter_cons]
      by_cases here : place item = index
      · simp only [here, if_true, decide_true, Option.map_map, List.foldl_cons]
        rfl
      · simp only [here, if_false, decide_false, Bool.false_eq_true]

namespace LocalTerm

variable {α : Type} [Scalar α]

theorem atoms_minimize (values : Array α) (penalty : α) (term : LocalTerm α) :
    (term.minimize values penalty).copies.map Copy.atom = term.copies.map Copy.atom := by
  simp only [minimize, List.map_map, Function.comp_def]

theorem atoms_raisePrices (values : Array α) (penalty : α) (term : LocalTerm α) :
    (term.raisePrices values penalty).copies.map Copy.atom = term.copies.map Copy.atom := by
  simp only [raisePrices, List.map_map, Function.comp_def]

/-- A local term has copies of free atoms of the term alone. -/
theorem mem_copies_ofTerm {records : Array (AtomRecord α)} {term : Term α} {copy : Copy α}
    (member : copy ∈ (ofTerm records term).copies) :
    copy.atom ∈ term.atoms ∧
      ∃ record, records[copy.atom.index]? = some record ∧ record.fixed = false := by
  obtain ⟨⟨atom, coefficient⟩, entry, made⟩ := List.mem_filterMap.mp member
  dsimp only at made
  split at made
  · rename_i record found
    split at made
    · cases made
    · rename_i free
      cases made
      exact ⟨(List.of_mem_zip entry).1, record, found, Bool.not_eq_true _ ▸ free⟩
  · cases made

end LocalTerm

namespace ConsensusState

variable {α β : Type}

/-- The copies of the atom with an index, in the order of the terms. -/
def copiesWith (terms : List (LocalTerm α)) (index : Nat) : List (Copy α) :=
  (terms.flatMap LocalTerm.copies).filter fun copy => copy.atom.index = index

theorem copiesWith_cons (term : LocalTerm α) (terms : List (LocalTerm α)) (index : Nat) :
    copiesWith (term :: terms) index =
      (term.copies.filter fun copy => copy.atom.index = index) ++ copiesWith terms index := by
  rw [copiesWith, List.flatMap_cons, List.filter_append, copiesWith]

theorem getElem?_copyCounts (state : ConsensusState α) (index : Nat) :
    state.copyCounts[index]? = (Array.replicate state.values.size 0)[index]?.map fun count =>
      count + (copiesWith state.terms index).length := by
  have counted (count : Nat) : count + (copiesWith state.terms index).length =
      (copiesWith state.terms index).foldl (fun count _ => count + 1) count := by
    rw [List.foldl_add_const, Nat.one_mul]
  simp only [counted]
  rw [copiesWith, ← getElem?_foldl_modify (fun copy : Copy α => copy.atom.index)
    fun _ count => count + 1, List.foldl_flatMap]
  rfl

theorem getD_copyCounts_of_no_copies {state : ConsensusState α} {index : Nat}
    (noCopies : copiesWith state.terms index = []) : state.copyCounts.getD index 0 = 0 := by
  rw [Array.getD_eq_getD_getElem?, getElem?_copyCounts, noCopies, Array.getElem?_replicate]
  split <;> rfl

variable [Scalar α] [Scalar β] [Widening α β]

theorem getElem?_copySums (penalty : α) (size : Nat) (terms : List (LocalTerm α)) (index : Nat) :
    (copySums penalty size terms)[index]? = (Array.replicate size (0 : α))[index]?.map fun sum =>
      (copiesWith terms index).foldl (fun sum copy => sum + (copy.value + copy.price / penalty))
        sum := by
  rw [copiesWith, ← getElem?_foldl_modify (fun copy : Copy α => copy.atom.index)
    fun copy sum => sum + (copy.value + copy.price / penalty), List.foldl_flatMap]
  rfl

theorem getElem?_average (penalty : α) (counts : Array Nat) (terms : List (LocalTerm α))
    (values : Array α) (index : Nat) :
    (average penalty counts terms values)[index]? = values[index]?.map fun value =>
      match counts.getD index 0 with
      | 0 => value
      | count =>
          Scalar.clampUnit ((copySums penalty values.size terms).getD index 0 / (count : α)) := by
  refine Array.getElem?_mapIdx.trans (Option.map_congr fun value _ => ?_)
  cases counts.getD index 0 <;> rfl

/-- An atom without copies keeps its value. -/
theorem getElem?_iterate_of_no_copies (plan : Plan α β) (state : ConsensusState α) {index : Nat}
    (none : plan.counts.getD index 0 = 0) :
    (iterate plan state).1.values[index]? = state.values[index]? := by
  change (average _ _ _ _)[index]? = _
  rw [getElem?_average, none]
  cases state.values[index]? <;> rfl

end ConsensusState

namespace ConsensusSolver

variable {α β : Type} [Scalar α] [Scalar β] [Widening α β]

open ConsensusState

/-- What every iteration keeps holds at the end of the iterations. -/
theorem iterateUpTo_invariant {plan : Plan α β} (holds : ConsensusState α → Prop)
    (keeps : ∀ state, holds state → holds (iterate plan state).1) (cancelled : Nat → Bool)
    (left : Nat) {ending : Ending α β} (here : holds ending.state) :
    holds (iterateUpTo plan cancelled left ending).state := by
  induction left generalizing ending with
  | zero => exact here
  | succ left inductionHypothesis =>
      unfold iterateUpTo
      split
      · exact here
      · dsimp only
        split
        · exact keeps _ here
        · exact inductionHypothesis (keeps _ here)

/-- An atom that no term has ends a run with the value that it began with. -/
theorem getElem?_iterateUpTo_of_no_atom (settings : ConsensusSettings α)
    (tree : List (LocalTerm α) → SumTree) (cancelled : Nat → Bool) {terms : List (Term α)} (atoms : AtomStore α) (left : Nat) {index : Nat}
    (apart : ∀ term ∈ terms, ∀ atom ∈ term.atoms, atom.index ≠ index) :
    let ending : Ending α β := iterateUpTo (plan settings tree (start terms atoms)) cancelled left
      ⟨.maxIterationsReached, 0, none, start terms atoms⟩
    ending.state.values[index]? = atoms.values[index]? := by
  have noCopies : copiesWith (start terms atoms).terms index = [] := by
    refine List.filter_eq_nil_iff.mpr fun copy member here => ?_
    obtain ⟨localTerm, localMember, copyMember⟩ := List.mem_flatMap.mp member
    obtain ⟨term, termMember, rfl⟩ := List.mem_map.mp localMember
    exact apart term termMember copy.atom (LocalTerm.mem_copies_ofTerm copyMember).1
      (of_decide_eq_true here)
  have none : (start terms atoms).copyCounts.getD index 0 = 0 :=
    getD_copyCounts_of_no_copies noCopies
  refine iterateUpTo_invariant (fun state => state.values[index]? = atoms.values[index]?)
    (fun state kept => ?_) cancelled left rfl
  exact (getElem?_iterate_of_no_copies _ state none).trans kept

end ConsensusSolver

end HingeLoss
