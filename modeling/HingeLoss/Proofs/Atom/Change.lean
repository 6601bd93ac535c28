import HingeLoss.Proofs.Atom.Store
import HingeLoss.Store.Resident

/-! The ways in which an atom store changes. -/

namespace HingeLoss

/-- What can be asked of an atom store that changes it. -/
inductive AtomChange (α : Type) where
  | register (record : AtomRecord α)
  | assign (atom : AtomId) (value : α)
  | find (atom : AtomId)
  | union (first second : AtomId)
  | resetPartition

namespace AtomStore

variable {α : Type} {atoms after : AtomStore α}

/-- A change that is refused leaves the atoms as they are. -/
def change [Scalar α] (atoms : AtomStore α) : AtomChange α → AtomStore α
  | .register record =>
      match atoms.register record with
      | .ok (_, after) => after
      | .error _ => atoms
  | .assign atom value =>
      match atoms.assign atom value with
      | .ok after => after
      | .error _ => atoms
  | .find atom =>
      match atoms.find atom with
      | .ok (_, after) => after
      | .error _ => atoms
  | .union first second =>
      match atoms.union first second with
      | .ok (_, after) => after
      | .error _ => atoms
  | .resetPartition => atoms.resetPartition

/-- Atoms that pass the check of a list are there. -/
theorem inRange_of_checkAll {needed : List AtomId} (checked : atoms.checkAll needed = .ok ()) :
    ∀ atom ∈ needed, atom.index < atoms.size := by
  unfold checkAll at checked
  induction needed with
  | nil => simp
  | cons first rest inductionHypothesis =>
      change (atoms.check first >>= fun _ => rest.forM atoms.check) = .ok () at checked
      cases found : atoms.records[first.index]? with
      | none =>
          rw [check, lookup, found] at checked
          cases checked
      | some record =>
          rw [check, lookup, found] at checked
          exact List.forall_mem_cons.mpr
            ⟨(Array.getElem?_eq_some_iff.mp found).1, inductionHypothesis checked⟩

/-- A list that fails the check has an atom that is not there, and the fault names it. -/
theorem checkAll_error {needed : List AtomId} {fault : AtomFault α}
    (failed : atoms.checkAll needed = .error fault) :
    ∃ atom ∈ needed, atoms.size ≤ atom.index ∧ fault = .outOfRange atom.index atoms.size := by
  unfold checkAll at failed
  induction needed with
  | nil => cases failed
  | cons first rest inductionHypothesis =>
      change (atoms.check first >>= fun _ => rest.forM atoms.check) = .error fault at failed
      cases found : atoms.records[first.index]? with
      | none =>
          rw [check, lookup, found] at failed
          cases failed
          exact ⟨first, List.mem_cons_self, Array.getElem?_eq_none_iff.mp found, rfl⟩
      | some record =>
          rw [check, lookup, found] at failed
          obtain ⟨atom, member, missing⟩ := inductionHypothesis failed
          exact ⟨atom, List.mem_cons_of_mem _ member, missing⟩

/-- Checks that all succeed succeed in turn. -/
theorem forM_ok {γ ε : Type} {check : γ → Except ε Unit} {items : List γ}
    (each : ∀ item ∈ items, check item = .ok ()) : items.forM check = .ok () := by
  induction items with
  | nil => rfl
  | cons item later inductionHypothesis =>
      change (check item >>= fun _ => later.forM check) = .ok ()
      rw [each item List.mem_cons_self]
      exact inductionHypothesis fun other member => each other (List.mem_cons_of_mem _ member)

theorem of_forM_ok {γ ε : Type} {check : γ → Except ε Unit} {items : List γ}
    (checked : items.forM check = .ok ()) : ∀ item ∈ items, check item = .ok () := by
  induction items with
  | nil => simp
  | cons item later inductionHypothesis =>
      change (check item >>= fun _ => later.forM check) = .ok () at checked
      cases first : check item with
      | error fault =>
          rw [first] at checked
          cases checked
      | ok _ =>
          rw [first] at checked
          exact List.forall_mem_cons.mpr ⟨first, inductionHypothesis checked⟩

theorem checkAll_ok {needed : List AtomId} (inRange : ∀ atom ∈ needed, atom.index < atoms.size) :
    atoms.checkAll needed = .ok () :=
  forM_ok fun atom member => by
    have inside : atom.index < atoms.records.size := inRange atom member
    rw [check, lookup, Array.getElem?_eq_getElem inside]
    rfl

theorem singletons_succ (count : Nat) :
    Forest.singletons (count + 1) = (Forest.singletons count).push := by
  simp only [Forest.singletons, Forest.push, Forest.mk.injEq]
  rw [Array.ofFn_succ]
  simp

section

variable [Scalar α]

/-- Records that are registered in turn stand behind the older ones, each in a set of its own. -/
theorem foldlM_register_ok {records : List (AtomRecord α)} (count : Nat)
    (alone : atoms.partition = .singletons count)
    (built : records.foldlM (fun store record => (store.register record).map Prod.snd) atoms =
      .ok after) :
    after.records.toList = atoms.records.toList ++ records ∧
      after.partition = .singletons (count + records.length) := by
  induction records generalizing atoms count with
  | nil =>
      cases built
      exact ⟨(List.append_nil _).symm, alone⟩
  | cons record rest inductionHypothesis =>
      rw [List.foldlM_cons] at built
      cases registered : atoms.register record with
      | error fault =>
          rw [registered] at built
          cases built
      | ok outcome =>
          rw [registered] at built
          unfold register at registered
          split at registered
          · cases registered
            obtain ⟨held, singletons⟩ := inductionHypothesis (count + 1)
              ((congrArg Forest.push alone).trans (singletons_succ count).symm) built
            rw [List.length_cons, held, singletons, Array.toList_push, List.append_assoc]
            exact ⟨rfl, congrArg _ (by omega)⟩
          · cases registered

theorem ofRecords_ok {records : List (AtomRecord α)} (built : ofRecords records = .ok after) :
    after.records.toList = records ∧ after.partition = .singletons records.length := by
  obtain ⟨held, singletons⟩ := foldlM_register_ok 0 rfl built
  rw [held, singletons, Nat.zero_add]
  exact ⟨rfl, rfl⟩

/-- A reset partition is that of a store with the same records that is registered anew. -/
theorem resetPartition_eq (built : ofRecords atoms.records.toList = .ok after) :
    atoms.resetPartition = after := by
  obtain ⟨records, singletons⟩ := ofRecords_ok built
  have same : after.records = atoms.records := Array.toList_inj.mp records
  have reset : atoms.partition.reset = after.partition := by
    rw [singletons, Array.length_toList, Forest.reset, atoms.sizesAgree]
  obtain ⟨held, partition, sizes⟩ := after
  cases same
  cases reset
  rfl

/-- All values of a store are finite and in the unit interval. -/
def Valid (atoms : AtomStore α) : Prop :=
  ∀ record ∈ atoms.records.toList, inUnit record.value = true

theorem foldlM_register_of_valid {records : List (AtomRecord α)}
    (valid : ∀ record ∈ records, inUnit record.value = true) (atoms : AtomStore α) :
    ∃ after, records.foldlM (fun store record => (store.register record).map Prod.snd) atoms =
      .ok after := by
  induction records generalizing atoms with
  | nil => exact ⟨atoms, rfl⟩
  | cons record rest inductionHypothesis =>
      rw [List.forall_mem_cons] at valid
      obtain ⟨after, built⟩ := inductionHypothesis valid.2 ⟨atoms.records.push record,
        atoms.partition.push, by rw [Forest.size_push, atoms.sizesAgree, Array.size_push]⟩
      refine ⟨after, ?_⟩
      rw [List.foldlM_cons, register, if_pos valid.1]
      exact built

/-- The records of a valid store can be registered anew. -/
theorem Valid.exists_ofRecords (valid : atoms.Valid) :
    ∃ after, ofRecords atoms.records.toList = .ok after :=
  foldlM_register_of_valid valid empty

end

theorem inUnit_clampUnit {value : Single} (finite : Scalar.isFinite value = true) :
    inUnit (Scalar.clampUnit value) = true := by
  have number : value.isNaN = false := by
    simp only [Scalar.isFinite, Single.isFinite, decide_eq_true_eq, Single.isNaN,
      decide_eq_false_iff_not, UInt32.not_lt] at finite ⊢
    exact UInt32.le_of_lt finite
  unfold Scalar.clampUnit
  split
  · decide
  · rename_i notBelow
    split
    · decide
    · rename_i notAbove
      have zeroNumber : (0 : Single).isNaN = false := by decide
      have oneNumber : (1 : Single).isNaN = false := by decide
      have above : (0 : Single) ≤ value :=
        ⟨zeroNumber, number, Int.not_lt.mp fun below => notBelow ⟨number, zeroNumber, below⟩⟩
      have below : value ≤ (1 : Single) :=
        ⟨number, oneNumber, Int.not_lt.mp fun above => notAbove ⟨oneNumber, number, above⟩⟩
      simp [inUnit, finite, above, below]

/-- A value only enters if it is valid, and an assigned one is clamped. -/
theorem Valid.change {atoms : AtomStore Single} (valid : atoms.Valid) (change : AtomChange Single) :
    (atoms.change change).Valid := by
  cases change with
  | register record =>
      simp only [AtomStore.change, register]
      split
      · rename_i registered
        split at registered
        · rename_i accepted
          cases registered
          intro other member
          rw [Array.toList_push, List.mem_append, List.mem_singleton] at member
          rcases member with old | rfl
          · exact valid other old
          · exact accepted
        · cases registered
      · exact valid
  | assign atom value =>
      simp only [AtomStore.change, assign]
      cases atoms.lookup atom with
      | error fault => exact valid
      | ok record =>
          dsimp only
          split
          · rename_i assigned
            split at assigned
            · cases assigned
            · split at assigned
              · rename_i finite
                cases assigned
                intro other member
                rw [Array.mem_toList_iff] at member
                obtain ⟨index, inRange, rfl⟩ := Array.mem_iff_getElem.mp member
                rw [Array.getElem_modify]
                split
                · exact inUnit_clampUnit finite
                · exact valid _ (Array.getElem_mem_toList _)
              · cases assigned
          · exact valid
  | find atom =>
      simp only [AtomStore.change, find]
      split
      · rename_i found
        split at found
        · cases found
          exact valid
        · cases found
      · exact valid
  | union first second =>
      simp only [AtomStore.change, union]
      split
      · rename_i united
        split at united
        · split at united
          · cases united
            exact valid
          · cases united
        · cases united
      · exact valid
  | resetPartition => exact valid

end AtomStore

end HingeLoss
