import Mathlib.Data.List.Nodup
import HingeLoss.Proofs.Atom.Change
import HingeLoss.Proofs.Store.Components

/-! An insertion under the next number leaves every number in one bucket, once. -/

namespace HingeLoss

namespace ComponentIndex

variable {α : Type} {index : ComponentIndex} {atoms : AtomStore α} {count : Nat}

/-- Every number below a count is in exactly one bucket, and there only once. -/
structure Dense (index : ComponentIndex) (count : Nat) : Prop where
  distinct : ∀ key, (index.idsAt key).Nodup
  apart : ∀ first second id, id ∈ index.idsAt first → id ∈ index.idsAt second → first = second
  all : ∀ id, (∃ key, id ∈ index.idsAt key) ↔ id < count

theorem idsAt_empty (key : AtomId) : empty.idsAt key = [] := by
  simp [empty, idsAt, get?]

theorem dense_empty : empty.Dense 0 where
  distinct key := by simp [idsAt_empty]
  apart := by simp [idsAt_empty]
  all := by simp [idsAt_empty]

theorem idsAt_file (index : ComponentIndex) (root key : AtomId) (id : TermId) :
    (index.file root id).idsAt key =
      if root = key then index.idsAt key ++ [id] else index.idsAt key := by
  rw [idsAt, get?_file]
  split
  · rw [Option.getD_some, Array.toList_push, idsAt]
  · rfl

/-- The next number may go to any bucket. -/
theorem Dense.file (dense : index.Dense count) (root : AtomId) :
    (index.file root count).Dense (count + 1) := by
  have new (key : AtomId) : count ∉ index.idsAt key := fun filed =>
    Nat.lt_irrefl count ((dense.all count).mp ⟨key, filed⟩)
  have filed (key : AtomId) (id : TermId) : id ∈ (index.file root count).idsAt key ↔
      id ∈ index.idsAt key ∨ root = key ∧ id = count := by
    rw [idsAt_file]
    split <;> simp [*]
  constructor
  · intro key
    rw [idsAt_file]
    split
    · exact List.Nodup.append (dense.distinct key) (List.nodup_singleton count)
        (by simpa using new key)
    · exact dense.distinct key
  · intro first second id firstFiled secondFiled
    rw [filed] at firstFiled secondFiled
    rcases firstFiled with firstOld | ⟨rfl, rfl⟩
    · rcases secondFiled with secondOld | ⟨-, rfl⟩
      · exact dense.apart first second id firstOld secondOld
      · exact absurd firstOld (new first)
    · rcases secondFiled with secondOld | ⟨same, -⟩
      · exact absurd secondOld (new second)
      · exact same
  · intro id
    simp only [filed, exists_or, dense.all]
    constructor
    · rintro (old | ⟨-, -, rfl⟩)
      · exact Nat.lt_succ_of_lt old
      · exact Nat.lt_succ_self _
    · intro below
      rcases Nat.lt_succ_iff_lt_or_eq.mp below with old | rfl
      · exact .inl old
      · exact .inr ⟨root, rfl, rfl⟩

theorem idsAt_merge_perm (index : ComponentIndex) {first second merged : AtomId}
    (survivor : merged = first ∨ merged = second) (key : AtomId) :
    ((index.merge first second merged).idsAt key).Perm
      (if key = merged then index.idsAt first ++ index.idsAt second
      else if key = first ∨ key = second then [] else index.idsAt key) := by
  obtain ⟨joined, contents, lookups⟩ := index.get?_merge survivor
  rw [idsAt, lookups]
  split
  · split
    · rename_i nothing
      rw [Array.isEmpty_iff.mp nothing] at contents
      exact contents
    · exact contents
  · split
    · exact .refl _
    · exact .refl _

/-- Two buckets may become one. -/
theorem Dense.merge (dense : index.Dense count) {first second merged : AtomId}
    (different : first ≠ second) (survivor : merged = first ∨ merged = second) :
    (index.merge first second merged).Dense count := by
  have contents := index.idsAt_merge_perm survivor
  have filed (key : AtomId) (id : TermId) : id ∈ (index.merge first second merged).idsAt key ↔
      if key = merged then id ∈ index.idsAt first ∨ id ∈ index.idsAt second
      else key ≠ first ∧ key ≠ second ∧ id ∈ index.idsAt key := by
    rw [(contents key).mem_iff]
    split
    · exact List.mem_append
    · split <;> grind
  constructor
  · intro key
    rw [(contents key).nodup_iff]
    split
    · refine List.Nodup.append (dense.distinct first) (dense.distinct second) ?_
      exact fun id firstFiled secondFiled =>
        different (dense.apart first second id firstFiled secondFiled)
    · split
      · exact List.nodup_nil
      · exact dense.distinct key
  · intro left right id leftFiled rightFiled
    have apart := dense.apart
    rw [filed] at leftFiled rightFiled
    grind
  · intro id
    rw [← dense.all]
    simp only [filed]
    constructor
    · rintro ⟨key, held⟩
      grind
    · rintro ⟨key, held⟩
      by_cases moved : key = first ∨ key = second
      · exact ⟨merged, by grind⟩
      · exact ⟨key, by grind⟩

/-- Linking merges buckets alone. -/
theorem Dense.link {root : AtomId} {list : List AtomId} (dense : index.Dense count)
    (isRoot : atoms.root root = root) (rootInRange : root.index < atoms.size)
    (inRange : ∀ atom ∈ list, atom.index < atoms.size) :
    ∃ key linked after, index.link atoms root list = (.ok key, linked, after) ∧
      linked.Dense count := by
  induction list generalizing index atoms root with
  | nil => exact ⟨root, index, atoms, rfl, dense⟩
  | cons atom rest inductionHypothesis =>
      rw [List.forall_mem_cons] at inRange
      obtain ⟨atomInRange, restInRange⟩ := inRange
      rw [ComponentIndex.link, atoms.isFixed_eq atomInRange]
      cases atoms.isFree atom with
      | false => exact inductionHypothesis dense isRoot rootInRange restInRange
      | true =>
          obtain ⟨walked, found, records, roots⟩ := AtomStore.find_ok atomInRange
          have walkedSize := AtomStore.size_congr records
          simp only [Bool.not_true, found]
          by_cases same : atoms.root atom = root
          · rw [if_pos same]
            exact inductionHypothesis dense ((roots root).trans isRoot)
              (walkedSize ▸ rootInRange) (walkedSize ▸ restInRange)
          · have otherRoot : walked.root (atoms.root atom) = atoms.root atom :=
              (roots _).trans (atoms.root_root atom)
            obtain ⟨merged, united, union, unitedRecords, survivor, moved⟩ :=
              AtomStore.union_ok root (atoms.root atom) (walkedSize ▸ rootInRange)
                (walkedSize ▸ atoms.root_lt_size atomInRange)
            simp only [(roots root).trans isRoot, otherRoot] at survivor moved
            have unitedSize := (AtomStore.size_congr unitedRecords).trans walkedSize
            simp only [if_neg same, union]
            apply inductionHypothesis (dense.merge (Ne.symm same) survivor)
            · rw [moved]
              grind
            · rw [unitedSize]
              rcases survivor with rfl | rfl
              · exact rootInRange
              · exact atoms.root_lt_size atomInRange
            · exact unitedSize ▸ restInRange

/-- An insertion takes the next number. One of no atoms is refused and changes no bucket. -/
theorem Dense.insert (dense : index.Dense count) {term : Term α}
    (inRange : ∀ atom ∈ term.atoms, atom.index < atoms.size) :
    (∃ key, (index.insert count term atoms).1 = .ok key ∧
        (index.insert count term atoms).2.1.Dense (count + 1)) ∨
      ∃ fault, (index.insert count term atoms).1 = .error fault ∧
        (index.insert count term atoms).2.1 = index ∧ term.atoms = [] := by
  rw [ComponentIndex.insert, anchor_eq inRange]
  cases anchored : term.atoms.find? atoms.isFree with
  | none =>
      cases equation : term.atoms with
      | nil => exact .inr ⟨_, rfl, rfl, rfl⟩
      | cons first rest =>
          obtain ⟨walked, found, -⟩ :=
            AtomStore.find_ok (inRange first (equation ▸ List.mem_cons_self))
          simp only [found]
          exact .inl ⟨_, rfl, dense.file _⟩
  | some free =>
      have freeInRange := inRange free (List.mem_of_find?_eq_some anchored)
      obtain ⟨walked, found, records, roots⟩ := AtomStore.find_ok freeInRange
      have walkedSize := AtomStore.size_congr records
      obtain ⟨key, linked, after, equation, linkedDense⟩ :=
        (dense.file (atoms.root free)).link ((roots _).trans (atoms.root_root free))
          (walkedSize ▸ atoms.root_lt_size freeInRange) (walkedSize ▸ inRange)
      simp only [found, equation]
      exact .inl ⟨key, rfl, linkedDense⟩

/-- The buckets together hold each number below the count exactly once. -/
theorem Dense.perm (dense : index.Dense count) :
    (index.toList.flatMap Prod.snd).Perm (List.range count) := by
  have bucket {key : AtomId} {ids : List TermId} (listed : (key, ids) ∈ index.toList) :
      ids = index.idsAt key := by
    obtain ⟨bucket, found, rfl⟩ := (index.mem_toList_iff key ids).mp listed
    rw [idsAt, found, Option.getD_some]
  have nodup : (index.toList.flatMap Prod.snd).Nodup := by
    rw [List.nodup_flatMap]
    constructor
    · rintro ⟨key, ids⟩ listed
      rw [bucket listed]
      exact dense.distinct key
    · refine index.distinct_keys.imp_of_mem ?_
      rintro ⟨first, firstIds⟩ ⟨second, secondIds⟩ firstListed secondListed different id
        firstFiled secondFiled
      rw [bucket firstListed] at firstFiled
      rw [bucket secondListed] at secondFiled
      exact different (dense.apart first second id firstFiled secondFiled)
  rw [List.perm_ext_iff_of_nodup nodup List.nodup_range]
  intro id
  rw [List.mem_flatMap, List.mem_range, ← dense.all]
  constructor
  · rintro ⟨⟨key, ids⟩, listed, filed⟩
    exact ⟨key, bucket listed ▸ filed⟩
  · rintro ⟨key, filed⟩
    refine ⟨(key, index.idsAt key), (index.mem_toList_iff _ _).mpr ?_, filed⟩
    cases found : index.get? key with
    | none =>
        rw [idsAt, found] at filed
        cases filed
    | some held => exact ⟨held, rfl, by rw [idsAt, found, Option.getD_some]⟩

end ComponentIndex

end HingeLoss
