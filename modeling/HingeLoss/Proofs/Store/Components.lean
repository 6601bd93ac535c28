import HingeLoss.Store.Components
import HingeLoss.Proofs.Atom.Store

/-! The bucket of a root atom holds the numbers of the terms whose leading atom is under it. -/

namespace HingeLoss

/-- A term with its number. -/
abbrev Entry (α : Type) := TermId × Term α

namespace Term

variable {α : Type}

/-- The atom that a term is filed by: its first free atom, or its first one if all are observed. -/
def lead (term : Term α) (atoms : AtomStore α) : Option AtomId :=
  (term.atoms.find? atoms.isFree).or term.atoms.head?

/-- The root that a term is filed under. -/
def home (term : Term α) (atoms : AtomStore α) : Option AtomId :=
  (term.lead atoms).map atoms.root

/-- Whether an atom is one of the free atoms of a term. -/
def Binds (term : Term α) (atoms : AtomStore α) (atom : AtomId) : Prop :=
  atom ∈ term.atoms ∧ atoms.isFree atom = true

theorem lead_congr (term : Term α) {atoms after : AtomStore α}
    (same : ∀ atom ∈ term.atoms, after.isFree atom = atoms.isFree atom) :
    term.lead after = term.lead atoms := by
  have found : term.atoms.find? after.isFree = term.atoms.find? atoms.isFree := by
    generalize term.atoms = list at same
    induction list with
    | nil => rfl
    | cons atom rest inductionHypothesis =>
        rw [List.find?_cons, List.find?_cons, same atom List.mem_cons_self,
          inductionHypothesis fun other member => same other (List.mem_cons_of_mem _ member)]
  rw [lead, found, lead]

theorem home_congr (term : Term α) {atoms after : AtomStore α}
    (records : after.records = atoms.records)
    (roots : ∀ atom, after.root atom = atoms.root atom) : term.home after = term.home atoms := by
  rw [home, term.lead_congr fun atom _ => AtomStore.isFree_congr records atom, home]
  exact Option.map_congr fun atom _ => roots atom

/-- When two sets become one, so do the homes of their terms. -/
theorem home_moved (term : Term α) {atoms after : AtomStore α} {first second merged : AtomId}
    (free : ∀ atom, after.isFree atom = atoms.isFree atom)
    (moved : ∀ atom, after.root atom =
      if atoms.root atom = first ∨ atoms.root atom = second then merged else atoms.root atom) :
    term.home after =
      if term.home atoms = some first ∨ term.home atoms = some second then some merged
      else term.home atoms := by
  rw [home, term.lead_congr fun atom _ => free atom, home]
  cases term.lead atoms with
  | none => simp
  | some atom =>
      simp only [Option.map_some, moved, Option.some.injEq]
      split <;> rfl

end Term

namespace ComponentIndex

variable {α : Type}

/-- The terms of a bucket; a bucket that is not there has none. -/
def idsAt (index : ComponentIndex) (key : AtomId) : List TermId :=
  ((index.get? key).getD #[]).toList

/-- The list of an index is made of its buckets. -/
theorem mem_toList_iff (index : ComponentIndex) (key : AtomId) (ids : List TermId) :
    (key, ids) ∈ index.toList ↔ ∃ bucket, index.get? key = some bucket ∧ bucket.toList = ids := by
  simp only [toList, List.mem_map, Prod.mk.injEq, Prod.exists, get?,
    ← Std.TreeMap.mem_toList_iff_getElem?_eq_some]
  grind

/-- Each bucket stands under a key of its own. -/
theorem distinct_keys (index : ComponentIndex) :
    index.toList.Pairwise fun first second => first.1 ≠ second.1 := by
  unfold toList
  refine List.Pairwise.map _ ?_ index.buckets.distinct_keys_toList
  rintro ⟨first, _⟩ ⟨second, _⟩ different same
  simp only [Std.LawfulEqCmp.compare_eq_iff_eq] at different
  exact different same

/-- The bucket of every root holds the numbers of the terms under it, and no bucket is empty. -/
structure Files (index : ComponentIndex) (entries : List (Entry α)) (atoms : AtomStore α) :
    Prop where
  bucket : ∀ key, (index.idsAt key).Perm
    ((entries.filter fun entry => entry.2.home atoms = some key).map Prod.fst)
  nonempty : ∀ key, index.get? key ≠ some #[]

theorem files_empty (atoms : AtomStore α) : empty.Files [] atoms where
  bucket := by simp [empty, idsAt, get?]
  nonempty := by simp [empty, get?]

/-- Filing depends on nothing but the homes of the terms. -/
theorem Files.congr {index : ComponentIndex} {entries : List (Entry α)} {atoms after : AtomStore α}
    (files : index.Files entries atoms)
    (same : ∀ entry ∈ entries, entry.2.home after = entry.2.home atoms) :
    index.Files entries after where
  bucket key := by
    have kept : (entries.filter fun entry => entry.2.home after = some key) =
        entries.filter fun entry => entry.2.home atoms = some key :=
      List.filter_congr fun entry member => by rw [same entry member]
    rw [kept]
    exact files.bucket key
  nonempty := files.nonempty

theorem get?_file (index : ComponentIndex) (root key : AtomId) (id : TermId) :
    (index.file root id).get? key =
      if root = key then some (((index.get? key).getD #[]).push id) else index.get? key := by
  simp only [file, get?, Std.TreeMap.getElem?_alter, Std.LawfulEqCmp.compare_eq_iff_eq]
  split
  · rename_i same
    rw [same]
  · rfl

/-- A new term goes to the bucket of its home. -/
theorem Files.file {index : ComponentIndex} {entries : List (Entry α)} {atoms : AtomStore α}
    (files : index.Files entries atoms) (id : TermId) {term : Term α} {root : AtomId}
    (home : term.home atoms = some root) :
    (index.file root id).Files (entries ++ [(id, term)]) atoms where
  bucket key := by
    rw [idsAt, get?_file, List.filter_append, List.map_append]
    by_cases same : root = key
    · subst same
      have last : ([(id, term)].filter fun entry => entry.2.home atoms = some root) =
          [(id, term)] := by
        simp [home]
      rw [if_pos rfl, last, Option.getD_some, Array.toList_push]
      exact (files.bucket root).append_right [id]
    · have notHere : ([(id, term)].filter fun entry => entry.2.home atoms = some key) = [] := by
        simp [home, same]
      rw [if_neg same, notHere, List.map_nil, List.append_nil]
      exact files.bucket key
  nonempty key := by
    rw [get?_file]
    split
    · simp
    · exact files.nonempty key

theorem getD_buckets (index : ComponentIndex) (key : AtomId) :
    (index.buckets.getD key #[]).toList = index.idsAt key := by
  rw [Std.TreeMap.getD_eq_getD_getElem?]
  rfl

/-- The bucket of the surviving root holds both buckets, the other one is gone, and all others are
as they were. -/
theorem get?_merge (index : ComponentIndex) {first second merged : AtomId}
    (survivor : merged = first ∨ merged = second) :
    ∃ joined : Array TermId, joined.toList.Perm (index.idsAt first ++ index.idsAt second) ∧
      ∀ key, (index.merge first second merged).get? key =
        if key = merged then if joined.isEmpty then none else some joined
        else if key = first ∨ key = second then none else index.get? key := by
  have joins (left right : Array TermId) :
      (if right.size ≤ left.size then left ++ right else right ++ left).toList.Perm
        (left.toList ++ right.toList) := by
    split
    · rw [Array.toList_append]
    · rw [Array.toList_append]
      exact List.perm_append_comm
  rw [← index.getD_buckets first, ← index.getD_buckets second]
  refine ⟨_, joins _ _, fun key => ?_⟩
  simp only [merge]
  generalize (if (index.buckets.getD second #[]).size ≤ (index.buckets.getD first #[]).size then
    index.buckets.getD first #[] ++ index.buckets.getD second #[]
    else index.buckets.getD second #[] ++ index.buckets.getD first #[]) = joined
  have erased : ((index.buckets.erase first).erase second)[key]? =
      if key = first ∨ key = second then none else index.buckets[key]? := by
    simp only [Std.TreeMap.getElem?_erase, Std.LawfulEqCmp.compare_eq_iff_eq]
    grind
  by_cases empty : joined.isEmpty
  · simp only [if_pos empty, get?, erased]
    grind
  · simp only [if_neg empty, get?, Std.TreeMap.getElem?_insert, erased,
      Std.LawfulEqCmp.compare_eq_iff_eq]
    grind

theorem filter_or_perm {β : Type} (list : List β) (first second : β → Prop)
    [DecidablePred first] [DecidablePred second]
    (apart : ∀ element, ¬ (first element ∧ second element)) :
    (list.filter first ++ list.filter second).Perm
      (list.filter fun element => first element ∨ second element) := by
  have split := List.filter_append_perm first
    (list.filter fun element => first element ∨ second element)
  rw [List.filter_filter, List.filter_filter] at split
  refine .trans (.of_eq ?_) split
  congr 1
  · apply List.filter_congr
    intro element _
    by_cases first element <;> simp [*]
  · apply List.filter_congr
    intro element _
    have := apart element
    by_cases first element <;> by_cases second element <;> simp_all

/-- The terms under a root after two sets have become one. -/
theorem filter_home_moved {entries : List (Entry α)} {atoms after : AtomStore α}
    {first second merged : AtomId} (survivor : merged = first ∨ merged = second)
    (moved : ∀ entry ∈ entries, entry.2.home after =
      if entry.2.home atoms = some first ∨ entry.2.home atoms = some second then some merged
      else entry.2.home atoms) (key : AtomId) :
    (entries.filter fun entry => entry.2.home after = some key) =
      if key = merged then entries.filter fun entry =>
        entry.2.home atoms = some first ∨ entry.2.home atoms = some second
      else if key = first ∨ key = second then []
      else entries.filter fun entry => entry.2.home atoms = some key := by
  split
  · apply List.filter_congr
    intro entry member
    rw [moved entry member]
    grind
  · split
    · rw [List.filter_eq_nil_iff]
      intro entry member
      rw [moved entry member]
      grind
    · apply List.filter_congr
      intro entry member
      rw [moved entry member]
      grind

/-- Buckets merge as the sets of their roots do. -/
theorem Files.merge {index : ComponentIndex} {entries : List (Entry α)} {atoms after : AtomStore α}
    (files : index.Files entries atoms) {first second merged : AtomId} (different : first ≠ second)
    (survivor : merged = first ∨ merged = second)
    (moved : ∀ entry ∈ entries, entry.2.home after =
      if entry.2.home atoms = some first ∨ entry.2.home atoms = some second then some merged
      else entry.2.home atoms) :
    (index.merge first second merged).Files entries after := by
  obtain ⟨joined, contents, lookups⟩ := index.get?_merge survivor
  constructor
  · intro key
    rw [idsAt, lookups, filter_home_moved survivor moved]
    by_cases here : key = merged
    · have held : ((if joined.isEmpty then none else some joined : Option (Array TermId)).getD
          #[]).toList = joined.toList := by
        split
        · rename_i nothing
          rw [Array.isEmpty_iff.mp nothing]
          rfl
        · rfl
      rw [if_pos here, if_pos here, held]
      apply contents.trans
      apply ((files.bucket first).append (files.bucket second)).trans
      rw [← List.map_append]
      apply List.Perm.map
      exact filter_or_perm entries _ _ fun entry both => different (by grind)
    · rw [if_neg here, if_neg here]
      split
      · exact .refl _
      · exact files.bucket key
  · intro key
    rw [lookups]
    split
    · split
      · simp
      · rename_i filled
        simpa using filled
    · split
      · simp
      · exact files.nonempty key

/-- A set of atoms comes under one root, and all other atoms keep theirs. -/
structure Gathers (atoms after : AtomStore α) (joined : AtomId → Prop) (key : AtomId) : Prop where
  keyJoined : joined key
  inside : ∀ atom, joined atom → after.root atom = key
  outside : ∀ atom, ¬ joined atom → after.root atom = atoms.root atom

/-- A first step that keeps the roots of all other atoms may come before. -/
theorem Gathers.after_step {atoms middle after : AtomStore α} {joined wanted : AtomId → Prop}
    {key : AtomId} (gathers : Gathers middle after joined key)
    (same : ∀ atom, joined atom ↔ wanted atom)
    (kept : ∀ atom, ¬ wanted atom → middle.root atom = atoms.root atom) :
    Gathers atoms after wanted key where
  keyJoined := (same key).mp gathers.keyJoined
  inside atom joins := gathers.inside atom ((same atom).mpr joins)
  outside atom apart :=
    (gathers.outside atom fun joins => apart ((same atom).mp joins)).trans (kept atom apart)

/-- If whole sets are gathered, two atoms are in one set afterwards when they were before or when
both are gathered. -/
theorem Gathers.root_eq_iff {atoms after : AtomStore α} {joined : AtomId → Prop} {key : AtomId}
    (gathers : Gathers atoms after joined key)
    (whole : ∀ inner outer, joined inner → atoms.root outer = atoms.root inner → joined outer)
    (first second : AtomId) :
    after.root first = after.root second ↔
      atoms.root first = atoms.root second ∨ joined first ∧ joined second := by
  -- An atom outside the set keeps its root, which is not the key of the set.
  have apart {inner outer : AtomId} (joins : joined inner) (aside : ¬ joined outer) :
      after.root inner ≠ after.root outer ∧ atoms.root inner ≠ atoms.root outer := by
    refine ⟨fun same => aside ?_, fun same => aside (whole inner outer joins same.symm)⟩
    rw [gathers.inside inner joins, gathers.outside outer aside] at same
    exact whole key outer gathers.keyJoined (by rw [same, atoms.root_root])
  by_cases firstJoins : joined first
  · by_cases secondJoins : joined second
    · rw [gathers.inside first firstJoins, gathers.inside second secondJoins]
      exact ⟨fun _ => .inr ⟨firstJoins, secondJoins⟩, fun _ => rfl⟩
    · simp [apart firstJoins secondJoins, secondJoins]
  · by_cases secondJoins : joined second
    · simp [(apart secondJoins firstJoins).1.symm, (apart secondJoins firstJoins).2.symm,
        firstJoins]
    · rw [gathers.outside first firstJoins, gathers.outside second secondJoins]
      exact ⟨.inl, fun joined => joined.resolve_right fun both => firstJoins both.1⟩

/-- The sets of two roots become one, and their buckets do. -/
theorem union_merge_ok {index : ComponentIndex} {entries : List (Entry α)} {atoms : AtomStore α}
    {first second : AtomId} (files : index.Files entries atoms)
    (firstRoot : atoms.root first = first) (secondRoot : atoms.root second = second)
    (firstInRange : first.index < atoms.size) (secondInRange : second.index < atoms.size)
    (different : first ≠ second) :
    ∃ merged after, atoms.union first second = .ok (merged, after) ∧
      (index.merge first second merged).Files entries after ∧ after.records = atoms.records ∧
      after.root merged = merged ∧ merged.index < after.size ∧
      (merged = first ∨ merged = second) ∧ ∀ atom, after.root atom =
        if atoms.root atom = first ∨ atoms.root atom = second then merged else atoms.root atom := by
  obtain ⟨merged, after, united, records, survivor, moved⟩ :=
    AtomStore.union_ok first second firstInRange secondInRange
  simp only [firstRoot, secondRoot] at survivor moved
  have merges := files.merge different survivor fun entry _ =>
    entry.2.home_moved (AtomStore.isFree_congr records) moved
  refine ⟨merged, after, united, merges, records, ?_, ?_, survivor, moved⟩
  · rw [moved]
    rcases survivor with rfl | rfl
    · rw [if_pos (.inl firstRoot)]
    · rw [if_pos (.inr secondRoot)]
  · rw [AtomStore.size_congr records]
    rcases survivor with rfl | rfl
    · exact firstInRange
    · exact secondInRange

/-- Whether an atom is under a root, or in the set of a free atom of a list. -/
def Meets (atoms : AtomStore α) (root : AtomId) (list : List AtomId) (atom : AtomId) : Prop :=
  atoms.root atom = root ∨
    ∃ other ∈ list, atoms.isFree other = true ∧ atoms.root atom = atoms.root other

theorem meets_cons {atoms : AtomStore α} {atom root : AtomId} {list : List AtomId}
    (free : atoms.isFree atom = true) (other : AtomId) :
    Meets atoms root (atom :: list) other ↔
      atoms.root other = root ∨ atoms.root other = atoms.root atom ∨
        ∃ later ∈ list, atoms.isFree later = true ∧ atoms.root other = atoms.root later := by
  simp [Meets, free]

/-- Linking gathers the atoms that meet the list, and the buckets follow. -/
theorem link_ok {index : ComponentIndex} {entries : List (Entry α)} {atoms : AtomStore α}
    {root : AtomId} {list : List AtomId} (files : index.Files entries atoms)
    (isRoot : atoms.root root = root) (rootInRange : root.index < atoms.size)
    (inRange : ∀ atom ∈ list, atom.index < atoms.size) :
    ∃ key linked after, index.link atoms root list = (.ok key, linked, after) ∧
      linked.Files entries after ∧ after.records = atoms.records ∧
      Gathers atoms after (Meets atoms root list) key := by
  induction list generalizing index atoms root with
  | nil =>
      refine ⟨root, index, atoms, rfl, files, rfl, .inl isRoot, ?_, fun _ _ => rfl⟩
      rintro atom (under | ⟨other, member, -⟩)
      · exact under
      · cases member
  | cons atom rest inductionHypothesis =>
      have atomInRange := inRange atom List.mem_cons_self
      have restInRange : ∀ other ∈ rest, other.index < atoms.size :=
        fun other member => inRange other (List.mem_cons_of_mem _ member)
      rw [link, atoms.isFixed_eq atomInRange]
      cases free : atoms.isFree atom with
      | false =>
          have same (other : AtomId) :
              Meets atoms root rest other ↔ Meets atoms root (atom :: rest) other := by
            simp [Meets, free]
          obtain ⟨key, linked, after, equation, finalFiles, records, gathers⟩ :=
            inductionHypothesis files isRoot rootInRange restInRange
          exact ⟨key, linked, after, equation, finalFiles, records,
            gathers.after_step same fun _ _ => rfl⟩
      | true =>
          obtain ⟨walked, found, records, roots⟩ := AtomStore.find_ok atomInRange
          have walkedSize := AtomStore.size_congr records
          have walkedFree := AtomStore.isFree_congr records
          have walkedFiles : index.Files entries walked :=
            files.congr fun entry _ => entry.2.home_congr records roots
          simp only [Bool.not_true, found]
          by_cases same : atoms.root atom = root
          · obtain ⟨key, linked, after, equation, finalFiles, finalRecords, gathers⟩ :=
              inductionHypothesis walkedFiles ((roots root).trans isRoot)
                (walkedSize ▸ rootInRange) (walkedSize ▸ restInRange)
            rw [if_pos same]
            refine ⟨key, linked, after, equation, finalFiles, finalRecords.trans records,
              gathers.after_step ?_ fun other _ => roots other⟩
            intro other
            rw [meets_cons free, same, Meets]
            simp only [roots, walkedFree, or_self_left]
          · obtain ⟨merged, united, union, unitedFiles, unitedRecords, mergedRoot, mergedInRange,
              survivor, moved⟩ := union_merge_ok walkedFiles ((roots root).trans isRoot)
                ((roots _).trans (atoms.root_root atom)) (walkedSize ▸ rootInRange)
                (walkedSize ▸ atoms.root_lt_size atomInRange) (Ne.symm same)
            have unitedSize := (AtomStore.size_congr unitedRecords).trans walkedSize
            obtain ⟨key, linked, after, equation, finalFiles, finalRecords, gathers⟩ :=
              inductionHypothesis unitedFiles mergedRoot mergedInRange (unitedSize ▸ restInRange)
            simp only [roots] at moved
            rw [if_neg same, union]
            refine ⟨key, linked, after, equation, finalFiles,
              finalRecords.trans (unitedRecords.trans records), gathers.after_step ?_ ?_⟩
            · intro other
              rw [meets_cons free, Meets]
              simp only [AtomStore.isFree_congr unitedRecords, walkedFree, moved]
              grind
            · intro other apart
              rw [meets_cons free] at apart
              rw [moved, if_neg fun near => apart (near.imp_right .inl)]

theorem anchor_eq {atoms : AtomStore α} {list : List AtomId}
    (inRange : ∀ atom ∈ list, atom.index < atoms.size) :
    anchor atoms list = .ok (list.find? atoms.isFree) := by
  induction list with
  | nil => rfl
  | cons atom rest inductionHypothesis =>
      rw [anchor, atoms.isFixed_eq (inRange atom List.mem_cons_self), List.find?_cons]
      cases atoms.isFree atom with
      | true => rfl
      | false => exact inductionHypothesis fun other member =>
          inRange other (List.mem_cons_of_mem _ member)

/-- Atoms that are there can be linked, whatever the partition looks like. -/
theorem link_answers {index : ComponentIndex} {atoms : AtomStore α} {root : AtomId}
    {list : List AtomId} (rootInRange : root.index < atoms.size)
    (inRange : ∀ atom ∈ list, atom.index < atoms.size) :
    ∃ key, (index.link atoms root list).1 = .ok key := by
  induction list generalizing index atoms root with
  | nil => exact ⟨root, rfl⟩
  | cons atom rest inductionHypothesis =>
      rw [List.forall_mem_cons] at inRange
      obtain ⟨atomInRange, restInRange⟩ := inRange
      rw [link, atoms.isFixed_eq atomInRange]
      cases atoms.isFree atom with
      | false => exact inductionHypothesis rootInRange restInRange
      | true =>
          obtain ⟨other, walked, found, walkedRecords, otherInRange⟩ :=
            AtomStore.find_inRange atomInRange
          have walkedSize := AtomStore.size_congr walkedRecords
          simp only [Bool.not_true, found]
          split
          · exact inductionHypothesis (walkedSize ▸ rootInRange) (walkedSize ▸ restInRange)
          · obtain ⟨merged, united, union, unitedRecords, mergedInRange⟩ :=
              AtomStore.union_inRange (walkedSize ▸ rootInRange) (walkedSize ▸ otherInRange)
            have unitedSize := AtomStore.size_congr unitedRecords
            simp only [union]
            exact inductionHypothesis (unitedSize ▸ mergedInRange)
              (unitedSize.trans walkedSize ▸ restInRange)

/-- Every term of atoms that are there can be filed, whatever the partition looks like. -/
theorem insert_answers (index : ComponentIndex) (id : TermId) {term : Term α}
    {atoms : AtomStore α} (nonempty : term.atoms ≠ [])
    (inRange : ∀ atom ∈ term.atoms, atom.index < atoms.size) :
    ∃ key, (index.insert id term atoms).1 = .ok key := by
  rw [insert, anchor_eq inRange]
  cases anchored : term.atoms.find? atoms.isFree with
  | none =>
      obtain ⟨first, rest, equation⟩ := List.exists_cons_of_ne_nil nonempty
      obtain ⟨root, walked, found, -⟩ :=
        AtomStore.find_inRange (inRange first (equation ▸ List.mem_cons_self))
      simp only [equation, found]
      exact ⟨root, rfl⟩
  | some free =>
      obtain ⟨root, walked, found, records, rootInRange⟩ :=
        AtomStore.find_inRange (inRange free (List.mem_of_find?_eq_some anchored))
      have walkedSize := AtomStore.size_congr records
      simp only [found]
      exact link_answers (walkedSize ▸ rootInRange) (walkedSize ▸ inRange)

/-- A new term of atoms that are there is filed under its home. Besides the atoms that were in one
set before, exactly the sets of its free atoms come together. -/
theorem insert_ok {index : ComponentIndex} {entries : List (Entry α)} {atoms : AtomStore α}
    (files : index.Files entries atoms) (id : TermId) {term : Term α}
    (nonempty : term.atoms ≠ []) (inRange : ∀ atom ∈ term.atoms, atom.index < atoms.size) :
    ∃ key filed after, index.insert id term atoms = (.ok key, filed, after) ∧
      filed.Files (entries ++ [(id, term)]) after ∧ after.records = atoms.records ∧
      term.home after = some key ∧ ∀ first second,
        after.root first = after.root second ↔ atoms.root first = atoms.root second ∨
          (∃ bound, term.Binds atoms bound ∧ atoms.root first = atoms.root bound) ∧
            ∃ bound, term.Binds atoms bound ∧ atoms.root second = atoms.root bound := by
  rw [insert, anchor_eq inRange]
  cases anchored : term.atoms.find? atoms.isFree with
  | none =>
      have noneBound (atom : AtomId) : ¬ term.Binds atoms atom := fun bound =>
        List.find?_eq_none.mp anchored atom bound.1 bound.2
      obtain ⟨first, rest, equation⟩ := List.exists_cons_of_ne_nil nonempty
      obtain ⟨walked, found, records, roots⟩ :=
        AtomStore.find_ok (inRange first (equation ▸ List.mem_cons_self))
      have home : term.home atoms = some (atoms.root first) := by
        rw [Term.home, Term.lead, anchored, equation]
        rfl
      simp only [equation, found]
      refine ⟨_, _, walked, rfl, (files.file id home).congr fun entry _ =>
        entry.2.home_congr records roots, records,
        (term.home_congr records roots).trans home, ?_⟩
      simp [roots, noneBound]
  | some free =>
      have isFree : atoms.isFree free = true := List.find?_some anchored
      have member : free ∈ term.atoms := List.mem_of_find?_eq_some anchored
      obtain ⟨walked, found, records, roots⟩ := AtomStore.find_ok (inRange free member)
      have walkedSize := AtomStore.size_congr records
      have home : term.home atoms = some (atoms.root free) := by
        rw [Term.home, Term.lead, anchored]
        rfl
      obtain ⟨key, linked, after, equation, finalFiles, finalRecords, linking⟩ :=
        link_ok ((files.file id home).congr fun entry _ => entry.2.home_congr records roots)
          ((roots _).trans (atoms.root_root free))
          (walkedSize ▸ atoms.root_lt_size (inRange free member)) (walkedSize ▸ inRange)
      have gathers : Gathers atoms after (fun atom =>
          ∃ bound, term.Binds atoms bound ∧ atoms.root atom = atoms.root bound) key := by
        refine linking.after_step (fun atom => ?_) fun atom _ => roots atom
        simp only [Meets, roots, AtomStore.isFree_congr records, Term.Binds]
        constructor
        · rintro (under | ⟨other, otherMember, otherFree, same⟩)
          · exact ⟨free, ⟨member, isFree⟩, under⟩
          · exact ⟨other, ⟨otherMember, otherFree⟩, same⟩
        · rintro ⟨bound, ⟨boundMember, boundFree⟩, same⟩
          exact .inr ⟨bound, boundMember, boundFree, same⟩
      have lead : term.lead after = some free := by
        rw [term.lead_congr fun atom _ =>
          (AtomStore.isFree_congr finalRecords atom).trans (AtomStore.isFree_congr records atom),
          Term.lead, anchored]
        rfl
      have joinedHome : term.home after = some key := by
        rw [Term.home, lead, Option.map_some, gathers.inside free ⟨free, ⟨member, isFree⟩, rfl⟩]
      simp only [found]
      refine ⟨key, linked, after, equation, finalFiles, finalRecords.trans records, joinedHome,
        gathers.root_eq_iff ?_⟩
      rintro inner outer ⟨bound, binds, same⟩ together
      exact ⟨bound, binds, together.trans same⟩

end ComponentIndex

end HingeLoss
