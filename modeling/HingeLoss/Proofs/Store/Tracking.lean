import Mathlib.Data.List.Nodup
import Mathlib.Logic.Relation
import HingeLoss.Proofs.Store.Components

/-! Two atoms have one root exactly if terms inserted so far connect them. -/

namespace HingeLoss

namespace ComponentIndex

variable {α : Type} {entries : List (Entry α)} {index : ComponentIndex} {atoms : AtomStore α}

/-- Two atoms are linked if one term binds both. -/
def Linked (entries : List (Entry α)) (atoms : AtomStore α) (first second : AtomId) : Prop :=
  ∃ entry ∈ entries, entry.2.Binds atoms first ∧ entry.2.Binds atoms second

/-- The states that a new index over singletons comes to, with the terms inserted on the way. -/
inductive Reached [Scalar α] : List (Entry α) → ComponentIndex → AtomStore α → Prop where
  | start {atoms : AtomStore α} (apart : atoms.Apart) : Reached [] empty atoms
  | register {entries : List (Entry α)} {index : ComponentIndex} {atoms after : AtomStore α}
      {record : AtomRecord α} {added : AtomId} (reached : Reached entries index atoms)
      (registered : atoms.register record = .ok (added, after)) : Reached entries index after
  | assign {entries : List (Entry α)} {index : ComponentIndex} {atoms after : AtomStore α}
      {atom : AtomId} {value : α} (reached : Reached entries index atoms)
      (assigned : atoms.assign atom value = .ok after) : Reached entries index after
  | find {entries : List (Entry α)} {index : ComponentIndex} {atoms after : AtomStore α}
      {atom root : AtomId} (reached : Reached entries index atoms)
      (found : atoms.find atom = .ok (root, after)) : Reached entries index after
  | insert {entries : List (Entry α)} {index : ComponentIndex} {atoms : AtomStore α} {id : TermId}
      {term : Term α} (reached : Reached entries index atoms)
      (distinct : id ∉ entries.map Prod.fst) (nonempty : term.atoms ≠ [])
      (inRange : ∀ atom ∈ term.atoms, atom.index < atoms.size) :
      Reached (entries ++ [(id, term)]) (index.insert id term atoms).2.1
        (index.insert id term atoms).2.2

/-- The buckets hold the terms by their roots, and the roots tell what the terms connect. -/
structure Tracks (index : ComponentIndex) (entries : List (Entry α)) (atoms : AtomStore α) :
    Prop where
  files : index.Files entries atoms
  distinct : (entries.map Prod.fst).Nodup
  nonempty : ∀ entry ∈ entries, entry.2.atoms ≠ []
  inRange : ∀ entry ∈ entries, ∀ atom ∈ entry.2.atoms, atom.index < atoms.size
  connected : ∀ first second, atoms.root first = atoms.root second ↔
    Relation.EqvGen (Linked entries atoms) first second

theorem tracks_empty (apart : atoms.Apart) : empty.Tracks [] atoms := by
  have alone (atom : AtomId) : atoms.partition.root atom.index = atom.index :=
    Forest.root_of_parent (apart atom)
  refine ⟨files_empty atoms, List.nodup_nil, by simp, by simp, fun first second => ?_⟩
  rw [atoms.root_eq_iff, alone, alone]
  constructor
  · intro same
    rw [AtomId.index_injective same]
    exact .refl second
  · intro joined
    induction joined with
    | rel first second linked => simp [Linked] at linked
    | refl first => rfl
    | symm first second _ same => exact same.symm
    | trans first second third _ _ same later => exact same.trans later

theorem Linked.mono {entries others : List (Entry α)} {atoms after : AtomStore α}
    {first second : AtomId} (linked : Linked entries atoms first second)
    (kept : ∀ entry ∈ entries, entry ∈ others)
    (free : ∀ entry ∈ entries, ∀ atom ∈ entry.2.atoms,
      atoms.isFree atom = true → after.isFree atom = true) : Linked others after first second := by
  obtain ⟨entry, member, firstBound, secondBound⟩ := linked
  exact ⟨entry, kept entry member,
    ⟨firstBound.1, free entry member first firstBound.1 firstBound.2⟩,
    secondBound.1, free entry member second secondBound.1 secondBound.2⟩

/-- Tracking depends on nothing but the roots and on which of the atoms in use are free. -/
theorem Tracks.congr {after : AtomStore α} (tracks : index.Tracks entries atoms)
    (size : atoms.size ≤ after.size)
    (roots : ∀ atom, after.root atom = atoms.root atom)
    (free : ∀ atom, atom.index < atoms.size → after.isFree atom = atoms.isFree atom) :
    index.Tracks entries after where
  files := tracks.files.congr fun entry member => by
    rw [Term.home, entry.2.lead_congr fun atom used => free atom (tracks.inRange entry member atom
      used), Term.home]
    exact Option.map_congr fun atom _ => roots atom
  distinct := tracks.distinct
  nonempty := tracks.nonempty
  inRange entry member atom used := Nat.lt_of_lt_of_le (tracks.inRange entry member atom used) size
  connected first second := by
    have same (first second : AtomId) :
        Linked entries after first second ↔ Linked entries atoms first second :=
      ⟨fun linked => linked.mono (fun _ member => member) fun entry member atom used isFree =>
          (free atom (tracks.inRange entry member atom used)).symm.trans isFree,
        fun linked => linked.mono (fun _ member => member) fun entry member atom used isFree =>
          (free atom (tracks.inRange entry member atom used)).trans isFree⟩
    rw [roots, roots, tracks.connected, funext fun first => funext fun second =>
      propext (same first second)]

/-- If the sets of the free atoms of a new term come together and no others, the roots tell what the
terms connect together with the new one. -/
theorem Tracks.connected_append {after : AtomStore α} (tracks : index.Tracks entries atoms)
    (id : TermId) {term : Term α} (free : ∀ atom, after.isFree atom = atoms.isFree atom)
    (roots : ∀ first second, after.root first = after.root second ↔
      atoms.root first = atoms.root second ∨
        (∃ bound, term.Binds atoms bound ∧ atoms.root first = atoms.root bound) ∧
          ∃ bound, term.Binds atoms bound ∧ atoms.root second = atoms.root bound)
    (first second : AtomId) :
    after.root first = after.root second ↔
      Relation.EqvGen (Linked (entries ++ [(id, term)]) after) first second := by
  constructor
  · intro same
    have older {first second : AtomId} (same : atoms.root first = atoms.root second) :
        Relation.EqvGen (Linked (entries ++ [(id, term)]) after) first second :=
      ((tracks.connected first second).mp same).mono fun _ _ linked =>
        linked.mono (fun entry member => List.mem_append_left _ member)
          fun _ _ atom _ isFree => (free atom).trans isFree
    rcases (roots first second).mp same with before | ⟨⟨left, leftBound, leftSame⟩, right,
      rightBound, rightSame⟩
    · exact older before
    · have linked : Linked (entries ++ [(id, term)]) after left right :=
        ⟨(id, term), List.mem_append_right _ List.mem_cons_self,
          ⟨leftBound.1, (free left).trans leftBound.2⟩,
          rightBound.1, (free right).trans rightBound.2⟩
      exact (older leftSame).trans _ _ _ ((Relation.EqvGen.rel _ _ linked).trans _ _ _
        (older rightSame).symm)
  · intro joined
    induction joined with
    | rel first second linked =>
        obtain ⟨entry, member, firstBound, secondBound⟩ := linked
        rw [Term.Binds, free] at firstBound secondBound
        rcases List.mem_append.mp member with old | new
        · exact (roots first second).mpr (.inl ((tracks.connected first second).mpr
            (.rel _ _ ⟨entry, old, firstBound, secondBound⟩)))
        · obtain rfl := List.mem_singleton.mp new
          exact (roots first second).mpr
            (.inr ⟨⟨first, firstBound, rfl⟩, second, secondBound, rfl⟩)
    | refl first => rfl
    | symm first second _ same => exact same.symm
    | trans first second third _ _ same later => exact same.trans later

/-- The insertion of a term answers with its root and connects its free atoms. -/
theorem Tracks.insert (tracks : index.Tracks entries atoms) {id : TermId} {term : Term α}
    (distinct : id ∉ entries.map Prod.fst) (nonempty : term.atoms ≠ [])
    (inRange : ∀ atom ∈ term.atoms, atom.index < atoms.size) :
    (index.insert id term atoms).2.1.Tracks (entries ++ [(id, term)])
        (index.insert id term atoms).2.2 ∧
      ∃ key, (index.insert id term atoms).1 = .ok key ∧
        term.home (index.insert id term atoms).2.2 = some key := by
  obtain ⟨key, filed, after, equation, files, records, home, roots⟩ :=
    insert_ok tracks.files id nonempty inRange
  rw [equation]
  refine ⟨⟨files, ?_, ?_, ?_,
    tracks.connected_append id (AtomStore.isFree_congr records) roots⟩, key, rfl, home⟩
  · rw [List.map_append]
    exact List.Nodup.append tracks.distinct (List.nodup_singleton id) (by simpa using distinct)
  · intro entry member
    rcases List.mem_append.mp member with old | new
    · exact tracks.nonempty entry old
    · exact List.mem_singleton.mp new ▸ nonempty
  · intro entry member
    rw [AtomStore.size_congr records]
    rcases List.mem_append.mp member with old | new
    · exact tracks.inRange entry old
    · exact List.mem_singleton.mp new ▸ inRange

/-- Whatever is done on the way, the components are tracked. -/
theorem Reached.tracks [Scalar α] (reached : Reached entries index atoms) :
    index.Tracks entries atoms := by
  induction reached with
  | start apart => exact tracks_empty apart
  | register _ registered inductionHypothesis =>
      obtain ⟨size, roots, free⟩ := AtomStore.register_ok registered
      exact inductionHypothesis.congr (by omega) roots free
  | assign _ assigned inductionHypothesis =>
      obtain ⟨size, partition, free⟩ := AtomStore.assign_ok assigned
      refine inductionHypothesis.congr (Nat.le_of_eq size.symm) (fun atom => ?_)
        fun atom _ => free atom
      rw [AtomStore.root, partition, AtomStore.root]
  | find _ found inductionHypothesis =>
      obtain ⟨walked, walk, records, roots⟩ :=
        AtomStore.find_ok (AtomStore.inRange_of_find found)
      rw [found] at walk
      cases walk
      exact inductionHypothesis.congr (Nat.le_of_eq (AtomStore.size_congr records).symm) roots
        fun atom _ => AtomStore.isFree_congr records atom
  | insert _ distinct nonempty inRange inductionHypothesis =>
      exact (inductionHypothesis.insert distinct nonempty inRange).1

theorem Tracks.exists_home (tracks : index.Tracks entries atoms) {entry : Entry α}
    (member : entry ∈ entries) : ∃ key, entry.2.home atoms = some key := by
  obtain ⟨first, rest, equation⟩ := List.exists_cons_of_ne_nil (tracks.nonempty entry member)
  rw [Term.home, Term.lead, equation]
  cases (first :: rest).find? atoms.isFree with
  | none => exact ⟨_, rfl⟩
  | some free => exact ⟨_, rfl⟩

/-- A term is in the bucket of its home and in no other. -/
theorem Tracks.mem_idsAt_iff (tracks : index.Tracks entries atoms) {entry : Entry α}
    (member : entry ∈ entries) (key : AtomId) :
    entry.1 ∈ index.idsAt key ↔ entry.2.home atoms = some key := by
  rw [(tracks.files.bucket key).mem_iff, List.mem_map]
  constructor
  · rintro ⟨other, found, same⟩
    obtain ⟨otherMember, home⟩ := List.mem_filter.mp found
    rw [List.inj_on_of_nodup_map tracks.distinct member otherMember same.symm]
    exact of_decide_eq_true home
  · intro home
    exact ⟨entry, List.mem_filter.mpr ⟨member, decide_eq_true home⟩, rfl⟩

end ComponentIndex

end HingeLoss
