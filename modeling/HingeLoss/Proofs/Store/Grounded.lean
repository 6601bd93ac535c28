import HingeLoss.Proofs.Store.Connectivity
import HingeLoss.Proofs.Store.Renewal

/-! Stores that were grounded next to a partition of singletons. -/

namespace HingeLoss

namespace ComponentIndex

variable {α : Type} {entries : List (Entry α)} {index : ComponentIndex} {atoms : AtomStore α}

/-- Tracking depends on nothing of a term but its atoms. -/
theorem Tracks.map (tracks : index.Tracks entries atoms) (change : Term α → Term α)
    (same : ∀ term, (change term).atoms = term.atoms) :
    index.Tracks (entries.map fun entry => (entry.1, change entry.2)) atoms where
  files := by
    have home (term : Term α) : (change term).home atoms = term.home atoms := by
      rw [Term.home, Term.lead, same, Term.home, Term.lead]
    refine ⟨fun key => ?_, tracks.files.nonempty⟩
    rw [List.filter_map, List.map_map]
    refine (tracks.files.bucket key).trans (.of_eq ?_)
    simp only [Function.comp_def, home]
  distinct := by
    rw [List.map_map]
    exact tracks.distinct
  nonempty := by
    intro entry member
    obtain ⟨origin, originMember, rfl⟩ := List.mem_map.mp member
    rw [same]
    exact tracks.nonempty origin originMember
  inRange := by
    intro entry member
    obtain ⟨origin, originMember, rfl⟩ := List.mem_map.mp member
    rw [same]
    exact tracks.inRange origin originMember
  connected first second := by
    have linked (first second : AtomId) :
        Linked (entries.map fun entry => (entry.1, change entry.2)) atoms first second ↔
          Linked entries atoms first second := by
      simp only [Linked, List.mem_map, exists_exists_and_eq_and, Term.Binds, same]
    rw [tracks.connected, funext fun first => funext fun second => propext (linked first second)]

end ComponentIndex

namespace ResidentStore

variable {α : Type} {store after : ResidentStore α} {atoms joined : AtomStore α}

/-- The terms with their numbers. -/
def entries (store : ResidentStore α) : List (Entry α) :=
  store.terms.toList.zipIdx.map Prod.swap

theorem mem_entries {id : TermId} {term : Term α} :
    (id, term) ∈ store.entries ↔ store.terms[id]? = some term := by
  rw [entries, List.mem_map]
  constructor
  · rintro ⟨⟨held, position⟩, member, same⟩
    cases same
    rw [← Array.getElem?_toList]
    exact List.mem_zipIdx_iff_getElem?.mp member
  · intro found
    refine ⟨(term, id), List.mem_zipIdx_iff_getElem?.mpr ?_, rfl⟩
    rw [Array.getElem?_toList]
    exact found

theorem map_fst_entries (store : ResidentStore α) :
    store.entries.map Prod.fst = List.range store.size := by
  rw [entries, List.map_map]
  change store.terms.toList.zipIdx.map Prod.snd = _
  rw [List.zipIdx_map_snd, List.range_eq_range', size, Array.length_toList]

theorem entries_push (store : ResidentStore α) (term : Term α) (components : ComponentIndex)
    (counts : RuleCounts) (phase : Phase) :
    entries ⟨store.terms.push term, components, counts, phase⟩ =
      store.entries ++ [(store.size, term)] := by
  simp [entries, List.zipIdx_append, size]

/-- The terms with a number from a list, in the order of the store. -/
def termsOf (store : ResidentStore α) (ids : List TermId) : List (Term α) :=
  (store.entries.filter fun entry => entry.1 ∈ ids).map Prod.snd

/-- A term of atoms that are there takes the next number and is filed under its component. -/
theorem add_ok (tracks : store.components.Tracks store.entries atoms)
    (grounding : store.phase = .grounding) {term : Term α} (nonempty : term.atoms ≠ [])
    (inRange : ∀ atom ∈ term.atoms, atom.index < atoms.size) :
    ∃ filed joined, store.add term atoms =
        (.ok store.size,
          ⟨store.terms.push term, filed, store.counts.count term.rule, .grounding⟩, joined) ∧
      filed.Tracks (store.entries ++ [(store.size, term)]) joined := by
  have distinct : store.size ∉ store.entries.map Prod.fst := by
    rw [map_fst_entries, List.mem_range]
    exact Nat.lt_irrefl _
  obtain ⟨tracksAfter, key, answer, -⟩ := tracks.insert distinct nonempty inRange
  unfold add
  rw [grounding, AtomStore.checkAll_ok inRange]
  dsimp only
  generalize store.components.insert store.size term atoms = inserted at tracksAfter answer
  obtain ⟨outcome, filed, joined⟩ := inserted
  cases answer
  exact ⟨filed, joined, rfl, tracksAfter⟩

/-- A term with an atom that is not there changes nothing, and the fault names the atom. -/
theorem add_refused (grounding : store.phase = .grounding) {term : Term α}
    (missing : ¬ ∀ atom ∈ term.atoms, atom.index < atoms.size) :
    ∃ atom ∈ term.atoms, atoms.size ≤ atom.index ∧ store.add term atoms =
      (.error (.atom (.outOfRange atom.index atoms.size)), store, atoms) := by
  unfold add
  rw [grounding]
  dsimp only
  cases checked : atoms.checkAll term.atoms with
  | ok _ => exact absurd (AtomStore.inRange_of_checkAll checked) missing
  | error fault =>
      obtain ⟨atom, member, outside, rfl⟩ := AtomStore.checkAll_error checked
      exact ⟨atom, member, outside, rfl⟩

theorem tracks_add (tracks : store.components.Tracks store.entries atoms) {term : Term α}
    (nonempty : term.atoms ≠ []) :
    (store.add term atoms).2.1.components.Tracks (store.add term atoms).2.1.entries
      (store.add term atoms).2.2 := by
  cases phase : store.phase with
  | ready =>
      rw [add, phase]
      exact tracks
  | closed =>
      rw [add, phase]
      exact tracks
  | grounding =>
      by_cases inRange : ∀ atom ∈ term.atoms, atom.index < atoms.size
      · obtain ⟨filed, joined, added, tracksAfter⟩ := add_ok tracks phase nonempty inRange
        rw [added, entries_push]
        exact tracksAfter
      · obtain ⟨_, -, -, refused⟩ := add_refused phase inRange
        rw [refused]
        exact tracks

/-- The stores that grounding next to a partition of singletons leads to, with their atoms. Atoms
may be registered and take other values in between. -/
inductive Grounded [Scalar α] : ResidentStore α → AtomStore α → Prop
  | start {atoms : AtomStore α} (apart : atoms.Apart) : Grounded .empty atoms
  | register {store : ResidentStore α} {atoms after : AtomStore α} {record : AtomRecord α}
      {added : AtomId} (grounded : Grounded store atoms)
      (registered : atoms.register record = .ok (added, after)) : Grounded store after
  | revalue {store : ResidentStore α} {atoms after : AtomStore α} (grounded : Grounded store atoms)
      (partition : after.partition = atoms.partition)
      (flags : ∀ atom, after.isFree atom = atoms.isFree atom) : Grounded store after
  | find {store : ResidentStore α} {atoms after : AtomStore α} {atom root : AtomId}
      (grounded : Grounded store atoms) (found : atoms.find atom = .ok (root, after)) :
      Grounded store after
  | add {store : ResidentStore α} {atoms : AtomStore α} {term : Term α}
      (grounded : Grounded store atoms) (nonempty : term.atoms ≠ []) :
      Grounded (store.add term atoms).2.1 (store.add term atoms).2.2
  | setWeight {store after : ResidentStore α} {atoms : AtomStore α} {rule : RuleId}
      {weight : Weight α} {count : Nat} (grounded : Grounded store atoms)
      (reweighed : store.setWeight rule weight = .ok (count, after)) : Grounded after atoms
  | finish {store after : ResidentStore α} {atoms : AtomStore α} (grounded : Grounded store atoms)
      (finished : store.finish = .ok after) : Grounded after atoms
  | clear {store after : ResidentStore α} {atoms : AtomStore α} (grounded : Grounded store atoms)
      (cleared : store.clear = .ok after) : Grounded after atoms.resetPartition

/-- Whatever is done on the way, the components track the terms. -/
theorem Grounded.tracks [Scalar α] (grounded : Grounded store atoms) :
    store.components.Tracks store.entries atoms := by
  induction grounded with
  | start apart => exact ComponentIndex.tracks_empty apart
  | register _ registered inductionHypothesis =>
      obtain ⟨size, roots, free⟩ := AtomStore.register_ok registered
      exact inductionHypothesis.congr (by omega) roots free
  | @revalue store atoms after _ partition flags inductionHypothesis =>
      have sizes : atoms.size = after.size := by
        rw [AtomStore.size, ← atoms.sizesAgree, ← partition, after.sizesAgree, AtomStore.size]
      refine inductionHypothesis.congr (Nat.le_of_eq sizes) (fun atom => ?_)
        fun atom _ => flags atom
      rw [AtomStore.root, partition, AtomStore.root]
  | find _ found inductionHypothesis =>
      obtain ⟨walked, walk, records, roots⟩ :=
        AtomStore.find_ok (AtomStore.inRange_of_find found)
      rw [found] at walk
      cases walk
      exact inductionHypothesis.congr (Nat.le_of_eq (AtomStore.size_congr records).symm) roots
        fun atom _ => AtomStore.isFree_congr records atom
  | add _ nonempty inductionHypothesis => exact tracks_add inductionHypothesis nonempty
  | @setWeight store after atoms rule weight count _ reweighed inductionHypothesis =>
      unfold ResidentStore.setWeight at reweighed
      split at reweighed
      · cases reweighed
      · simp only [Except.map] at reweighed
        split at reweighed
        · cases reweighed
        · cases reweighed
          have mapped := inductionHypothesis.map (Term.reweigh rule weight) fun term => by
            unfold Term.reweigh
            split <;> rfl
          have sameEntries : entries { store with
                terms := store.terms.map (Term.reweigh rule weight) } =
              store.entries.map fun entry => (entry.1, Term.reweigh rule weight entry.2) := by
            simp [entries, List.zipIdx_map, Function.comp_def]
          rw [sameEntries]
          exact mapped
  | finish _ finished inductionHypothesis =>
      unfold ResidentStore.finish at finished
      split at finished
      · cases finished
      · cases finished
        exact inductionHypothesis
  | clear _ cleared _ =>
      unfold ResidentStore.clear at cleared
      split at cleared
      · cases cleared
      · cases cleared
        exact ComponentIndex.tracks_empty (AtomStore.apart_of_singletons rfl)

theorem map_snd_entries (store : ResidentStore α) :
    store.entries.map Prod.snd = store.terms.toList := by
  rw [entries, List.map_map]
  exact List.zipIdx_map_fst 0 store.terms.toList

/-- The terms of a component are those whose home is its key. -/
theorem termsOf_component (tracks : store.components.Tracks store.entries atoms) {key : AtomId}
    {ids : List TermId} (component : (key, ids) ∈ store.components.toList) :
    store.termsOf ids = store.terms.toList.filter fun term => term.home atoms = some key := by
  obtain ⟨rfl, -⟩ := (tracks.mem_toList_iff key ids).mp component
  rw [← map_snd_entries, List.filter_map, termsOf]
  refine congrArg (List.map Prod.snd) (List.filter_congr fun entry member => ?_)
  exact decide_eq_decide.mpr (tracks.mem_idsAt_iff member key)

/-- Two terms of which one is in a component and the other is not share no free atom. -/
theorem components_apart (tracks : store.components.Tracks store.entries atoms) {key : AtomId}
    {first second : Term α} (firstHeld : first ∈ store.terms.toList)
    (secondHeld : second ∈ store.terms.toList) (home : first.home atoms = some key)
    (elsewhere : second.home atoms ≠ some key) {atom : AtomId} (bound : first.Binds atoms atom) :
    ¬ second.Binds atoms atom := by
  intro otherBound
  rw [← map_snd_entries] at firstHeld secondHeld
  obtain ⟨entry, member, rfl⟩ := List.mem_map.mp firstHeld
  obtain ⟨other, otherMember, rfl⟩ := List.mem_map.mp secondHeld
  rw [tracks.home_eq member bound] at home
  exact elsewhere ((tracks.home_eq otherMember otherBound).trans home)

end ResidentStore

namespace GroundingSession

variable {α : Type} [Scalar α] {session : GroundingSession α}

theorem grounded_add (grounded : session.store.Grounded session.atoms) {term : Term α}
    (nonempty : term.atoms ≠ []) :
    (session.add term).2.store.Grounded (session.add term).2.atoms :=
  grounded.add nonempty

theorem grounded_addAll (grounded : session.store.Grounded session.atoms) {terms : List (Term α)}
    (nonempty : ∀ term ∈ terms, term.atoms ≠ []) :
    (session.addAll terms).2.store.Grounded (session.addAll terms).2.atoms := by
  induction terms generalizing session with
  | nil => exact grounded
  | cons term later inductionHypothesis =>
      rw [List.forall_mem_cons] at nonempty
      have added := grounded_add grounded nonempty.1
      rw [addAll]
      split
      · rename_i refused
        rw [refused] at added
        exact added
      · rename_i accepted
        rw [accepted] at added
        exact inductionHypothesis added nonempty.2

theorem grounded_finish (grounded : session.store.Grounded session.atoms) :
    session.finish.2.store.Grounded session.finish.2.atoms := by
  rw [finish]
  split
  · exact grounded
  · rename_i finished
    exact grounded.finish finished

end GroundingSession

end HingeLoss
