import HingeLoss.Proofs.Store.Tracking

/-! The canonical view of an index depends on nothing but which terms share a bucket. -/

namespace HingeLoss

namespace ComponentIndex

variable {α : Type} {entries : List (Entry α)} {index : ComponentIndex} {atoms : AtomStore α}

/-- Classes of terms in canonical form: each sorted, and then sorted among themselves. -/
def sortClasses (classes : List (List TermId)) : List (List TermId) :=
  (classes.map fun ids => ids.mergeSort).mergeSort fun left right => !right.lex left

theorem canonical_eq_sortClasses (index : ComponentIndex) :
    index.canonical = sortClasses (index.toList.map Prod.snd) := by
  rw [canonical, sortClasses, List.map_map]
  rfl

theorem mergeSort_congr {first second : List Nat} (perm : first.Perm second) :
    first.mergeSort = second.mergeSort := by
  have sorted (list : List Nat) : list.mergeSort.Pairwise (· ≤ ·) :=
    (List.pairwise_mergeSort (by grind) (by grind) list).imp (by simp)
  exact List.Perm.eq_of_pairwise (fun _ _ _ _ => Nat.le_antisymm) (sorted first) (sorted second)
    ((List.mergeSort_perm first _).trans (perm.trans (List.mergeSort_perm second _).symm))

/-- Classes have one canonical form, however they and their numbers are ordered. -/
theorem sortClasses_congr {first second : List (List TermId)}
    (perm : (first.map fun ids => ids.mergeSort).Perm (second.map fun ids => ids.mergeSort)) :
    sortClasses first = sortClasses second := by
  -- The order of core, which the sort was written for; Mathlib brings another instance.
  let below : List TermId → List TermId → Prop := @LE.le _ List.instLE
  have order (left right : List TermId) : (!right.lex left) = true ↔ below left right := by
    rw [Bool.not_eq_true', List.lex_eq_false_iff_ge]
  have sorted (list : List (List TermId)) :
      (list.mergeSort fun left right => !right.lex left).Pairwise below := by
    refine (List.pairwise_mergeSort ?_ ?_ list).imp fun {left right} => (order left right).mp
    · intro left middle right
      rw [order, order, order]
      exact List.le_trans
    · intro left right
      rw [Bool.or_eq_true, order, order]
      exact List.le_total left right
  exact List.Perm.eq_of_pairwise (fun _ _ _ _ => List.le_antisymm) (sorted _) (sorted _)
    ((List.mergeSort_perm _ _).trans (perm.trans (List.mergeSort_perm _ _).symm))

/-- The classes of an index are the classes of its terms. -/
theorem Tracks.mem_toList_iff (tracks : index.Tracks entries atoms) (key : AtomId)
    (ids : List TermId) :
    (key, ids) ∈ index.toList ↔
      ids = index.idsAt key ∧ ∃ entry ∈ entries, entry.2.home atoms = some key := by
  rw [ComponentIndex.mem_toList_iff]
  constructor
  · rintro ⟨bucket, found, rfl⟩
    have here : index.idsAt key = bucket.toList := by rw [idsAt, found, Option.getD_some]
    refine ⟨here.symm, ?_⟩
    have filled : bucket.toList ≠ [] := fun empty =>
      tracks.files.nonempty key (found.trans (congrArg some (Array.toList_eq_nil_iff.mp empty)))
    obtain ⟨id, member⟩ := List.exists_mem_of_ne_nil _ (here ▸ filled)
    obtain ⟨entry, kept, -⟩ := List.mem_map.mp ((tracks.files.bucket key).mem_iff.mp member)
    obtain ⟨entryMember, home⟩ := List.mem_filter.mp kept
    exact ⟨entry, entryMember, of_decide_eq_true home⟩
  · rintro ⟨rfl, entry, member, home⟩
    have filed := (tracks.mem_idsAt_iff member key).mpr home
    unfold idsAt at filed ⊢
    cases found : index.get? key with
    | none => simp [found] at filed
    | some bucket => exact ⟨bucket, rfl, rfl⟩

/-- Different buckets stay different when their numbers are renamed and sorted. -/
theorem Tracks.nodup_classes (tracks : index.Tracks entries atoms) (rename : TermId → TermId)
    (distinct : (entries.map fun entry => rename entry.1).Nodup) :
    (index.toList.map fun bucket => (bucket.2.map rename).mergeSort).Nodup := by
  have keys : index.toList.Nodup :=
    index.distinct_keys.imp fun different same => different (congrArg Prod.fst same)
  refine keys.map_on ?_
  rintro ⟨first, firstIds⟩ firstMember ⟨second, secondIds⟩ secondMember same
  obtain ⟨rfl, entry, member, home⟩ := (tracks.mem_toList_iff _ _).mp firstMember
  obtain ⟨rfl, -⟩ := (tracks.mem_toList_iff _ _).mp secondMember
  have perm : ((index.idsAt first).map rename).Perm ((index.idsAt second).map rename) :=
    (List.mergeSort_perm _ _).symm.trans (.trans (.of_eq same) (List.mergeSort_perm _ _))
  have renamed := perm.mem_iff.mp
    (List.mem_map_of_mem ((tracks.mem_idsAt_iff member first).mpr home))
  obtain ⟨id, filed, sameName⟩ := List.mem_map.mp renamed
  obtain ⟨other, kept, rfl⟩ := List.mem_map.mp ((tracks.files.bucket second).mem_iff.mp filed)
  obtain ⟨otherMember, otherHome⟩ := List.mem_filter.mp kept
  obtain rfl := List.inj_on_of_nodup_map distinct otherMember member sameName
  rw [home, decide_eq_true_eq, Option.some.injEq] at otherHome
  rw [otherHome]

section

variable {others : List (Entry α)} {otherIndex : ComponentIndex} {otherAtoms : AtomStore α}

/-- The same terms connect the same atoms. -/
theorem Tracks.root_eq_iff (tracks : index.Tracks entries atoms)
    (otherTracks : otherIndex.Tracks others otherAtoms)
    (terms : (others.map Prod.snd).Perm (entries.map Prod.snd))
    (free : ∀ entry ∈ entries, ∀ atom ∈ entry.2.atoms,
      otherAtoms.isFree atom = atoms.isFree atom) (first second : AtomId) :
    otherAtoms.root first = otherAtoms.root second ↔ atoms.root first = atoms.root second := by
  rw [tracks.connected, otherTracks.connected]
  have same (first second : AtomId) :
      Linked others otherAtoms first second ↔ Linked entries atoms first second := by
    constructor
    · rintro ⟨entry, member, firstBound, secondBound⟩
      obtain ⟨origin, originMember, sameTerm⟩ :=
        List.mem_map.mp (terms.mem_iff.mp (List.mem_map_of_mem member))
      rw [← sameTerm] at firstBound secondBound
      exact ⟨origin, originMember,
        ⟨firstBound.1, (free origin originMember first firstBound.1).symm.trans firstBound.2⟩,
        secondBound.1, (free origin originMember second secondBound.1).symm.trans secondBound.2⟩
    · rintro ⟨entry, member, firstBound, secondBound⟩
      obtain ⟨image, imageMember, sameTerm⟩ :=
        List.mem_map.mp (terms.mem_iff.mpr (List.mem_map_of_mem member))
      refine ⟨image, imageMember, ?_⟩
      rw [sameTerm]
      exact ⟨⟨firstBound.1, (free entry member first firstBound.1).trans firstBound.2⟩,
        secondBound.1, (free entry member second secondBound.1).trans secondBound.2⟩
  rw [funext fun first => funext fun second => propext (same first second)]

/-- Terms that share a home in one index share one in the other. -/
theorem Tracks.same_home_iff (tracks : index.Tracks entries atoms)
    (otherTracks : otherIndex.Tracks others otherAtoms)
    (terms : (others.map Prod.snd).Perm (entries.map Prod.snd))
    (free : ∀ entry ∈ entries, ∀ atom ∈ entry.2.atoms,
      otherAtoms.isFree atom = atoms.isFree atom) {first second : Entry α}
    (firstMember : first ∈ entries) (secondMember : second ∈ entries) :
    first.2.home otherAtoms = second.2.home otherAtoms ↔
      first.2.home atoms = second.2.home atoms := by
  simp only [Term.home, first.2.lead_congr (free first firstMember),
    second.2.lead_congr (free second secondMember)]
  cases first.2.lead atoms with
  | none => cases second.2.lead atoms <;> simp
  | some left =>
      cases second.2.lead atoms with
      | none => simp
      | some right => simpa using tracks.root_eq_iff otherTracks terms free left right

/-- A bucket of one index holds the numbers of the same terms as a bucket of the other. -/
theorem Tracks.idsAt_perm (tracks : index.Tracks entries atoms)
    (otherTracks : otherIndex.Tracks others otherAtoms) {rename : TermId → TermId}
    (perm : others.Perm (entries.map fun entry => (rename entry.1, entry.2)))
    (free : ∀ entry ∈ entries, ∀ atom ∈ entry.2.atoms,
      otherAtoms.isFree atom = atoms.isFree atom) {entry : Entry α} (member : entry ∈ entries)
    {key otherKey : AtomId} (home : entry.2.home atoms = some key)
    (otherHome : entry.2.home otherAtoms = some otherKey) :
    (otherIndex.idsAt otherKey).Perm ((index.idsAt key).map rename) := by
  have terms : (others.map Prod.snd).Perm (entries.map Prod.snd) := by
    have mapped := perm.map Prod.snd
    rwa [List.map_map] at mapped
  have sameHome (term : Entry α) (termMember : term ∈ entries) :
      term.2.home otherAtoms = some otherKey ↔ term.2.home atoms = some key := by
    rw [← home, ← otherHome]
    exact tracks.same_home_iff otherTracks terms free termMember member
  refine (otherTracks.files.bucket otherKey).trans (((perm.filter _).map Prod.fst).trans ?_)
  refine .trans (.of_eq ?_) ((tracks.files.bucket key).map rename).symm
  rw [List.filter_map, List.map_map, List.map_map]
  refine congrArg (List.map (rename ∘ Prod.fst)) (List.filter_congr fun term termMember => ?_)
  exact decide_eq_decide.mpr (sameHome term termMember)

/-- The order of the insertions does not show in the canonical view. -/
theorem Tracks.canonical_eq (tracks : index.Tracks entries atoms)
    (otherTracks : otherIndex.Tracks others otherAtoms) {rename : TermId → TermId}
    (perm : others.Perm (entries.map fun entry => (rename entry.1, entry.2)))
    (free : ∀ entry ∈ entries, ∀ atom ∈ entry.2.atoms,
      otherAtoms.isFree atom = atoms.isFree atom) :
    otherIndex.canonical = sortClasses (index.canonical.map fun ids => ids.map rename) := by
  rw [canonical_eq_sortClasses]
  apply sortClasses_congr
  have renamed : ((index.canonical.map fun ids => ids.map rename).map fun ids =>
      ids.mergeSort).Perm (index.toList.map fun bucket => (bucket.2.map rename).mergeSort) := by
    refine (((List.mergeSort_perm _ _).map _).map _).trans (.of_eq ?_)
    simp only [List.map_map]
    refine List.map_congr_left fun bucket _ => ?_
    exact mergeSort_congr ((List.mergeSort_perm bucket.2 _).map rename)
  have unnamed : ((otherIndex.toList.map Prod.snd).map fun ids => ids.mergeSort) =
      otherIndex.toList.map fun bucket => (bucket.2.map id).mergeSort := by
    rw [List.map_map]
    exact List.map_congr_left fun bucket _ => by rw [List.map_id]; rfl
  rw [unnamed]
  refine .trans ?_ renamed.symm
  have distinct : (entries.map fun entry => rename entry.1).Nodup := by
    have mapped := (perm.map Prod.fst).nodup_iff.mp otherTracks.distinct
    rwa [List.map_map] at mapped
  rw [List.perm_ext_iff_of_nodup (otherTracks.nodup_classes id otherTracks.distinct)
    (tracks.nodup_classes rename distinct)]
  intro ids
  simp only [List.mem_map, Prod.exists, List.map_id]
  constructor
  · rintro ⟨otherKey, otherIds, member, rfl⟩
    obtain ⟨rfl, image, imageMember, otherHome⟩ := (otherTracks.mem_toList_iff _ _).mp member
    obtain ⟨entry, entryMember, rfl⟩ := List.mem_map.mp (perm.mem_iff.mp imageMember)
    obtain ⟨key, home⟩ := tracks.exists_home entryMember
    exact ⟨key, _, (tracks.mem_toList_iff _ _).mpr ⟨rfl, entry, entryMember, home⟩,
      (mergeSort_congr (tracks.idsAt_perm otherTracks perm free entryMember home otherHome)).symm⟩
  · rintro ⟨key, keyIds, member, rfl⟩
    obtain ⟨rfl, entry, entryMember, home⟩ := (tracks.mem_toList_iff _ _).mp member
    have imageMember := perm.mem_iff.mpr (List.mem_map_of_mem entryMember)
    obtain ⟨otherKey, otherHome⟩ := otherTracks.exists_home imageMember
    exact ⟨otherKey, _, (otherTracks.mem_toList_iff _ _).mpr ⟨rfl, _, imageMember, otherHome⟩,
      mergeSort_congr (tracks.idsAt_perm otherTracks perm free entryMember home otherHome)⟩

end

end ComponentIndex

end HingeLoss
