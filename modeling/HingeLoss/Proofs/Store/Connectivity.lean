import HingeLoss.Proofs.Store.Canonical

/-! The buckets of a component index are the connectivity classes of its terms. -/

namespace HingeLoss

namespace ComponentIndex

variable {α : Type} {entries : List (Entry α)} {index : ComponentIndex} {atoms : AtomStore α}

/-- Two inserted terms that share a free atom. -/
def Neighbours (entries : List (Entry α)) (atoms : AtomStore α) (first second : Entry α) : Prop :=
  first ∈ entries ∧ second ∈ entries ∧
    ∃ atom, first.2.Binds atoms atom ∧ second.2.Binds atoms atom

/-- Two terms without free atoms that begin with the same atom. -/
def Alike (atoms : AtomStore α) (first second : Entry α) : Prop :=
  (∀ atom, ¬ first.2.Binds atoms atom) ∧ (∀ atom, ¬ second.2.Binds atoms atom) ∧
    first.2.atoms.head? = second.2.atoms.head?

/-- The buckets are the connectivity classes of the terms under the roots of their atoms. -/
structure Partitions (index : ComponentIndex) (entries : List (Entry α)) (atoms : AtomStore α) :
    Prop where
  /-- Buckets hold numbers of inserted terms only. -/
  inserted : ∀ key, ∀ id ∈ index.idsAt key, id ∈ entries.map Prod.fst
  /-- Each number is in one bucket, and there only once. -/
  once : ∀ entry ∈ entries, ∃ key, (index.idsAt key).count entry.1 = 1 ∧
    ∀ other, entry.1 ∈ index.idsAt other → other = key
  /-- The root of each free atom of a term is the key of its bucket. -/
  keyed : ∀ entry ∈ entries, ∀ key, entry.1 ∈ index.idsAt key → ∀ atom,
    entry.2.Binds atoms atom → (atoms.find atom).map Prod.fst = .ok key
  /-- The root of the first atom of a term without free atoms is the key of its bucket. -/
  keyedObserved : ∀ entry ∈ entries, ∀ key, entry.1 ∈ index.idsAt key →
    (∀ atom, ¬ entry.2.Binds atoms atom) → ∀ atom, entry.2.atoms.head? = some atom →
      (atoms.find atom).map Prod.fst = .ok key
  /-- Terms share a bucket exactly if a chain links them or they are observed alike. -/
  chained : ∀ first ∈ entries, ∀ second ∈ entries,
    (∃ key, first.1 ∈ index.idsAt key ∧ second.1 ∈ index.idsAt key) ↔
      Relation.ReflTransGen (Neighbours entries atoms) first second ∨ Alike atoms first second

instance : Std.Symm (Neighbours entries atoms) where
  symm _ _ near := ⟨near.2.1, near.1, near.2.2.imp fun _ both => both.symm⟩

theorem lead_eq_of_observed {term : Term α} (observed : ∀ atom, ¬ term.Binds atoms atom) :
    term.lead atoms = term.atoms.head? := by
  have noneFree : term.atoms.find? atoms.isFree = none :=
    List.find?_eq_none.mpr fun atom member isFree => observed atom ⟨member, isFree⟩
  rw [Term.lead, noneFree, Option.none_or]

theorem lead_mem {term : Term α} {lead : AtomId} (leads : term.lead atoms = some lead) :
    lead ∈ term.atoms := by
  rcases Option.or_eq_some_iff.mp leads with found | ⟨-, first⟩
  · exact List.mem_of_find?_eq_some found
  · exact List.mem_of_head? first

/-- The leading atom is free if any atom of the term is. -/
theorem binds_lead {term : Term α} {lead bound : AtomId} (leads : term.lead atoms = some lead)
    (binds : term.Binds atoms bound) : term.Binds atoms lead := by
  unfold Term.lead at leads
  cases found : term.atoms.find? atoms.isFree with
  | none => exact absurd binds.2 (List.find?_eq_none.mp found bound binds.1)
  | some free =>
      rw [found, Option.some_or, Option.some.injEq] at leads
      exact leads ▸ ⟨List.mem_of_find?_eq_some found, List.find?_some found⟩

/-- All free atoms of a term are under its home. -/
theorem Tracks.home_eq (tracks : index.Tracks entries atoms) {entry : Entry α}
    (member : entry ∈ entries) {atom : AtomId} (binds : entry.2.Binds atoms atom) :
    entry.2.home atoms = some (atoms.root atom) := by
  obtain ⟨key, home⟩ := tracks.exists_home member
  obtain ⟨lead, leads, same⟩ := Option.map_eq_some_iff.mp home
  rw [home, ← same, (tracks.connected lead atom).mpr
    (.rel _ _ ⟨entry, member, binds_lead leads binds, binds⟩)]

/-- Atoms that are connected but not the same are bound by terms that a chain links. -/
theorem chain_of_connected {first second : AtomId}
    (joined : Relation.EqvGen (Linked entries atoms) first second) :
    first = second ∨ ∃ left right : Entry α, left ∈ entries ∧ right ∈ entries ∧
      left.2.Binds atoms first ∧ right.2.Binds atoms second ∧
        Relation.ReflTransGen (Neighbours entries atoms) left right := by
  induction joined with
  | rel first second linked =>
      obtain ⟨entry, member, firstBound, secondBound⟩ := linked
      exact .inr ⟨entry, entry, member, member, firstBound, secondBound, .refl⟩
  | refl atom => exact .inl rfl
  | symm first second _ inductionHypothesis =>
      rcases inductionHypothesis with same | ⟨left, right, leftMember, rightMember, leftBound,
        rightBound, chain⟩
      · exact .inl same.symm
      · exact .inr ⟨right, left, rightMember, leftMember, rightBound, leftBound,
          Std.Symm.symm _ _ chain⟩
  | trans first second third _ _ before later =>
      rcases before with rfl | ⟨left, middle, leftMember, middleMember, leftBound, middleBound,
        chain⟩
      · exact later
      · rcases later with rfl | ⟨other, right, otherMember, rightMember, otherBound, rightBound,
          rest⟩
        · exact .inr ⟨left, middle, leftMember, middleMember, leftBound, middleBound, chain⟩
        · exact .inr ⟨left, right, leftMember, rightMember, leftBound, rightBound,
            (chain.tail ⟨middleMember, otherMember, second, middleBound, otherBound⟩).trans rest⟩

/-- Two terms have one home exactly if they are connected or observed alike. -/
theorem Tracks.home_eq_iff (tracks : index.Tracks entries atoms) {first second : Entry α}
    (firstMember : first ∈ entries) (secondMember : second ∈ entries) :
    first.2.home atoms = second.2.home atoms ↔
      Relation.ReflTransGen (Neighbours entries atoms) first second ∨
        Alike atoms first second := by
  constructor
  · intro same
    obtain ⟨key, firstHome⟩ := tracks.exists_home firstMember
    have secondHome := same.symm.trans firstHome
    obtain ⟨firstLead, firstLeads, firstRoot⟩ := Option.map_eq_some_iff.mp firstHome
    obtain ⟨secondLead, secondLeads, secondRoot⟩ := Option.map_eq_some_iff.mp secondHome
    rcases chain_of_connected ((tracks.connected firstLead secondLead).mp
      (firstRoot.trans secondRoot.symm)) with rfl | ⟨left, right, leftMember, rightMember,
        leftBound, rightBound, chain⟩
    · by_cases free : atoms.isFree firstLead = true
      · exact .inl (.single ⟨firstMember, secondMember, firstLead, ⟨lead_mem firstLeads, free⟩,
          lead_mem secondLeads, free⟩)
      · have firstObserved (atom : AtomId) : ¬ first.2.Binds atoms atom := fun bound =>
          free (binds_lead firstLeads bound).2
        have secondObserved (atom : AtomId) : ¬ second.2.Binds atoms atom := fun bound =>
          free (binds_lead secondLeads bound).2
        rw [lead_eq_of_observed firstObserved] at firstLeads
        rw [lead_eq_of_observed secondObserved] at secondLeads
        exact .inr ⟨firstObserved, secondObserved, firstLeads.trans secondLeads.symm⟩
    · have firstNear : Neighbours entries atoms first left :=
        ⟨firstMember, leftMember, firstLead, ⟨lead_mem firstLeads, leftBound.2⟩, leftBound⟩
      have secondNear : Neighbours entries atoms right second :=
        ⟨rightMember, secondMember, secondLead, rightBound, lead_mem secondLeads, rightBound.2⟩
      exact .inl (.head firstNear (chain.tail secondNear))
  · rintro (chain | ⟨firstObserved, secondObserved, heads⟩)
    · induction chain with
      | refl => rfl
      | tail _ near inductionHypothesis =>
          obtain ⟨middleMember, lastMember, atom, middleBound, lastBound⟩ := near
          rw [inductionHypothesis middleMember, tracks.home_eq middleMember middleBound,
            tracks.home_eq lastMember lastBound]
    · rw [Term.home, lead_eq_of_observed firstObserved, heads, Term.home,
        lead_eq_of_observed secondObserved]

/-- A lookup answers with the root. -/
theorem Tracks.find_eq (tracks : index.Tracks entries atoms) {entry : Entry α}
    (member : entry ∈ entries) {atom : AtomId} (used : atom ∈ entry.2.atoms) :
    (atoms.find atom).map Prod.fst = .ok (atoms.root atom) := by
  obtain ⟨walked, found, -⟩ := AtomStore.find_ok (tracks.inRange entry member atom used)
  rw [found]
  rfl

theorem Tracks.partitions (tracks : index.Tracks entries atoms) :
    index.Partitions entries atoms where
  inserted key id filed := by
    obtain ⟨entry, kept, same⟩ := List.mem_map.mp ((tracks.files.bucket key).mem_iff.mp filed)
    exact List.mem_map.mpr ⟨entry, (List.mem_filter.mp kept).1, same⟩
  once entry member := by
    obtain ⟨key, home⟩ := tracks.exists_home member
    have distinct : (index.idsAt key).Nodup :=
      (tracks.files.bucket key).nodup_iff.mpr
        (tracks.distinct.sublist (List.filter_sublist.map Prod.fst))
    refine ⟨key, List.count_eq_one_of_mem distinct ((tracks.mem_idsAt_iff member key).mpr home),
      fun other filed => ?_⟩
    have otherHome := (tracks.mem_idsAt_iff member other).mp filed
    exact Option.some.inj (otherHome.symm.trans home)
  keyed entry member key filed atom bound := by
    have home := (tracks.mem_idsAt_iff member key).mp filed
    rw [tracks.home_eq member bound, Option.some.injEq] at home
    rw [tracks.find_eq member bound.1, home]
  keyedObserved entry member key filed observed atom first := by
    have home := (tracks.mem_idsAt_iff member key).mp filed
    rw [Term.home, lead_eq_of_observed observed, first, Option.map_some,
      Option.some.injEq] at home
    rw [tracks.find_eq member (List.mem_of_head? first), home]
  chained first firstMember second secondMember := by
    rw [← tracks.home_eq_iff firstMember secondMember]
    constructor
    · rintro ⟨key, firstFiled, secondFiled⟩
      rw [(tracks.mem_idsAt_iff firstMember key).mp firstFiled,
        (tracks.mem_idsAt_iff secondMember key).mp secondFiled]
    · intro same
      obtain ⟨key, home⟩ := tracks.exists_home firstMember
      exact ⟨key, (tracks.mem_idsAt_iff firstMember key).mpr home,
        (tracks.mem_idsAt_iff secondMember key).mpr (same.symm.trans home)⟩

/-- The buckets of a component index are the connectivity classes of the inserted terms, and the
canonical view does not depend on the order of insertion. -/
theorem reached_partitions [Scalar α] (reached : Reached entries index atoms) :
    index.Partitions entries atoms ∧
      (∀ id (term : Term α), id ∉ entries.map Prod.fst → term.atoms ≠ [] →
        (∀ atom ∈ term.atoms, atom.index < atoms.size) →
        ∃ key, (index.insert id term atoms).1 = .ok key ∧
          id ∈ (index.insert id term atoms).2.1.idsAt key) ∧
      ∀ (others : List (Entry α)) otherIndex otherAtoms (rename : TermId → TermId),
        Reached others otherIndex otherAtoms →
        others.Perm (entries.map fun entry => (rename entry.1, entry.2)) →
        (∀ entry ∈ entries, ∀ atom ∈ entry.2.atoms,
          otherAtoms.isFree atom = atoms.isFree atom) →
        otherIndex.canonical = sortClasses (index.canonical.map fun ids => ids.map rename) := by
  refine ⟨reached.tracks.partitions, fun id term distinct nonempty inRange => ?_,
    fun others otherIndex otherAtoms rename otherReached perm free =>
      reached.tracks.canonical_eq otherReached.tracks perm free⟩
  obtain ⟨tracks, key, answer, home⟩ := reached.tracks.insert distinct nonempty inRange
  have member : (id, term) ∈ entries ++ [(id, term)] := List.mem_append_right _ List.mem_cons_self
  exact ⟨key, answer, (tracks.mem_idsAt_iff member key).mpr home⟩

/-- Three singletons, of which the last is observed. -/
def sampleAtoms : AtomStore Single where
  records := #[⟨⟨0⟩, false⟩, ⟨⟨0⟩, false⟩, ⟨⟨0⟩, true⟩]
  partition := .singletons 3
  sizesAgree := rfl

def sampleTerm : Term Single := ⟨⟨0⟩, .linear, .hard, ⟨0⟩, [⟨2⟩, ⟨0⟩, ⟨1⟩], [⟨0⟩, ⟨0⟩, ⟨0⟩]⟩

def termOn (atoms : List AtomId) : Term Single :=
  ⟨⟨0⟩, .linear, .hard, ⟨0⟩, atoms, atoms.map fun _ => ⟨0⟩⟩

def insertedInTurn (entries : List (Entry Single)) : ComponentIndex × AtomStore Single :=
  entries.foldl (fun state entry => (state.1.insert entry.1 entry.2 state.2).2) (empty, sampleAtoms)

/-- Of four terms the first and the third share a free atom. The others share no more than an
observed one, and the last has no free atom. They are also inserted from the last one to the first,
under other numbers. -/
theorem reached_partitions_sample :
    let entries : List (Entry Single) := [(0, termOn [⟨2⟩, ⟨0⟩]), (1, termOn [⟨1⟩, ⟨2⟩]),
      (2, termOn [⟨0⟩]), (3, termOn [⟨2⟩])]
    let others := (entries.map fun entry => (entry.1 + 4, entry.2)).reverse
    let run := insertedInTurn entries
    let otherRun := insertedInTurn others
    run.1.Partitions entries run.2 ∧
      [run.1.idsAt ⟨0⟩, run.1.idsAt ⟨1⟩, run.1.idsAt ⟨2⟩] = [[0, 2], [1], [3]] ∧
      otherRun.1.Partitions others otherRun.2 ∧
      otherRun.1.canonical = sortClasses (run.1.canonical.map fun ids => ids.map (· + 4)) := by
  intro entries others run otherRun
  have start : Reached [] empty sampleAtoms := .start (AtomStore.apart_of_singletons rfl)
  have reached : Reached entries run.1 run.2 :=
    .insert (.insert (.insert (.insert start List.not_mem_nil (by decide) (by decide +kernel))
      (by decide) (by decide) (by decide +kernel)) (by decide) (by decide) (by decide +kernel))
      (by decide) (by decide) (by decide +kernel)
  have otherReached : Reached others otherRun.1 otherRun.2 :=
    .insert (.insert (.insert (.insert start List.not_mem_nil (by decide) (by decide +kernel))
      (by decide) (by decide) (by decide +kernel)) (by decide) (by decide) (by decide +kernel))
      (by decide) (by decide) (by decide +kernel)
  obtain ⟨partitions, -, anyOrder⟩ := reached_partitions reached
  have free : ∀ entry ∈ entries, ∀ atom ∈ entry.2.atoms,
      otherRun.2.isFree atom = run.2.isFree atom := by decide +kernel
  exact ⟨partitions, by decide +kernel, (reached_partitions otherReached).1,
    anyOrder others otherRun.1 otherRun.2 (· + 4) otherReached (List.reverse_perm _) free⟩

end ComponentIndex

end HingeLoss
