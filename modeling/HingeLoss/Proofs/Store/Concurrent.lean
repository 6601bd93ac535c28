import Mathlib.Data.Set.Basic
import HingeLoss.Proofs.Store.Grounded
import HingeLoss.Proofs.Store.Schedule

/-! Grounding by several producers at the same time, with one call at a time under the lock. -/

namespace HingeLoss

inductive GroundingAnswer (α : Type) where
  | added (answer : Except (StoreFault α) TermId)
  | addedAll (answer : Except (StoreFault α) Nat)

/-- The fault of a term that was refused: it names an atom of the term that is not there. -/
def GroundingCall.Refused {α : Type} (size : Nat) (call : GroundingCall α) (fault : StoreFault α) :
    Prop :=
  call.accepted size ≠ call.terms ∧ ∃ term ∈ call.terms, ∃ atom ∈ term.atoms,
    size ≤ atom.index ∧ fault = .atom (.outOfRange atom.index size)

/-- The answer to a call in a store with a number of terms. A call that is not refused answers with
the next number or with the number of its terms. -/
def GroundingCall.Answered {α : Type} (size count : Nat) (call : GroundingCall α) :
    GroundingAnswer α → Prop
  | .added (.ok id) => call.accepted size = call.terms ∧ id = count
  | .addedAll (.ok number) => call.accepted size = call.terms ∧ number = call.terms.length
  | .added (.error fault) => call.Refused size fault
  | .addedAll (.error fault) => call.Refused size fault

/-- The answers to a row of calls. The accepted terms take the numbers one after the other. -/
def GroundingCall.AllAnswered {α : Type} (size : Nat) :
    Nat → List (GroundingCall α) → List (GroundingAnswer α) → Prop
  | _, [], [] => True
  | count, call :: calls, answer :: answers =>
      call.Answered size count answer ∧
        AllAnswered size (count + (call.accepted size).length) calls answers
  | _, _, _ => False

namespace GroundingSession

variable {α : Type} [Scalar α]

/-- One call under the lock. -/
def serve (session : GroundingSession α) : GroundingCall α → GroundingAnswer α × GroundingSession α
  | .add term => (.added (session.add term).1, (session.add term).2)
  | .addAll terms => (.addedAll (session.addAll terms).1, (session.addAll terms).2)

/-- A session that has taken some terms next to atoms with certain records. -/
structure Underway (records : Array (AtomRecord α)) (terms : List (Term α))
    (session : GroundingSession α) : Prop where
  grounded : session.store.Grounded session.atoms
  grounding : session.store.phase = .grounding
  held : session.store.terms.toList = terms
  records : session.atoms.records = records
  kept : Kept terms session

variable {records : Array (AtomRecord α)} {terms : List (Term α)} {session : GroundingSession α}

theorem underway_opened {atoms : AtomStore α} (apart : atoms.Apart) :
    Underway atoms.records [] ⟨.empty, atoms⟩ where
  grounded := .start apart
  grounding := rfl
  held := rfl
  records := rfl
  kept := ⟨fun _ => tallied_nil, fun _ => .nil⟩

theorem Underway.atoms_size (underway : Underway records terms session) :
    session.atoms.size = records.size := by
  rw [AtomStore.size, underway.records]

theorem Underway.store_size (underway : Underway records terms session) :
    session.store.size = terms.length := by
  rw [ResidentStore.size, ← Array.length_toList, underway.held]

/-- A term of atoms that are there takes the next number. -/
theorem Underway.add (underway : Underway records terms session) {term : Term α}
    (nonempty : term.atoms ≠ [])
    (inRange : term.atoms.all (·.index < records.size) = true) :
    ∃ after, session.add term = (.ok terms.length, after) ∧
      Underway records (terms ++ [term]) after := by
  have inside : ∀ atom ∈ term.atoms, atom.index < session.atoms.size := by
    rw [underway.atoms_size]
    simpa using inRange
  obtain ⟨filed, joined, added, -⟩ :=
    ResidentStore.add_ok underway.grounded.tracks underway.grounding nonempty inside
  have grounded := grounded_add underway.grounded nonempty
  have records := session.store.records_add term session.atoms
  have kept := underway.kept.add term
  simp only [respond, GroundingSession.add, added] at grounded records kept ⊢
  rw [underway.store_size]
  exact ⟨_, rfl, grounded, rfl, by rw [Array.toList_push, underway.held],
    records.trans underway.records, kept⟩

/-- A term with an atom that is not there is refused, and nothing changes. -/
theorem Underway.add_refused (underway : Underway records terms session) {term : Term α}
    (missing : term.atoms.all (·.index < records.size) = false) :
    ∃ atom ∈ term.atoms, records.size ≤ atom.index ∧
      session.add term = (.error (.atom (.outOfRange atom.index records.size)), session) := by
  have outside : ¬ ∀ atom ∈ term.atoms, atom.index < session.atoms.size := by
    rw [underway.atoms_size]
    simpa using missing
  obtain ⟨atom, member, above, refused⟩ :=
    ResidentStore.add_refused underway.grounding outside
  rw [underway.atoms_size] at above refused
  exact ⟨atom, member, above, by rw [GroundingSession.add, refused]⟩

/-- A batch is taken up to the first term that is refused. -/
theorem Underway.addAll (underway : Underway records terms session) {batch : List (Term α)}
    (nonempty : ∀ term ∈ batch, term.atoms ≠ []) :
    ∃ answer after, session.addAll batch = (answer, after) ∧
      Underway records (terms ++ (GroundingCall.addAll batch).accepted records.size) after ∧
      (GroundingCall.addAll batch).Answered records.size terms.length (.addedAll answer) := by
  induction batch generalizing terms session with
  | nil =>
      refine ⟨.ok 0, session, rfl, ?_, rfl, rfl⟩
      rw [GroundingCall.accepted, GroundingCall.terms, List.takeWhile_nil, List.append_nil]
      exact underway
  | cons term later inductionHypothesis =>
      rw [List.forall_mem_cons] at nonempty
      simp only [GroundingSession.addAll, GroundingCall.accepted, GroundingCall.terms,
        List.takeWhile_cons] at inductionHypothesis ⊢
      cases inRange : term.atoms.all (·.index < records.size) with
      | true =>
          obtain ⟨between, added, underwayThen⟩ := underway.add nonempty.1 inRange
          obtain ⟨answer, after, addedAll, underwayAfter, answered⟩ :=
            inductionHypothesis underwayThen nonempty.2
          rw [List.append_assoc, List.singleton_append] at underwayAfter
          refine ⟨answer.map (· + 1), after, by simp only [added, addedAll], underwayAfter, ?_⟩
          cases answer with
          | ok number =>
              obtain ⟨all, rfl⟩ := answered
              refine ⟨?_, rfl⟩
              simpa [GroundingCall.accepted, GroundingCall.terms, inRange] using all
          | error fault =>
              obtain ⟨notAll, refused, member, named⟩ := answered
              refine ⟨?_, refused, List.mem_cons_of_mem _ member, named⟩
              simpa [GroundingCall.accepted, GroundingCall.terms, inRange] using notAll
      | false =>
          obtain ⟨atom, member, above, refused⟩ := underway.add_refused inRange
          have notAll : (GroundingCall.addAll (term :: later)).accepted records.size ≠
              term :: later := by
            simp [GroundingCall.accepted, GroundingCall.terms, inRange]
          exact ⟨.error _, session, by rw [refused], by simpa using underway, notAll, term,
            List.mem_cons_self, atom, member, above, rfl⟩

/-- What one call does. -/
theorem Underway.serve (underway : Underway records terms session) {call : GroundingCall α}
    (nonempty : ∀ term ∈ call.terms, term.atoms ≠ []) :
    Underway records (terms ++ call.accepted records.size) (session.serve call).2 ∧
      call.Answered records.size terms.length (session.serve call).1 := by
  cases call with
  | add term =>
      have nonempty := nonempty term List.mem_cons_self
      simp only [GroundingSession.serve, GroundingCall.accepted, GroundingCall.terms,
        List.takeWhile_cons, List.takeWhile_nil]
      cases inRange : term.atoms.all (·.index < records.size) with
      | true =>
          obtain ⟨after, added, underwayAfter⟩ := underway.add nonempty inRange
          rw [added]
          refine ⟨underwayAfter, ?_, rfl⟩
          simp [GroundingCall.accepted, GroundingCall.terms, inRange]
      | false =>
          obtain ⟨atom, member, above, refused⟩ := underway.add_refused inRange
          rw [refused]
          refine ⟨by simpa using underway, ?_, term, List.mem_cons_self, atom, member, above, rfl⟩
          simp [GroundingCall.accepted, GroundingCall.terms, inRange]
  | addAll batch =>
      obtain ⟨answer, after, added, underwayAfter, answered⟩ := underway.addAll nonempty
      simp only [GroundingCall.terms] at added
      rw [GroundingSession.serve, added]
      exact ⟨underwayAfter, answered⟩

/-- What a row of calls does. -/
theorem Underway.performAll (underway : Underway records terms session)
    {calls : List (GroundingCall α)}
    (nonempty : ∀ call ∈ calls, ∀ term ∈ call.terms, term.atoms ≠ []) :
    Underway records (terms ++ calls.flatMap (GroundingCall.accepted records.size))
        (performAll GroundingSession.serve session calls).2 ∧
      GroundingCall.AllAnswered records.size terms.length calls
        (performAll GroundingSession.serve session calls).1 := by
  induction calls generalizing terms session with
  | nil =>
      rw [List.flatMap_nil, List.append_nil]
      exact ⟨underway, trivial⟩
  | cons call later inductionHypothesis =>
      rw [List.forall_mem_cons] at nonempty
      obtain ⟨served, answered⟩ := underway.serve nonempty.1
      obtain ⟨last, allAnswered⟩ := inductionHypothesis served nonempty.2
      rw [List.append_assoc] at last
      rw [List.length_append] at allAnswered
      exact ⟨last, answered, allAnswered⟩

theorem Underway.finish (underway : Underway records terms session) :
    session.finish =
      (.ok terms.length, { session with store := { session.store with phase := .ready } }) := by
  rw [GroundingSession.finish, ResidentStore.finish, underway.grounding, ← underway.store_size]
  rfl

end GroundingSession

section

variable {ι α : Type}

/-- The buckets of an index as sets of the labels of their terms. -/
def labelClasses (labels : List (TermLabel ι)) (index : ComponentIndex) :
    Set (Set (TermLabel ι)) :=
  {labelled | ∃ bucket ∈ index.toList,
    labelled = {label | ∃ id ∈ bucket.2, labels[id]? = some label}}

/-- The classes of a store are made by the homes of its terms. -/
theorem labelClasses_eq {store : ResidentStore α} {atoms : AtomStore α}
    (tracks : store.components.Tracks store.entries atoms) {terms : List (TermLabel ι × Term α)}
    (held : store.terms.toList = terms.map Prod.snd) :
    labelClasses (terms.map Prod.fst) store.components =
      {labelled | ∃ leader ∈ terms, labelled = {label | ∃ entry ∈ terms,
        entry.1 = label ∧ entry.2.home atoms = leader.2.home atoms}} := by
  have numbered {id : TermId} {entry : TermLabel ι × Term α} (found : terms[id]? = some entry) :
      (id, entry.2) ∈ store.entries := by
    rw [ResidentStore.mem_entries, ← Array.getElem?_toList, held, List.getElem?_map, found]
    rfl
  have bucket (key : AtomId) : {label | ∃ id ∈ store.components.idsAt key,
      (terms.map Prod.fst)[id]? = some label} =
        {label | ∃ entry ∈ terms, entry.1 = label ∧ entry.2.home atoms = some key} := by
    ext label
    simp only [Set.mem_ofPred_eq, List.getElem?_map, Option.map_eq_some_iff]
    constructor
    · rintro ⟨id, filed, entry, found, rfl⟩
      exact ⟨entry, List.mem_of_getElem? found, rfl,
        (tracks.mem_idsAt_iff (numbered found) key).mp filed⟩
    · rintro ⟨entry, member, rfl, home⟩
      obtain ⟨id, found⟩ := List.mem_iff_getElem?.mp member
      exact ⟨id, (tracks.mem_idsAt_iff (numbered found) key).mpr home, entry, found, rfl⟩
  ext labelled
  constructor
  · rintro ⟨⟨key, ids⟩, listed, rfl⟩
    obtain ⟨rfl, ⟨id, term⟩, member, home⟩ := (tracks.mem_toList_iff key ids).mp listed
    rw [ResidentStore.mem_entries, ← Array.getElem?_toList, held, List.getElem?_map,
      Option.map_eq_some_iff] at member
    obtain ⟨leader, found, rfl⟩ := member
    refine ⟨leader, List.mem_of_getElem? found, ?_⟩
    rw [home]
    exact bucket key
  · rintro ⟨leader, member, rfl⟩
    obtain ⟨id, found⟩ := List.mem_iff_getElem?.mp member
    obtain ⟨key, home⟩ := tracks.exists_home (numbered found)
    refine ⟨(key, store.components.idsAt key),
      (tracks.mem_toList_iff key _).mpr ⟨rfl, _, numbered found, home⟩, ?_⟩
    rw [show leader.2.home atoms = some key from home]
    exact (bucket key).symm

/-- Two stores that hold the same terms under the same labels have the same classes. -/
theorem labelClasses_congr {store other : ResidentStore α} {atoms otherAtoms : AtomStore α}
    (tracks : store.components.Tracks store.entries atoms)
    (otherTracks : other.components.Tracks other.entries otherAtoms)
    (free : ∀ atom, otherAtoms.isFree atom = atoms.isFree atom)
    {terms otherTerms : List (TermLabel ι × Term α)} (perm : terms.Perm otherTerms)
    (held : store.terms.toList = terms.map Prod.snd)
    (otherHeld : other.terms.toList = otherTerms.map Prod.snd) :
    labelClasses (terms.map Prod.fst) store.components =
      labelClasses (otherTerms.map Prod.fst) other.components := by
  have sameTerms : (other.entries.map Prod.snd).Perm (store.entries.map Prod.snd) := by
    rw [ResidentStore.map_snd_entries, ResidentStore.map_snd_entries, held, otherHeld]
    exact perm.symm.map Prod.snd
  have numbered {entry : TermLabel ι × Term α} (member : entry ∈ terms) :
      ∃ id, (id, entry.2) ∈ store.entries := by
    obtain ⟨id, found⟩ := List.mem_iff_getElem?.mp member
    refine ⟨id, ResidentStore.mem_entries.mpr ?_⟩
    rw [← Array.getElem?_toList, held, List.getElem?_map, found]
    rfl
  have sameHome {entry leader : TermLabel ι × Term α} (entryMember : entry ∈ terms)
      (leaderMember : leader ∈ terms) : entry.2.home otherAtoms = leader.2.home otherAtoms ↔
        entry.2.home atoms = leader.2.home atoms := by
    obtain ⟨_, entryNumbered⟩ := numbered entryMember
    obtain ⟨_, leaderNumbered⟩ := numbered leaderMember
    exact tracks.same_home_iff otherTracks sameTerms (fun _ _ atom _ => free atom) entryNumbered
      leaderNumbered
  rw [labelClasses_eq tracks held, labelClasses_eq otherTracks otherHeld]
  ext labelled
  simp only [Set.mem_ofPred_eq, ← perm.mem_iff]
  refine exists_congr fun leader => and_congr_right fun leaderMember => ?_
  have sameClass : {label | ∃ entry ∈ terms, entry.1 = label ∧
      entry.2.home atoms = leader.2.home atoms} = {label | ∃ entry ∈ terms, entry.1 = label ∧
        entry.2.home otherAtoms = leader.2.home otherAtoms} := by
    ext label
    refine exists_congr fun entry => and_congr_right fun entryMember => and_congr_right fun _ => ?_
    exact (sameHome entryMember leaderMember).symm
  rw [sameClass]

end

/-- The answers to a row of calls on a new store, the answer to its end, and the session after it.
-/
def groundConcurrently {ι α : Type} (atoms : AtomStore α) (schedule : List (ι × GroundingCall α)) :
    List (GroundingAnswer α) × Except (StoreFault α) Nat × GroundingSession α :=
  let served := performAll GroundingSession.serve ⟨.empty, atoms⟩ (schedule.map Prod.snd)
  (served.1, served.2.finish)

section

variable {ι α : Type} [DecidableEq ι] [Scalar α]

/-- What a row of calls leaves: the terms that were not refused, each once under its label, in the
order of the calls, with those of each producer in its own order and those of each call next to each
other. -/
structure Gathered (programs : ι → List (GroundingCall α)) (atoms : AtomStore α)
    (schedule : List (ι × GroundingCall α)) (terms : List (TermLabel ι × Term α)) : Prop where
  answered : GroundingCall.AllAnswered atoms.size 0 (schedule.map Prod.snd)
    (groundConcurrently atoms schedule).1
  finished : (groundConcurrently atoms schedule).2.1 = .ok terms.length
  ready : (groundConcurrently atoms schedule).2.2.store.phase = .ready
  held : (groundConcurrently atoms schedule).2.2.store.terms.toList = terms.map Prod.snd
  accepted : terms.map Prod.snd = schedule.flatMap fun entry => entry.2.accepted atoms.size
  once : (terms.map Prod.fst).Nodup
  inOrder : ∀ producer, (terms.filter fun entry => entry.1.producer = producer) =
    programTerms atoms.size producer 0 (programs producer)
  contiguous : ∀ producer (number : Nat) (call : GroundingCall α),
    (programs producer)[number]? = some call →
    ∃ before after, terms = before ++ call.labelled atoms.size producer number ++ after
  counted : ∀ rule, (groundConcurrently atoms schedule).2.2.store.counts[rule]? =
    Term.tally (terms.map Prod.snd) rule
  numbered : (groundConcurrently atoms schedule).2.2.store.components.Dense terms.length

variable {programs : ι → List (GroundingCall α)} {atoms : AtomStore α}
  {schedule other : List (ι × GroundingCall α)}

open GroundingSession in
theorem underway_scheduled
    (nonempty : ∀ producer, ∀ call ∈ programs producer, ∀ term ∈ call.terms, term.atoms ≠ [])
    (apart : atoms.Apart)
    (interleaves : Interleaves programs schedule) :
    Underway atoms.records ((scheduledTerms atoms.size (fun _ => 0) schedule).map Prod.snd)
        (performAll serve ⟨.empty, atoms⟩ (schedule.map Prod.snd)).2 ∧
      GroundingCall.AllAnswered atoms.size 0 (schedule.map Prod.snd)
        (performAll serve ⟨.empty, atoms⟩ (schedule.map Prod.snd)).1 := by
  have calls : ∀ call ∈ schedule.map Prod.snd, ∀ term ∈ call.terms, term.atoms ≠ [] := by
    intro call member
    obtain ⟨⟨producer, _⟩, entryMember, rfl⟩ := List.mem_map.mp member
    refine nonempty producer _ ?_
    rw [← interleaves producer]
    exact List.mem_map_of_mem (List.mem_filter.mpr ⟨entryMember, decide_eq_true rfl⟩)
  obtain ⟨underway, answered⟩ := (underway_opened apart).performAll calls
  rw [List.nil_append, List.flatMap_map] at underway
  rw [map_snd_scheduledTerms]
  exact ⟨underway, answered⟩

/-- The session after the calls, and its end. -/
theorem groundConcurrently_eq
    (nonempty : ∀ producer, ∀ call ∈ programs producer, ∀ term ∈ call.terms, term.atoms ≠ [])
    (apart : atoms.Apart)
    (interleaves : Interleaves programs schedule) :
    ∃ answers session,
      groundConcurrently atoms schedule =
        (answers, .ok (scheduledTerms atoms.size (fun _ => 0) schedule).length,
          { session with store := { session.store with phase := .ready } }) ∧
      GroundingSession.Underway atoms.records
        ((scheduledTerms atoms.size (fun _ => 0) schedule).map Prod.snd) session ∧
      GroundingCall.AllAnswered atoms.size 0 (schedule.map Prod.snd) answers := by
  obtain ⟨underway, answered⟩ := underway_scheduled nonempty apart interleaves
  refine ⟨_, _, ?_, underway, answered⟩
  dsimp only [groundConcurrently]
  rw [underway.finish, List.length_map]

theorem gathered
    (nonempty : ∀ producer, ∀ call ∈ programs producer, ∀ term ∈ call.terms, term.atoms ≠ [])
    (apart : atoms.Apart)
    (interleaves : Interleaves programs schedule) :
    Gathered programs atoms schedule (scheduledTerms atoms.size (fun _ => 0) schedule) := by
  obtain ⟨answers, session, equation, underway, answered⟩ :=
    groundConcurrently_eq nonempty apart interleaves
  have tallied := underway.kept.tallied (by rw [underway.grounding]; nofun)
  rw [underway.store_size, List.length_map] at tallied
  exact {
    answered := by rw [equation]; exact answered
    finished := by rw [equation]
    ready := by rw [equation]
    held := by rw [equation]; exact underway.held
    accepted := map_snd_scheduledTerms _ _ schedule
    once := nodup_scheduledTerms _ _ schedule
    inOrder := fun producer => by rw [filter_scheduledTerms, interleaves]
    contiguous := fun producer number call made => by
      rw [← interleaves producer] at made
      simpa using contiguous_scheduledTerms atoms.size (fun _ => 0) made
    counted := by rw [equation]; exact tallied.perRule
    numbered := by rw [equation]; exact tallied.numbered }

/-- Whatever the row of the calls, a new store next to singletons holds the terms that were not
refused, each once, with numbers in the order of the calls; and neither the counts of the rules nor
the components, as sets of labels, depend on the row. -/
theorem concurrent_grounding (programs : ι → List (GroundingCall α))
    (nonempty : ∀ producer, ∀ call ∈ programs producer, ∀ term ∈ call.terms, term.atoms ≠ [])
    (atoms : AtomStore α) (apart : atoms.Apart) :
    (∀ schedule, Interleaves programs schedule →
      Gathered programs atoms schedule (scheduledTerms atoms.size (fun _ => 0) schedule)) ∧
    ∀ schedule other, Interleaves programs schedule → Interleaves programs other →
      (∀ rule : RuleId, (groundConcurrently atoms schedule).2.2.store.counts[rule]? =
        (groundConcurrently atoms other).2.2.store.counts[rule]?) ∧
      labelClasses ((scheduledTerms atoms.size (fun _ => 0) schedule).map Prod.fst)
          (groundConcurrently atoms schedule).2.2.store.components =
        labelClasses ((scheduledTerms atoms.size (fun _ => 0) other).map Prod.fst)
          (groundConcurrently atoms other).2.2.store.components := by
  refine ⟨fun schedule => gathered nonempty apart, fun schedule other interleaves
    otherInterleaves => ⟨fun rule => ?_, ?_⟩⟩
  · have perm := (scheduledTerms_perm atoms.size (fun _ => 0) interleaves otherInterleaves).map
      Prod.snd
    rw [(gathered nonempty apart interleaves).counted,
      (gathered nonempty apart otherInterleaves).counted, Term.tally, perm.countP_eq,
      Term.tally]
  · obtain ⟨_, session, equation, underway, -⟩ :=
      groundConcurrently_eq nonempty apart interleaves
    obtain ⟨_, otherSession, otherEquation, otherUnderway, -⟩ :=
      groundConcurrently_eq nonempty apart otherInterleaves
    rw [equation, otherEquation]
    refine labelClasses_congr underway.grounded.tracks otherUnderway.grounded.tracks ?_
      (scheduledTerms_perm atoms.size (fun _ => 0) interleaves otherInterleaves) underway.held
      otherUnderway.held
    exact AtomStore.isFree_congr (otherUnderway.records.trans underway.records.symm)

end

/-- A batch whose second term names an atom that is not there, and a term of another producer. -/
def samplePrograms : Bool → List (GroundingCall Single)
  | false => [.addAll [ComponentIndex.sampleTerm, ⟨⟨0⟩, .linear, .hard, ⟨0⟩, [⟨3⟩], [⟨0⟩]⟩]]
  | true => [.add ⟨⟨1⟩, .linear, .hard, ⟨0⟩, [⟨1⟩], [⟨0⟩]⟩]

/-- The batch first, or the other producer first. -/
def sampleSchedule (producers : List Bool) : List (Bool × GroundingCall Single) :=
  producers.flatMap fun producer => (samplePrograms producer).map (producer, ·)

/-- The numbers of the two terms are exchanged, and their one component stays the same. -/
theorem concurrent_grounding_sample :
    (groundConcurrently ComponentIndex.sampleAtoms (sampleSchedule [false, true])).2.2.store.terms =
        #[ComponentIndex.sampleTerm, ⟨⟨1⟩, .linear, .hard, ⟨0⟩, [⟨1⟩], [⟨0⟩]⟩] ∧
      (groundConcurrently ComponentIndex.sampleAtoms
          (sampleSchedule [true, false])).2.2.store.terms =
        #[⟨⟨1⟩, .linear, .hard, ⟨0⟩, [⟨1⟩], [⟨0⟩]⟩, ComponentIndex.sampleTerm] ∧
      labelClasses ((scheduledTerms 3 (fun _ => 0) (sampleSchedule [false, true])).map Prod.fst)
          (groundConcurrently ComponentIndex.sampleAtoms
            (sampleSchedule [false, true])).2.2.store.components =
        labelClasses ((scheduledTerms 3 (fun _ => 0) (sampleSchedule [true, false])).map Prod.fst)
          (groundConcurrently ComponentIndex.sampleAtoms
            (sampleSchedule [true, false])).2.2.store.components := by
  have nonempty : ∀ producer, ∀ call ∈ samplePrograms producer, ∀ term ∈ call.terms,
      term.atoms ≠ [] := by decide
  have first : Interleaves samplePrograms (sampleSchedule [false, true]) := by
    rintro (_ | _) <;> rfl
  have second : Interleaves samplePrograms (sampleSchedule [true, false]) := by
    rintro (_ | _) <;> rfl
  refine ⟨by decide +kernel, by decide +kernel, ?_⟩
  exact ((concurrent_grounding samplePrograms nonempty ComponentIndex.sampleAtoms
    (AtomStore.apart_of_singletons rfl)).2 _ _ first second).2

end HingeLoss
