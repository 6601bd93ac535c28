import HingeLoss.Proofs.Database.File
import HingeLoss.Proofs.Solver.Evidence
import HingeLoss.Proofs.Store.Rounds

/-! Loading an atom database never fails and gives back the atoms that were saved last. -/

namespace HingeLoss

/-- What can be asked of an atom database. -/
inductive DatabaseCall where
  | save (atoms : AtomStore Single)
  | load
  | putNote (name : String) (note : Bytes)
  | getNote (name : String)
  | reopen

inductive DatabaseAnswer where
  | saved (answer : Except (StoreFault Single) Nat)
  | loaded (answer : Except (StoreFault Single) (AtomStore Single))
  | done (answer : Except (StoreFault Single) Unit)
  | noted (answer : Except (StoreFault Single) (Option Bytes))

def DatabaseAnswer.isOk : DatabaseAnswer → Bool
  | .saved answer => answer.isOk
  | .loaded answer => answer.isOk
  | .done answer => answer.isOk
  | .noted answer => answer.isOk

/-- Loading and looking for a note do not change the tables. -/
def DatabaseCall.reads : DatabaseCall → Bool
  | .load => true
  | .getNote _ => true
  | _ => false

/-- The atoms that have been saved last. -/
def DatabaseCall.savedAfter (atoms : AtomStore Single) :
    DatabaseCall → DatabaseAnswer → AtomStore Single
  | .save saved, answer => if answer.isOk then saved else atoms
  | _, _ => atoms

/-- The note that has been put last under each name. -/
def DatabaseCall.notesAfter (held : String → Option Bytes) :
    DatabaseCall → DatabaseAnswer → String → Option Bytes
  | .putNote name note, answer =>
      if answer.isOk then Function.update held name (some note) else held
  | _, _ => held

namespace TableLayer

variable {State : Type} (layer : TableLayer State) (coding : RecordCoding)

def respond (state : State) : DatabaseCall → DatabaseAnswer × State
  | .save atoms =>
      let (answer, after) := layer.saveAtoms coding state atoms
      (.saved answer, after)
  | .load => (.loaded (layer.loadAtoms coding state), state)
  | .putNote name note =>
      let (answer, after) := layer.writeNote state name note
      (.done answer, after)
  | .getNote name => (.noted (layer.readNote state name), state)
  | .reopen =>
      let (answer, after) := layer.reopen state
      (.done answer, after)

open AtomTable

variable {layer : TableLayer State} {coding : RecordCoding} {Holds : State → Tables → Prop}
  {Stages : layer.Batch → Tables → Prop} {state : State} {saved : AtomStore Single}
  {held : String → Option Bytes}

/-- A state that holds the atoms that were saved last and the last note of every name. -/
structure Reflects (coding : RecordCoding) (Holds : State → Tables → Prop)
    (saved : AtomStore Single) (held : String → Option Bytes) (state : State) : Prop where
  valid : saved.Valid
  holds : Holds state ⟨ofRecords coding.encoded saved.records.toList, held⟩

/-- The atoms that were saved last can be loaded. -/
theorem Reflects.load (reflects : Reflects coding Holds saved held state)
    (keeps : layer.Keeps Holds Stages) (roundTrips : coding.RoundTrips) :
    ∃ loaded, layer.loadAtoms coding state = .ok loaded ∧
      loaded.records.toList = filed saved.records.toList ∧
      loaded.partition = .singletons loaded.size :=
  keeps.loadAtoms roundTrips (fun record member => reflects.valid record member) reflects.holds

/-- Every call that reads succeeds, and the state holds what each call leaves. -/
theorem Reflects.respond (reflects : Reflects coding Holds saved held state)
    (keeps : layer.Keeps Holds Stages) (roundTrips : coding.RoundTrips) (call : DatabaseCall)
    (valid : ∀ atoms, call = .save atoms → atoms.Valid) :
    let answer := (layer.respond coding state call).1
    (call.reads = true ∨ layer.Willing Holds → answer.isOk = true) ∧
      Reflects coding Holds (call.savedAfter saved answer) (call.notesAfter held answer)
        (layer.respond coding state call).2 := by
  cases call with
  | save atoms =>
      simp only [TableLayer.respond]
      refine ⟨fun granted => ?_, ?_⟩
      · obtain willing : layer.Willing Holds := granted.resolve_left (by simp [DatabaseCall.reads])
        rw [willing.saveAtoms roundTrips reflects.holds]
        rfl
      · rcases keeps.saveAtoms roundTrips reflects.holds atoms with
          ⟨done, after⟩ | ⟨⟨fault, failed⟩, same⟩
        · rw [done]
          exact ⟨valid atoms rfl, after⟩
        · rw [failed]
          exact ⟨reflects.valid, same⟩
  | load =>
      obtain ⟨loaded, read, -⟩ := reflects.load keeps roundTrips
      refine ⟨fun _ => ?_, reflects⟩
      simp only [TableLayer.respond, read]
      rfl
  | putNote name note =>
      simp only [TableLayer.respond]
      refine ⟨fun granted => ?_, ?_⟩
      · obtain willing : layer.Willing Holds := granted.resolve_left (by simp [DatabaseCall.reads])
        rw [willing.writeNote reflects.holds]
        rfl
      · rcases keeps.writeNote reflects.holds name note with
          ⟨done, after⟩ | ⟨⟨fault, failed⟩, same⟩
        · rw [done]
          exact ⟨reflects.valid, after⟩
        · rw [failed]
          exact ⟨reflects.valid, same⟩
  | getNote name =>
      refine ⟨fun _ => ?_, reflects⟩
      simp only [TableLayer.respond, keeps.readNote reflects.holds]
      rfl
  | reopen =>
      simp only [TableLayer.respond]
      refine ⟨fun granted => ?_, reflects.valid, keeps.reopened reflects.holds⟩
      obtain willing : layer.Willing Holds := granted.resolve_left (by simp [DatabaseCall.reads])
      rw [willing.reopens reflects.holds]
      rfl

/-- The same holds of all calls. -/
theorem Reflects.performAll (reflects : Reflects coding Holds saved held state)
    (keeps : layer.Keeps Holds Stages) (roundTrips : coding.RoundTrips) {calls : List DatabaseCall}
    (valid : ∀ atoms, .save atoms ∈ calls → atoms.Valid) :
    let run := performAll (layer.respond coding) state calls
    (∀ entry ∈ calls.zip run.1, entry.1.reads = true ∨ layer.Willing Holds →
      entry.2.isOk = true) ∧
      Reflects coding Holds (HingeLoss.notes DatabaseCall.savedAfter saved calls run.1)
        (HingeLoss.notes DatabaseCall.notesAfter held calls run.1) run.2 := by
  induction calls generalizing state saved held with
  | nil => exact ⟨by simp, reflects⟩
  | cons call later inductionHypothesis =>
      obtain ⟨granted, after⟩ := reflects.respond keeps roundTrips call fun atoms same =>
        valid atoms (same ▸ List.mem_cons_self)
      obtain ⟨others, last⟩ := inductionHypothesis after fun atoms member =>
        valid atoms (List.mem_cons_of_mem _ member)
      refine ⟨?_, last⟩
      rw [performAll_cons]
      exact List.forall_mem_cons.mpr ⟨granted, others⟩

end TableLayer

/-- Loading never fails and gives back the atoms that were saved last, bit for bit and in order, each
in a set of its own, and a name has the note that was put under it last. -/
theorem saved_atoms_load_back {State : Type} {layer : TableLayer State} {coding : RecordCoding}
    {Holds : State → Tables → Prop} {Stages : layer.Batch → Tables → Prop}
    (keeps : layer.Keeps Holds Stages) (roundTrips : coding.RoundTrips) {opened : State}
    (fresh : Holds opened .empty) (calls : List DatabaseCall)
    (lived : ∀ atoms, .save atoms ∈ calls → ∃ registered, AtomStore.Lived registered atoms) :
    let run := performAll (layer.respond coding) opened calls
    let saved := notes DatabaseCall.savedAfter .empty calls run.1
    (∀ entry ∈ calls.zip run.1, entry.1.reads = true ∨ layer.Willing Holds →
      entry.2.isOk = true) ∧
      (∃ loaded, layer.respond coding run.2 .load = (.loaded (.ok loaded), run.2) ∧
        loaded.records.toList = AtomTable.filed saved.records.toList ∧
        loaded.partition = .singletons loaded.size ∧
        (saved.size ≤ UInt32.size → loaded.records = saved.records)) ∧
      ∀ name, layer.respond coding run.2 (.getNote name) =
        (.noted (.ok (notes DatabaseCall.notesAfter (fun _ => none) calls run.1 name)), run.2) := by
  intro run saved
  have start : TableLayer.Reflects coding Holds .empty (fun _ => none) opened :=
    ⟨fun _ member => absurd member List.not_mem_nil, fresh⟩
  obtain ⟨granted, reflects⟩ := start.performAll keeps roundTrips fun atoms member =>
    (lived atoms member).choose_spec.faithful.valid
  obtain ⟨loaded, read, records, alone⟩ := reflects.load keeps roundTrips
  refine ⟨granted, ⟨loaded, congrArg (fun answer => (DatabaseAnswer.loaded answer, run.2)) read,
    records, alone, fun numbered => ?_⟩, fun name =>
      congrArg (fun answer => (DatabaseAnswer.noted answer, run.2))
        (keeps.readNote reflects.holds name)⟩
  apply Array.toList_inj.mp
  rw [records]
  exact AtomTable.filed_eq_self (by rw [Array.length_toList]; exact numbered)

/-- Three atoms are saved in a file, and then two of which one has taken another value. A note is put
twice under a name, and the database is opened again in between. -/
theorem saved_atoms_load_back_sample :
    let folder : Path := ⟨"home/atoms", ["home", "atoms"], false⟩
    let three : AtomStore Single := ((AtomStore.empty.change (.register ⟨⟨0x3f000000⟩, false⟩)).change
      (.register ⟨1, true⟩)).change (.register ⟨0, false⟩)
    let two : AtomStore Single := ((AtomStore.empty.change (.register ⟨⟨0x3f000000⟩, false⟩)).change
      (.register ⟨1, true⟩)).change (.assign ⟨0⟩ ⟨0x3e800000⟩)
    let calls : List DatabaseCall :=
      [.save three, .putNote "last" [1], .reopen, .save two, .load, .putNote "last" [2], .reopen]
    let respond := DatabaseFile.layer.respond .packed
    ∃ tables left, AtomDatabase.openOn (Folder.fresh "home") folder = (.ok tables, left) ∧
      let run := performAll respond ⟨tables, folder, left⟩ calls
      (∀ answer ∈ run.1, answer.isOk = true) ∧
      (∃ loaded, respond run.2 .load = (.loaded (.ok loaded), run.2) ∧
        loaded.records.toList = [⟨⟨0x3e800000⟩, false⟩, ⟨1, true⟩] ∧
        loaded.partition = .singletons loaded.size) ∧
      respond run.2 (.getNote "last") = (.noted (.ok (some [2])), run.2) := by
  intro folder three two calls respond
  have missing : ((Folder.fresh "home").ensureFolder folder).2.readAt
      (folder.child AtomDatabase.fileName) = .error .notFound := by
    decide +kernel
  have ready : (AtomDatabase.openOn (Folder.fresh "home") folder).1.toOption.isSome = true := by
    decide +kernel
  generalize opening : AtomDatabase.openOn (Folder.fresh "home") folder = outcome at ready
  obtain ⟨_ | tables, left⟩ := outcome
  · cases ready
  have livedThree : ∃ registered, AtomStore.Lived registered three :=
    ⟨_, ((AtomStore.Lived.empty.change _).change _).change _⟩
  have livedTwo : ∃ registered, AtomStore.Lived registered two :=
    ⟨_, ((AtomStore.Lived.empty.change _).change _).change _⟩
  have lived : ∀ atoms, .save atoms ∈ calls → ∃ registered, AtomStore.Lived registered atoms := by
    intro atoms member
    simp only [calls, List.mem_cons, DatabaseCall.save.injEq, reduceCtorEq, false_or, or_false,
      List.not_mem_nil] at member
    rcases member with rfl | rfl
    · exact livedThree
    · exact livedTwo
  obtain ⟨granted, ⟨loaded, read, -, alone, same⟩, held⟩ :=
    saved_atoms_load_back DatabaseFile.layer_keeps RecordCoding.packed_roundTrips
      (DatabaseFile.holds_of_missing missing opening) calls lived
  simp only [calls, performAll_cons, List.zip_cons_cons, List.forall_mem_cons,
    DatabaseFile.layer_willing, or_true, true_implies] at granted
  obtain ⟨first, second, third, fourth, fifth, sixth, seventh, -⟩ := granted
  have last : notes DatabaseCall.savedAfter .empty calls
      (performAll respond ⟨tables, folder, left⟩ calls).1 = two := by
    simp only [HingeLoss.notes, calls, performAll_cons, List.zip_cons_cons, List.foldl_cons,
      DatabaseCall.savedAfter, respond, fourth, if_true]
    rfl
  have noted : notes DatabaseCall.notesAfter (fun _ => none) calls
      (performAll respond ⟨tables, folder, left⟩ calls).1 "last" = some [2] := by
    simp only [HingeLoss.notes, calls, performAll_cons, List.zip_cons_cons, List.foldl_cons,
      DatabaseCall.notesAfter, respond, sixth, if_true]
    exact Function.update_self ..
  refine ⟨tables, left, rfl, ?_, ⟨loaded, read, ?_, alone⟩, ?_⟩
  · simp only [calls, performAll_cons, List.forall_mem_cons]
    exact ⟨first, second, third, fourth, fifth, sixth, seventh, by simp [performAll]⟩
  · rw [same (by rw [last]; decide +kernel), last]
    decide +kernel
  · exact (held "last").trans (by rw [noted])

end HingeLoss
