import HingeLoss.Proofs.Database.Table

/-! What an atom database relies on its layer of tables for, and what it makes of it. -/

namespace HingeLoss

/-- The records by number and the notes by name. -/
structure Tables where
  records : UInt32 → Option Bytes
  notes : String → Option Bytes

namespace Tables

def empty : Tables := ⟨fun _ => none, fun _ => none⟩

def putRecord (tables : Tables) (number : UInt32) (bytes : Bytes) : Tables :=
  { tables with records := Function.update tables.records number (some bytes) }

def putNote (tables : Tables) (name : String) (note : Bytes) : Tables :=
  { tables with notes := Function.update tables.notes name (some note) }

end Tables

namespace TableLayer

variable {State : Type} {layer : TableLayer State} {Holds : State → Tables → Prop}
  {Stages : layer.Batch → Tables → Prop}

/-- The tables are ordered maps that are read as they were committed last. A batch is committed as a
whole or not at all, and what has been committed is there when the database is opened again. -/
structure Keeps (layer : TableLayer State) (Holds : State → Tables → Prop)
    (Stages : layer.Batch → Tables → Prop) : Prop where
  begun {state : State} {tables : Tables} {batch : layer.Batch} (holds : Holds state tables) :
    layer.begin state = .ok batch → Stages batch tables
  dropped {batch after : layer.Batch} {tables : Tables} (stages : Stages batch tables) :
    layer.dropRecords batch = .ok after → Stages after { tables with records := fun _ => none }
  madeRecords {batch after : layer.Batch} {tables : Tables} (stages : Stages batch tables) :
    layer.makeRecords batch = .ok after → Stages after tables
  recorded {batch after : layer.Batch} {tables : Tables} {number : UInt32} {bytes : Bytes}
    (stages : Stages batch tables) :
    layer.putRecord batch number bytes = .ok after → Stages after (tables.putRecord number bytes)
  madeNotes {batch after : layer.Batch} {tables : Tables} (stages : Stages batch tables) :
    layer.makeNotes batch = .ok after → Stages after tables
  noted {batch after : layer.Batch} {tables : Tables} {name : String} {note : Bytes}
    (stages : Stages batch tables) :
    layer.putNote batch name note = .ok after → Stages after (tables.putNote name note)
  committed {state after : State} {tables changed : Tables} {batch : layer.Batch}
    (holds : Holds state tables) (stages : Stages batch changed) :
    layer.commit state batch = (.ok (), after) → Holds after changed
  rolledBack {state after : State} {tables : Tables} {batch : layer.Batch} {fault : SystemFault}
    (holds : Holds state tables) :
    layer.commit state batch = (.error fault, after) → Holds after tables
  reopened {state : State} {tables : Tables} (holds : Holds state tables) :
    Holds (layer.reopen state).2 tables
  listed {state : State} {tables : Tables} (holds : Holds state tables) :
    ∃ view, layer.view state = .ok view ∧
      ((layer.records view = .ok none ∧ ∀ number, tables.records number = none) ∨
        ∃ count entries, layer.records view = .ok (some ⟨.ok count, .ok (entries.map .ok)⟩) ∧
          Lists entries tables.records)
  found {state : State} {tables : Tables} (holds : Holds state tables) :
    ∃ view, layer.view state = .ok view ∧
      ((layer.notes view = .ok none ∧ ∀ name, tables.notes name = none) ∨
        ∃ note?, layer.notes view = .ok (some note?) ∧ ∀ name, note? name = .ok (tables.notes name))

/-- No change of the tables and no opening is refused. -/
structure Willing (layer : TableLayer State) (Holds : State → Tables → Prop) : Prop where
  begins {state : State} {tables : Tables} (holds : Holds state tables) :
    ∃ batch, layer.begin state = .ok batch
  drops (batch : layer.Batch) : ∃ after, layer.dropRecords batch = .ok after
  makesRecords (batch : layer.Batch) : ∃ after, layer.makeRecords batch = .ok after
  records (batch : layer.Batch) (number : UInt32) (bytes : Bytes) :
    ∃ after, layer.putRecord batch number bytes = .ok after
  makesNotes (batch : layer.Batch) : ∃ after, layer.makeNotes batch = .ok after
  notes (batch : layer.Batch) (name : String) (note : Bytes) :
    ∃ after, layer.putNote batch name note = .ok after
  commits {state : State} {tables : Tables} (holds : Holds state tables) (batch : layer.Batch) :
    ∃ after, layer.commit state batch = (.ok (), after)
  reopens {state : State} {tables : Tables} (holds : Holds state tables) :
    (layer.reopen state).1 = .ok ()

end TableLayer

theorem during_ok {α : Type} (task : String) (value : α) :
    during task (.ok value) = .ok value := rfl

theorem bind_during_ok {α β : Type} {task : String} {answer : Except SystemFault α}
    {next : α → Except (StoreFault Single) β} {result : β}
    (bound : (during task answer >>= next) = .ok result) :
    ∃ value, answer = .ok value ∧ next value = .ok result := by
  cases answer with
  | error fault => cases bound
  | ok value => exact ⟨value, rfl, bound⟩

/-- The bytes of a record under a coding that can write it. -/
def RecordCoding.encoded (coding : RecordCoding) (record : AtomRecord Single) : Bytes :=
  (coding.encode record).toOption.getD []

variable {coding : RecordCoding}

theorem RecordCoding.RoundTrips.encode (roundTrips : coding.RoundTrips)
    (record : AtomRecord Single) : coding.encode record = .ok (coding.encoded record) := by
  obtain ⟨bytes, written, -⟩ := roundTrips record
  rw [RecordCoding.encoded, written]
  rfl

theorem RecordCoding.RoundTrips.decode (roundTrips : coding.RoundTrips)
    (record : AtomRecord Single) : coding.decode? (coding.encoded record) = some record := by
  obtain ⟨bytes, written, decoded⟩ := roundTrips record
  rwa [RecordCoding.encoded, written]

namespace TableLayer

open AtomTable

variable {State : Type} {layer : TableLayer State} {Holds : State → Tables → Prop}
  {Stages : layer.Batch → Tables → Prop} {state after : State} {tables : Tables}
  {batch staged : layer.Batch}

/-- Records that are collected stand under the numbers of their places. -/
theorem Keeps.foldlM_stageRecord (keeps : layer.Keeps Holds Stages)
    (roundTrips : coding.RoundTrips) {entries : List (AtomRecord Single × Nat)}
    (stages : Stages batch tables)
    (collected : entries.foldlM (layer.stageRecord coding) batch = .ok staged) :
    Stages staged
      { tables with records := entries.foldl (file coding.encoded) tables.records } := by
  induction entries generalizing batch tables with
  | nil =>
      cases collected
      exact stages
  | cons entry later inductionHypothesis =>
      rw [List.foldlM_cons, stageRecord, roundTrips.encode, bind_assoc] at collected
      obtain ⟨bytes, same, collected⟩ := bind_during_ok collected
      cases same
      obtain ⟨next, recorded, collected⟩ := bind_during_ok collected
      exact inductionHypothesis (keeps.recorded stages recorded) collected

theorem Keeps.stageAtoms (keeps : layer.Keeps Holds Stages) (roundTrips : coding.RoundTrips)
    (holds : Holds state tables) {atoms : AtomStore Single}
    (collected : layer.stageAtoms coding state atoms = .ok staged) :
    Stages staged { tables with records := ofRecords coding.encoded atoms.records.toList } := by
  rw [TableLayer.stageAtoms] at collected
  obtain ⟨batch, begun, collected⟩ := bind_during_ok collected
  obtain ⟨cleared, dropped, collected⟩ := bind_during_ok collected
  obtain ⟨made, opened, collected⟩ := bind_during_ok collected
  have stages :=
    keeps.madeRecords (keeps.dropped (keeps.begun holds begun) dropped) opened
  have all := keeps.foldlM_stageRecord roundTrips stages collected
  rwa [foldl_file] at all

theorem Keeps.stageNote (keeps : layer.Keeps Holds Stages) (holds : Holds state tables)
    {name : String} {note : Bytes} (collected : layer.stageNote state name note = .ok staged) :
    Stages staged (tables.putNote name note) := by
  rw [TableLayer.stageNote] at collected
  obtain ⟨batch, begun, collected⟩ := bind_during_ok collected
  obtain ⟨made, opened, collected⟩ := bind_during_ok collected
  cases noted : layer.putNote made name note with
  | error fault =>
      rw [noted] at collected
      cases collected
  | ok last =>
      rw [noted] at collected
      cases collected
      exact keeps.noted (keeps.madeNotes (keeps.begun holds begun) opened) noted

/-- What was collected to its end is there after the commit, or all is as it was. -/
theorem Keeps.commitStaged (keeps : layer.Keeps Holds Stages) (holds : Holds state tables)
    {changed : Tables} {collected : Except (StoreFault Single) layer.Batch}
    (stages : ∀ staged, collected = .ok staged → Stages staged changed) :
    ((layer.commitStaged state collected).1 = .ok () ∧
        Holds (layer.commitStaged state collected).2 changed) ∨
      (∃ fault, (layer.commitStaged state collected).1 = .error fault) ∧
        Holds (layer.commitStaged state collected).2 tables := by
  cases collected with
  | error fault => exact .inr ⟨⟨fault, rfl⟩, holds⟩
  | ok staged =>
      rw [TableLayer.commitStaged]
      generalize committed : layer.commit state staged = outcome
      obtain ⟨fault | _, after⟩ := outcome
      · exact .inr ⟨⟨_, rfl⟩, keeps.rolledBack holds committed⟩
      · exact .inl ⟨rfl, keeps.committed holds (stages staged rfl) committed⟩

/-- Atoms are saved, or all is as it was. -/
theorem Keeps.saveAtoms (keeps : layer.Keeps Holds Stages) (roundTrips : coding.RoundTrips)
    (holds : Holds state tables) (atoms : AtomStore Single) :
    let outcome := layer.saveAtoms coding state atoms
    (outcome.1 = .ok atoms.size ∧ Holds outcome.2
        { tables with records := ofRecords coding.encoded atoms.records.toList }) ∨
      (∃ fault, outcome.1 = .error fault) ∧ Holds outcome.2 tables := by
  have committed := keeps.commitStaged holds fun _
      (collected : layer.stageAtoms coding state atoms = .ok _) =>
    keeps.stageAtoms roundTrips holds collected
  simp only [TableLayer.saveAtoms]
  rcases committed with ⟨done, after⟩ | ⟨⟨fault, failed⟩, same⟩
  · rw [done]
    exact .inl ⟨rfl, after⟩
  · rw [failed]
    exact .inr ⟨⟨fault, rfl⟩, same⟩

/-- A note is put under its name, or all is as it was. -/
theorem Keeps.writeNote (keeps : layer.Keeps Holds Stages) (holds : Holds state tables)
    (name : String) (note : Bytes) :
    let outcome := layer.writeNote state name note
    (outcome.1 = .ok () ∧ Holds outcome.2 (tables.putNote name note)) ∨
      (∃ fault, outcome.1 = .error fault) ∧ Holds outcome.2 tables :=
  keeps.commitStaged holds fun _ collected => keeps.stageNote holds collected

/-- The atoms that a table was made of can be loaded. -/
theorem Keeps.loadAtoms (keeps : layer.Keeps Holds Stages) (roundTrips : coding.RoundTrips)
    {records : List (AtomRecord Single)}
    (valid : ∀ record ∈ records, AtomStore.inUnit record.value = true) {notes : String → Option Bytes}
    (holds : Holds state ⟨ofRecords coding.encoded records, notes⟩) :
    ∃ loaded, layer.loadAtoms coding state = .ok loaded ∧
      loaded.records.toList = filed records ∧ loaded.partition = .singletons loaded.size := by
  obtain ⟨loaded, built, read⟩ := foldlM_entries roundTrips.decode
    (fun record member => valid record (mem_of_mem_filed member)) (length_filed_le records)
  obtain ⟨sameRecords, alone⟩ := AtomStore.ofRecords_ok built
  obtain ⟨view, shown, listed⟩ := keeps.listed holds
  have partition : loaded.partition = .singletons loaded.size := by
    rw [alone, ← sameRecords, Array.length_toList]
    rfl
  refine ⟨loaded, ?_, sameRecords, partition⟩
  rw [TableLayer.loadAtoms, shown]
  rcases listed with ⟨missing, nothing⟩ | ⟨count, entries, opened, lists⟩
  · -- a table that was never made lists no records
    have none : filed records = [] := by
      have first : ofRecords coding.encoded records 0 = none := nothing 0
      rw [ofRecords, Option.map_eq_none_iff, List.getElem?_eq_none_iff] at first
      exact List.length_eq_zero_iff.mp (Nat.le_zero.mp first)
    rw [none] at built
    cases built
    simp only [bind, Except.bind, during_ok, missing]
    rfl
  · obtain rfl := lists.unique (lists_ofRecords coding.encoded records)
    simp only [bind, Except.bind, during_ok, opened]
    exact read

theorem Keeps.readNote (keeps : layer.Keeps Holds Stages) (holds : Holds state tables)
    (name : String) : layer.readNote state name = .ok (tables.notes name) := by
  obtain ⟨view, shown, found⟩ := keeps.found holds
  rw [TableLayer.readNote, shown]
  rcases found with ⟨missing, nothing⟩ | ⟨note?, opened, notes⟩
  · simp only [bind, Except.bind, during_ok, missing, nothing]
    rfl
  · simp only [bind, Except.bind, during_ok, opened, notes]

theorem Willing.foldlM_stageRecord (willing : layer.Willing Holds) (roundTrips : coding.RoundTrips)
    (entries : List (AtomRecord Single × Nat)) (batch : layer.Batch) :
    ∃ staged, entries.foldlM (layer.stageRecord coding) batch = .ok staged := by
  induction entries generalizing batch with
  | nil => exact ⟨batch, rfl⟩
  | cons entry later inductionHypothesis =>
      obtain ⟨next, recorded⟩ :=
        willing.records batch entry.2.toUInt32 (coding.encoded entry.1)
      obtain ⟨staged, collected⟩ := inductionHypothesis next
      refine ⟨staged, ?_⟩
      rw [List.foldlM_cons, stageRecord, roundTrips.encode]
      simp only [bind, Except.bind, during_ok, recorded]
      exact collected

theorem Willing.stageAtoms (willing : layer.Willing Holds) (roundTrips : coding.RoundTrips)
    (holds : Holds state tables) (atoms : AtomStore Single) :
    ∃ staged, layer.stageAtoms coding state atoms = .ok staged := by
  obtain ⟨batch, begun⟩ := willing.begins holds
  obtain ⟨cleared, dropped⟩ := willing.drops batch
  obtain ⟨made, opened⟩ := willing.makesRecords cleared
  obtain ⟨staged, collected⟩ :=
    willing.foldlM_stageRecord roundTrips atoms.records.toList.zipIdx made
  refine ⟨staged, ?_⟩
  rw [TableLayer.stageAtoms]
  simp only [bind, Except.bind, during_ok, begun, dropped, opened]
  exact collected

theorem Willing.stageNote (willing : layer.Willing Holds) (holds : Holds state tables)
    (name : String) (note : Bytes) : ∃ staged, layer.stageNote state name note = .ok staged := by
  obtain ⟨batch, begun⟩ := willing.begins holds
  obtain ⟨made, opened⟩ := willing.makesNotes batch
  obtain ⟨staged, noted⟩ := willing.notes made name note
  refine ⟨staged, ?_⟩
  rw [TableLayer.stageNote]
  simp only [bind, Except.bind, during_ok, begun, opened, noted]

theorem Willing.commitStaged (willing : layer.Willing Holds) (holds : Holds state tables)
    (staged : layer.Batch) : (layer.commitStaged state (.ok staged)).1 = .ok () := by
  obtain ⟨after, committed⟩ := willing.commits holds staged
  rw [TableLayer.commitStaged, committed]
  rfl

theorem Willing.saveAtoms (willing : layer.Willing Holds) (roundTrips : coding.RoundTrips)
    (holds : Holds state tables) (atoms : AtomStore Single) :
    (layer.saveAtoms coding state atoms).1 = .ok atoms.size := by
  obtain ⟨staged, collected⟩ := willing.stageAtoms roundTrips holds atoms
  simp only [TableLayer.saveAtoms, collected, willing.commitStaged holds staged]
  rfl

theorem Willing.writeNote (willing : layer.Willing Holds) (holds : Holds state tables)
    (name : String) (note : Bytes) : (layer.writeNote state name note).1 = .ok () := by
  obtain ⟨staged, collected⟩ := willing.stageNote holds name note
  rw [TableLayer.writeNote, collected, willing.commitStaged holds staged]

end TableLayer

end HingeLoss
