import HingeLoss.Proofs.Database.Image
import HingeLoss.Proofs.Database.Layer
import HingeLoss.Proofs.Disk.Place
import HingeLoss.Proofs.Page.File

/-! Tables in memory and tables in a file are layers that an atom database can rely on. -/

namespace HingeLoss

namespace AtomDatabase

/-- What is found in some tables. -/
def tables (database : AtomDatabase) : Tables :=
  ⟨fun number => database.records[number]?, database.note?⟩

theorem find_empty : (fun number : UInt32 => (∅ : Std.TreeMap UInt32 Bytes)[number]?) =
    fun _ => none := by
  funext number
  exact Std.TreeMap.getElem?_emptyc

theorem tables_putRaw (database : AtomDatabase) (number : UInt32) (bytes : Bytes) :
    (database.putRaw number bytes).tables = database.tables.putRecord number bytes := by
  have records : (fun other => (database.putRaw number bytes).records[other]?) =
      Function.update (fun other => database.records[other]?) number (some bytes) := by
    funext other
    rw [putRaw, Std.TreeMap.getElem?_insert]
    by_cases here : other = number
    · rw [here, Function.update_self, if_pos Std.ReflCmp.compare_self]
    · rw [Function.update_of_ne here,
        if_neg fun same => here (Std.LawfulEqCmp.compare_eq_iff_eq.mp same).symm]
  exact congrArg (Tables.mk · database.note?) records

theorem tables_putNote (database : AtomDatabase) (name : String) (note : Bytes) :
    (database.putNote name note).tables = database.tables.putNote name note := by
  have notes : (database.putNote name note).note? =
      Function.update database.note? name (some note) := by
    funext other
    rw [putNote, note?, List.lookup_cons, lookup_filter_ne]
    by_cases here : other = name
    · rw [here, Function.update_self, beq_self_eq_true]
    · have unequal : (other == name) = false := by simpa using here
      rw [unequal, if_neg here, Function.update_of_ne here]
      rfl
  exact congrArg (Tables.mk fun number => database.records[number]?) notes

theorem Same.tables {first second : AtomDatabase} (same : first.Same second) :
    second.tables = first.tables := by
  have records : (fun number : UInt32 => second.records[number]?) =
      fun number => first.records[number]? := by
    funext number
    apply Option.ext
    intro bytes
    have found := (lists_toList second.records).found number bytes
    rw [same.records, (lists_toList first.records).found number bytes] at found
    exact found.symm
  have notes : second.note? = first.note? := by
    funext name
    rw [note?, note?, same.notes]
  rw [AtomDatabase.tables, AtomDatabase.tables, records, notes]

section Layer

variable {State : Type} {held : State → AtomDatabase}
  {commit : State → AtomDatabase → Except SystemFault Unit × State}
  {reopen : State → Except (StoreFault Single) Unit × State} {Sound : State → Prop}

/-- States with tables keep them if commits and openings do. -/
theorem layer_keeps
    (committed : ∀ {state after batch}, Sound state → commit state batch = (.ok (), after) →
      held after = batch ∧ Sound after)
    (rolledBack : ∀ {state after batch fault}, Sound state →
      commit state batch = (.error fault, after) → after = state)
    (reopened : ∀ {state}, Sound state →
      (held state).Same (held (reopen state).2) ∧ Sound (reopen state).2) :
    (layer held commit reopen).Keeps (fun state tables => (held state).tables = tables ∧ Sound state)
      fun batch tables => AtomDatabase.tables batch = tables where
  begun := by
    rintro state _ _ ⟨rfl, -⟩ ⟨⟩
    rfl
  dropped := by
    rintro batch _ _ rfl ⟨⟩
    exact congrArg (Tables.mk · _) find_empty
  madeRecords := by
    rintro batch _ _ rfl ⟨⟩
    rfl
  recorded := by
    rintro batch _ _ number bytes rfl ⟨⟩
    exact tables_putRaw batch number bytes
  madeNotes := by
    rintro batch _ _ rfl ⟨⟩
    rfl
  noted := by
    rintro batch _ _ name note rfl ⟨⟩
    exact tables_putNote batch name note
  committed := by
    rintro state after _ _ batch ⟨-, sound⟩ rfl done
    obtain ⟨rfl, stillSound⟩ := committed sound done
    exact ⟨rfl, stillSound⟩
  rolledBack := by
    rintro state after _ batch fault ⟨rfl, sound⟩ failed
    obtain rfl := rolledBack sound failed
    exact ⟨rfl, sound⟩
  reopened := by
    rintro state _ ⟨rfl, sound⟩
    obtain ⟨same, stillSound⟩ := reopened sound
    exact ⟨same.tables, stillSound⟩
  listed := by
    rintro state _ ⟨rfl, -⟩
    exact ⟨held state, rfl, .inr ⟨_, _, rfl, lists_toList (held state).records⟩⟩
  found := by
    rintro state _ ⟨rfl, -⟩
    exact ⟨held state, rfl, .inr ⟨_, rfl, fun _ => rfl⟩⟩

/-- Such states refuse nothing if commits and openings do not. -/
theorem layer_willing (commits : ∀ {state}, Sound state → ∀ batch, ∃ after,
      commit state batch = (.ok (), after))
    (reopens : ∀ {state}, Sound state → (reopen state).1 = .ok ()) :
    (layer held commit reopen).Willing fun state tables =>
      (held state).tables = tables ∧ Sound state where
  begins _ := ⟨_, rfl⟩
  drops _ := ⟨_, rfl⟩
  makesRecords _ := ⟨_, rfl⟩
  records _ _ _ := ⟨_, rfl⟩
  makesNotes _ := ⟨_, rfl⟩
  notes _ _ _ := ⟨_, rfl⟩
  commits holds batch := commits holds.2 batch
  reopens holds := reopens holds.2

end Layer

theorem isName_fileName : Folder.IsName fileName :=
  ⟨by decide, by decide, by decide⟩

end AtomDatabase

/-- Records are packed without loss. -/
theorem RecordCoding.packed_roundTrips : packed.RoundTrips := by
  rintro ⟨⟨bits⟩, _ | _⟩
  all_goals
    refine ⟨_, rfl, ?_⟩
    simp [packed, Bytes.ofUInt32, Bytes.toUInt32_place]

namespace DatabaseFile

open AtomDatabase

/-- The tables stand in their file. -/
def Stored (file : DatabaseFile) : Prop :=
  file.disk.Stands file.folder fileName file.tables.toBytes

variable {file : DatabaseFile}

theorem Stored.commit (stored : file.Stored) (changed : AtomDatabase) :
    ∃ disk, file.commit changed = (.ok (), { file with tables := changed, disk }) ∧
      Stored { file with tables := changed, disk } := by
  obtain ⟨disk, wrote, stands⟩ := stored.writeAt isName_fileName changed.toBytes
  exact ⟨disk, by rw [DatabaseFile.commit, wrote], stands⟩

/-- Tables that are opened again list what they listed, and the disk stays as it is. -/
theorem Stored.reopen (stored : file.Stored) :
    ∃ held, file.reopen = (.ok (), { file with tables := held }) ∧ file.tables.Same held ∧
      Stored { file with tables := held } := by
  obtain ⟨held, read, same⟩ := ofFile_toBytes file.tables
  refine ⟨held, ?_, same, ?_⟩
  · simp only [DatabaseFile.reopen, openOn, create, stored.ensureFolder,
      stored.readAt isName_fileName, read, during_ok]
  · change file.disk.Stands file.folder fileName held.toBytes
    rw [same.toBytes]
    exact stored

/-- The state of a file holds the tables that stand in it. -/
def Holds (file : DatabaseFile) (tables : Tables) : Prop :=
  file.tables.tables = tables ∧ file.Stored

theorem layer_keeps : layer.Keeps Holds fun batch tables => AtomDatabase.tables batch = tables := by
  apply AtomDatabase.layer_keeps
  · intro file after batch stored committed
    obtain ⟨disk, same, stands⟩ := stored.commit batch
    rw [same] at committed
    cases committed
    exact ⟨rfl, stands⟩
  · intro file after batch fault stored failed
    obtain ⟨disk, same, -⟩ := stored.commit batch
    rw [same] at failed
    cases failed
  · intro file stored
    obtain ⟨held, opened, same, stands⟩ := stored.reopen
    rw [opened]
    exact ⟨same, stands⟩

theorem layer_willing : layer.Willing Holds := by
  apply AtomDatabase.layer_willing
  · intro file stored batch
    obtain ⟨disk, committed, -⟩ := stored.commit batch
    exact ⟨_, committed⟩
  · intro file stored
    obtain ⟨held, opened, -⟩ := stored.reopen
    rw [opened]

/-- Where no file was, one without tables is made. -/
theorem holds_of_missing {tables : AtomDatabase} {disk left : Folder} {folder : Path}
    (missing : (disk.ensureFolder folder).2.readAt (folder.child fileName) = .error .notFound)
    (opened : openOn disk folder = (.ok tables, left)) :
    Holds ⟨tables, folder, left⟩ .empty := by
  rw [openOn] at opened
  generalize disk.ensureFolder folder = made at missing opened
  obtain ⟨_ | _, ready⟩ := made
  · cases opened
  · dsimp only at missing opened
    rw [create, missing] at opened
    dsimp only at opened
    split at opened
    · rename_i after wrote
      cases opened
      exact ⟨congrArg (Tables.mk · _) find_empty,
        Folder.stands_of_writeAt isName_fileName missing wrote⟩
    · cases opened

end DatabaseFile

end HingeLoss
