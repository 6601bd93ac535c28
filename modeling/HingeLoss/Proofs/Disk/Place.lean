import HingeLoss.Disk.System
import HingeLoss.Proofs.Page.File

/-! Files below a folder of a disk stand at their paths until they are written again. -/

namespace HingeLoss

namespace Folder

variable {disk after entries written : Folder} {place : List String}

theorem enter_nil (disk : Folder) : disk.enter [] = .ok disk := rfl

theorem enter_cons (disk : Folder) (name : String) (rest : List String) :
    disk.enter (name :: rest) =
      match disk.get? name with
      | none => .error .notFound
      | some (.folder inner) => enter inner rest
      | some _ => .error .notFolder := by
  rw [enter, lookup]
  cases disk.get? name with
  | none => rfl
  | some node =>
      cases node with
      | folder inner => rfl
      | file bytes => cases rest <;> rfl
      | sink => cases rest <;> rfl

/-- What is entered step by step is entered at once. -/
theorem enter_append (disk : Folder) (place rest : List String) :
    disk.enter (place ++ rest) = (disk.enter place).bind fun entries => entries.enter rest := by
  induction place generalizing disk with
  | nil => rfl
  | cons name later inductionHypothesis =>
      rw [List.cons_append, enter_cons, enter_cons]
      cases disk.get? name with
      | none => rfl
      | some node =>
          cases node with
          | folder inner => exact inductionHypothesis inner
          | file bytes => rfl
          | sink => rfl

theorem exists_enter_of_append {rest : List String}
    (entered : disk.enter (place ++ rest) = .ok entries) :
    ∃ above, disk.enter place = .ok above ∧ above.enter rest = .ok entries := by
  rw [enter_append] at entered
  cases found : disk.enter place with
  | error fault =>
      rw [found] at entered
      cases entered
  | ok above =>
      rw [found] at entered
      exact ⟨above, rfl, entered⟩

theorem enter_update (found : disk.enter place = .ok entries) :
    (disk.update place fun _ => written).enter place = .ok written := by
  induction place generalizing disk with
  | nil => rfl
  | cons name rest inductionHypothesis =>
      rw [enter_cons] at found
      cases held : disk.get? name with
      | none =>
          rw [held] at found
          cases found
      | some node =>
          rw [held] at found
          cases node with
          | folder inner =>
              rw [update, held, enter_cons, get?_put, if_pos rfl]
              exact inductionHypothesis found
          | file bytes => cases found
          | sink => cases found

/-- Every folder of a disk is still there. -/
def Covers (disk after : Folder) : Prop :=
  ∀ place entries, disk.enter place = .ok entries → ∃ others, after.enter place = .ok others

/-- A file is written where no folder is. -/
theorem covers_of_write {name : String} {bytes : Bytes}
    (wrote : entries.write name bytes = .ok written) : Covers entries written := by
  intro place inner entered
  cases place with
  | nil => exact ⟨written, rfl⟩
  | cons step rest =>
      rw [enter_cons] at entered ⊢
      by_cases here : step = name
      · subst here
        unfold write at wrote
        split at wrote
        · cases wrote
        · rename_i held
          rw [held] at entered
          cases entered
        · rename_i notFolder notSink
          cases held : entries.get? step with
          | none =>
              rw [held] at entered
              cases entered
          | some node =>
              rw [held] at entered
              cases node with
              | folder inner => exact absurd held (notFolder inner)
              | file bytes => cases entered
              | sink => cases entered
      · rw [get?_write_of_ne wrote here]
        exact ⟨inner, entered⟩

/-- A folder may be replaced by one that has the same folders. -/
theorem covers_update (found : disk.enter place = .ok entries) (covers : Covers entries written) :
    Covers disk (disk.update place fun _ => written) := by
  induction place generalizing disk with
  | nil =>
      cases found
      exact covers
  | cons name rest inductionHypothesis =>
      rw [enter_cons] at found
      cases held : disk.get? name with
      | none =>
          rw [held] at found
          cases found
      | some node =>
          rw [held] at found
          cases node with
          | file bytes => cases found
          | sink => cases found
          | folder inner =>
              intro path others entered
              cases path with
              | nil => exact ⟨_, rfl⟩
              | cons step later =>
                  rw [update, held, enter_cons, get?_put]
                  rw [enter_cons] at entered
                  by_cases here : step = name
                  · subst here
                    rw [held] at entered
                    rw [if_pos rfl]
                    exact inductionHypothesis found later others entered
                  · rw [if_neg here]
                    exact ⟨others, entered⟩

theorem walk_append (disk : Folder) (place first second : List String) :
    disk.walk place (first ++ second) =
      (disk.walk place first).bind fun reached => disk.walk reached second := by
  induction first generalizing place with
  | nil => rfl
  | cons step later inductionHypothesis =>
      rw [List.cons_append, walk, walk]
      split
      · exact inductionHypothesis place
      · split
        · exact inductionHypothesis place.dropLast
        · split
          · rfl
          · split
            · rfl
            · exact inductionHypothesis _

/-- A walk leads to the same place as long as every folder is there. -/
theorem Covers.walk (covers : Covers disk after) {steps reached : List String}
    (walked : disk.walk place steps = .ok reached) : after.walk place steps = .ok reached := by
  induction steps generalizing place with
  | nil => exact walked
  | cons step later inductionHypothesis =>
      rw [Folder.walk] at walked ⊢
      split at walked
      · rw [if_pos ‹_›]
        exact inductionHypothesis walked
      · rw [if_neg ‹_›]
        split at walked
        · rw [if_pos ‹_›]
          exact inductionHypothesis walked
        · rw [if_neg ‹_›]
          split at walked
          · cases walked
          · rw [if_neg ‹_›]
            split at walked
            · cases walked
            · rename_i inner entered
              obtain ⟨others, stillEntered⟩ := covers _ _ entered
              rw [stillEntered]
              exact inductionHypothesis walked

/-- A walk from a folder ends in a folder. -/
theorem exists_enter_of_walk {steps reached : List String}
    (start : ∃ entries, disk.enter place = .ok entries)
    (walked : disk.walk place steps = .ok reached) :
    ∃ entries, disk.enter reached = .ok entries := by
  induction steps generalizing place with
  | nil =>
      cases walked
      exact start
  | cons step later inductionHypothesis =>
      rw [Folder.walk] at walked
      split at walked
      · exact inductionHypothesis start walked
      · split at walked
        · refine inductionHypothesis ?_ walked
          obtain ⟨entries, entered⟩ := start
          rcases List.eq_nil_or_concat place with rfl | ⟨front, last, rfl⟩
          · exact ⟨entries, entered⟩
          · rw [List.concat_eq_append] at entered ⊢
            obtain ⟨above, enteredAbove, -⟩ := exists_enter_of_append entered
            exact ⟨above, by rw [List.dropLast_concat]; exact enteredAbove⟩
        · split at walked
          · cases walked
          · split at walked
            · cases walked
            · rename_i inner entered
              exact inductionHypothesis ⟨inner, entered⟩ walked

/-- The system takes the text as a name of an entry. -/
structure IsName (name : String) : Prop where
  notStay : name ≠ "."
  notBack : name ≠ ".."
  short : name.utf8ByteSize ≤ nameBytes

/-- The folder at a path, found at a place, in which entries can be named. -/
structure Found (disk : Folder) (folder : Path) (name : String) (place : List String)
    (entries : Folder) : Prop where
  checked : (folder.child name).check = .ok ()
  walked : disk.walk [] folder.steps = .ok place
  entered : disk.enter place = .ok entries

/-- A file with some bytes stands under a name in the folder at a path. -/
def Stands (disk : Folder) (folder : Path) (name : String) (bytes : Bytes) : Prop :=
  ∃ place entries, disk.Found folder name place entries ∧ entries.get? name = some (.file bytes)

variable {folder : Path} {name : String} {bytes : Bytes}

/-- A path below a folder can be followed exactly if the folder can. -/
theorem locate_child (isName : IsName name) {outcome : Folder × List String × Option String} :
    disk.locate (folder.child name) = .ok outcome ↔
      ∃ place entries, disk.Found folder name place entries ∧
        outcome = (entries, place, some name) := by
  have front : (folder.child name).steps.dropLast = folder.steps := List.dropLast_concat
  have last : (folder.child name).steps.getLast? = some name := List.getLast?_concat
  have plain : (name = "." || name = "..") = false := by
    simp [isName.notStay, isName.notBack]
  have short : ¬ nameBytes < name.utf8ByteSize := Nat.not_lt.mpr isName.short
  simp only [locate, front, last, plain, short, Bool.false_eq_true, if_false, bind, Except.bind,
    pure, Except.pure]
  constructor
  · intro located
    split at located
    · cases located
    · rename_i checked
      split at located
      · cases located
      · rename_i place walked
        split at located
        · cases located
        · rename_i entries entered
          exact ⟨place, entries, ⟨checked, walked, entered⟩, (Except.ok.inj located).symm⟩
  · rintro ⟨place, entries, found, rfl⟩
    rw [found.checked]
    dsimp only
    rw [found.walked]
    dsimp only
    rw [found.entered]

/-- What stands at a path is read there. -/
theorem Stands.readAt (isName : IsName name) (stands : disk.Stands folder name bytes) :
    disk.readAt (folder.child name) = .ok bytes := by
  obtain ⟨place, entries, found, held⟩ := stands
  have located := (locate_child isName).mpr ⟨place, entries, found, rfl⟩
  have read : entries.read name = .ok bytes := by rw [read, held]
  simp only [Folder.readAt, located, read, bind, Except.bind, pure, Except.pure]
  rfl

/-- A file is written into a folder that is found, and stands there from then on. -/
theorem Found.writeAt (isName : IsName name) (found : disk.Found folder name place entries)
    (wrote : entries.write name bytes = .ok written)
    (held : written.get? name = some (.file bytes)) :
    ∃ after, disk.writeAt (folder.child name) bytes = .ok after ∧
      after.Stands folder name bytes := by
  have located := (locate_child isName).mpr ⟨place, entries, found, rfl⟩
  refine ⟨disk.update place fun _ => written, ?_, place, written, ?_, held⟩
  · simp only [Folder.writeAt, located, wrote, bind, Except.bind, pure, Except.pure]
    rfl
  · exact ⟨found.checked, (covers_update found.entered (covers_of_write wrote)).walk found.walked,
      enter_update found.entered⟩

/-- A file that stands can be replaced. -/
theorem Stands.writeAt (isName : IsName name) (stands : disk.Stands folder name bytes)
    (other : Bytes) :
    ∃ after, disk.writeAt (folder.child name) other = .ok after ∧
      after.Stands folder name other := by
  obtain ⟨place, entries, found, held⟩ := stands
  have wrote : entries.write name other = .ok (entries.put name (.file other)) := by
    rw [write, held]
  exact found.writeAt isName wrote (by rw [get?_put, if_pos rfl])

/-- A file that is written where there was none stands there. -/
theorem stands_of_writeAt (isName : IsName name)
    (missing : disk.readAt (folder.child name) = .error .notFound)
    (wrote : disk.writeAt (folder.child name) bytes = .ok after) :
    after.Stands folder name bytes := by
  cases located : disk.locate (folder.child name) with
  | error fault =>
      simp only [writeAt, located, bind, Except.bind] at wrote
      cases wrote
  | ok outcome =>
      obtain ⟨place, entries, found, rfl⟩ := (locate_child isName).mp located
      have absent : entries.get? name = none := by
        simp only [readAt, located, read, bind, Except.bind, pure, Except.pure] at missing
        cases held : entries.get? name with
        | none => rfl
        | some node =>
            rw [held] at missing
            cases node <;> cases missing
      have fresh : entries.write name bytes = .ok (entries.put name (.file bytes)) := by
        rw [write, absent]
      obtain ⟨written, wroteAgain, stands⟩ :=
        found.writeAt isName fresh (by rw [get?_put, if_pos rfl])
      rw [wrote] at wroteAgain
      cases wroteAgain
      exact stands

/-- A path that the system takes below a folder it takes for the folder. -/
theorem check_of_child (checked : (folder.child name).check = .ok ()) : folder.check = .ok () := by
  have front : ∃ back, (folder.child name).shown = folder.shown ++ back := by
    unfold Path.child Path.glue
    dsimp only
    split
    · exact ⟨name, rfl⟩
    · exact ⟨"/" ++ name, String.append_assoc ..⟩
  obtain ⟨back, shown⟩ := front
  unfold Path.check at checked ⊢
  split at checked
  · cases checked
  · rename_i whole
    split at checked
    · cases checked
    · rename_i short
      rw [shown, String.toList_append, List.contains_eq_mem, decide_eq_true_eq,
        List.mem_append] at whole
      rw [shown, String.utf8ByteSize_append] at short
      rw [if_neg, if_neg]
      · omega
      · rw [List.contains_eq_mem, decide_eq_true_eq]
        exact fun member => whole (.inl member)

/-- A folder that is found cannot be added once more. -/
theorem Found.addFolderAt (found : disk.Found folder name place entries) :
    disk.addFolderAt folder = .error .alreadyExists := by
  have checked := check_of_child found.checked
  have walked := found.walked
  simp only [Folder.addFolderAt, locate, checked, bind, Except.bind, pure, Except.pure]
  rcases List.eq_nil_or_concat folder.steps with none | ⟨front, last, steps⟩
  · simp only [none, List.dropLast_nil, walk, enter_nil, List.getLast?_nil]
  · rw [List.concat_eq_append] at steps
    rw [steps, walk_append] at walked
    rw [steps, List.dropLast_concat, List.getLast?_concat]
    cases reached : disk.walk [] front with
    | error fault =>
        rw [reached] at walked
        cases walked
    | ok above =>
        rw [reached] at walked
        change disk.walk above [last] = .ok place at walked
        obtain ⟨inner, entered⟩ := exists_enter_of_walk ⟨disk, enter_nil disk⟩ reached
        dsimp only
        rw [entered]
        dsimp only
        rw [walk] at walked
        split at walked
        · rename_i stay
          simp [stay]
        · rename_i notStay
          split at walked
          · rename_i back
            simp [back]
          · rename_i notBack
            split at walked
            · cases walked
            · rename_i short
              split at walked
              · cases walked
              · rename_i deepest enteredLast
                obtain ⟨again, enteredAgain, below⟩ := exists_enter_of_append enteredLast
                rw [entered] at enteredAgain
                cases enteredAgain
                have there : ∃ node, inner.get? last = some node := by
                  rw [enter_cons] at below
                  cases held : inner.get? last with
                  | none =>
                      rw [held] at below
                      cases below
                  | some node => exact ⟨node, rfl⟩
                obtain ⟨node, held⟩ := there
                have refused : inner.addFolder last = .error .alreadyExists := by
                  rw [addFolder, held]
                simp [notStay, notBack, short, refused]

/-- A folder that is found need not be made. -/
theorem Found.ensureFolder (found : disk.Found folder name place entries) :
    disk.ensureFolder folder = (.ok (), disk) := by
  have standing : (disk.folderAt folder).isOk = true := by
    simp only [folderAt, placeOf, check_of_child found.checked, found.walked]
    change (disk.enter place).isOk = true
    rw [found.entered]
    rfl
  rw [Folder.ensureFolder, Path.ancestors, addFolders]
  split
  · rfl
  · rw [found.addFolderAt]
    dsimp only
    rw [settle, found.addFolderAt]
    dsimp only
    rw [if_pos standing]

theorem Stands.ensureFolder (stands : disk.Stands folder name bytes) :
    disk.ensureFolder folder = (.ok (), disk) := by
  obtain ⟨place, entries, found, -⟩ := stands
  exact found.ensureFolder

end Folder

end HingeLoss
