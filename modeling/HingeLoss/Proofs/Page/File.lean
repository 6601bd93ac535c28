import HingeLoss.Page.File
import HingeLoss.Proofs.Page.Image

/-! A save that succeeds leaves the image of its page, and no save touches another page. -/

namespace HingeLoss

/-- Without the entries of a key, all other keys are looked up as before. -/
theorem lookup_filter_ne {α β : Type} [DecidableEq α] (entries : List (α × β)) (key other : α) :
    List.lookup other (entries.filter fun entry => entry.1 ≠ key) =
      if other = key then none else List.lookup other entries := by
  induction entries with
  | nil => simp
  | cons entry later inductionHypothesis =>
      obtain ⟨held, value⟩ := entry
      rw [List.filter_cons]
      by_cases removed : held = key
      · subst removed
        by_cases same : other = held
        · simpa [same] using inductionHypothesis
        · have unequal : (other == held) = false := by simpa using same
          simp only [ne_eq, not_true_eq_false, decide_false, Bool.false_eq_true, if_false,
            inductionHypothesis, List.lookup_cons, unequal]
      · by_cases same : other = held
        · simp [same, removed]
        · have unequal : (other == held) = false := by simpa using same
          simp only [ne_eq, removed, not_false_eq_true, decide_true, if_true, List.lookup_cons,
            unequal, inductionHypothesis]

namespace Folder

theorem get?_put (folder : Folder) (name other : String) (node : Node) :
    (folder.put name node).get? other = if other = name then some node else folder.get? other := by
  induction folder with
  | nil =>
      by_cases same : other = name
      · simp [put, get?, same]
      · have unequal : (other == name) = false := by simpa using same
        simp only [put, get?, List.lookup_cons, unequal, same, if_false]
  | cons entry rest inductionHypothesis =>
      obtain ⟨key, value⟩ := entry
      simp only [put, get?] at inductionHypothesis ⊢
      split
      · rename_i found
        subst found
        by_cases same : other = key
        · simp [same]
        · have unequal : (other == key) = false := by simpa using same
          simp only [List.lookup_cons, unequal, same, if_false]
      · rename_i different
        by_cases same : other = key
        · simp [same, different]
        · have unequal : (other == key) = false := by simpa using same
          simp only [List.lookup_cons, unequal, inductionHypothesis]

theorem get?_erase (folder : Folder) (name other : String) :
    (folder.erase name).get? other = if other = name then none else folder.get? other :=
  lookup_filter_ne folder name other

/-- A name is free for a file: nothing or another file stands there. -/
def IsFree (folder : Folder) (name : String) : Prop :=
  folder.get? name = none ∨ ∃ bytes, folder.get? name = some (.file bytes)

/-- A file is written to a free name, nothing is to a sink, and a folder is not replaced. -/
theorem write_cases (folder : Folder) (name : String) (bytes : Bytes) :
    (folder.IsFree name ∧ folder.write name bytes = .ok (folder.put name (.file bytes))) ∨
      (folder.get? name = some .sink ∧ folder.write name bytes = .ok folder) ∨
        (∃ inner, folder.get? name = some (.folder inner)) ∧
          folder.write name bytes = .error .isFolder := by
  unfold write IsFree
  rcases folder.get? name with _ | ⟨_ | _ | _⟩ <;> simp

theorem write_of_isFree {folder : Folder} {name : String} (free : folder.IsFree name)
    (bytes : Bytes) : folder.write name bytes = .ok (folder.put name (.file bytes)) := by
  rcases free with absent | ⟨old, held⟩
  · simp only [write, absent]
  · simp only [write, held]

theorem get?_write_of_ne {folder written : Folder} {name other : String} {bytes : Bytes}
    (wrote : folder.write name bytes = .ok written) (different : other ≠ name) :
    written.get? other = folder.get? other := by
  rcases folder.write_cases name bytes with ⟨-, same⟩ | ⟨-, same⟩ | ⟨-, same⟩
  · rw [same] at wrote
    cases wrote
    rw [get?_put, if_neg different]
  · rw [same] at wrote
    cases wrote
    rfl
  · rw [same] at wrote
    cases wrote

theorem fileSize_put (folder : Folder) (name : String) (bytes : Bytes) :
    (folder.put name (.file bytes)).fileSize name = bytes.length := by
  simp only [fileSize, read, get?_put, if_true]

/-- A file takes every name in whose place no folder stands. -/
theorem rename_put (folder : Folder) {source target : String} (different : target ≠ source)
    (bytes : Bytes) :
    (folder.put source (.file bytes)).rename source target =
      match folder.get? target with
      | some (.folder _) => .error .isFolder
      | _ => .ok (((folder.put source (.file bytes)).erase source).put target (.file bytes)) := by
  rw [rename, get?_put, if_pos rfl, get?_put, if_neg different]
  rcases folder.get? target with _ | ⟨_ | _ | _⟩ <;> rfl

end Folder

namespace FoundFolder

variable {folder : FoundFolder} {entries : Folder}

@[simp] theorem entries_withEntries (folder : FoundFolder) (entries : Folder) :
    (folder.withEntries entries).entries = .ok entries := rfl

@[simp] theorem attempt_withEntries (folder : FoundFolder) (entries : Folder) (step : WriteStep) :
    (folder.withEntries entries).attempt step = folder.attempt step := rfl

@[simp] theorem complete_withEntries (folder : FoundFolder) (entries : Folder) :
    (folder.withEntries entries).complete = folder.complete := rfl

@[simp] theorem kept_withEntries (folder : FoundFolder) (entries : Folder) (bytes : Bytes) :
    (folder.withEntries entries).kept bytes = folder.kept bytes := rfl

@[simp] theorem withEntries_withEntries (folder : FoundFolder) (entries others : Folder) :
    (folder.withEntries entries).withEntries others = folder.withEntries others := rfl

theorem withEntries_self (found : folder.entries = .ok entries) :
    folder.withEntries entries = folder := by
  rw [withEntries, ← found]

theorem attempt_of_refusal_none (willing : folder.refusal = none) (step : WriteStep) :
    folder.attempt step = .ok () := by
  rw [attempt, willing]

theorem complete_of_refusal_none (willing : folder.refusal = none) :
    folder.complete = .ok () := by
  simp only [complete, attempt_of_refusal_none willing]
  rfl

/-- A system that refuses no step of a write refuses nothing. -/
theorem refusal_eq_none (started : folder.attempt .create = .ok ())
    (completed : folder.complete = .ok ()) (moved : folder.attempt .rename = .ok ()) :
    folder.refusal = none := by
  cases refused : folder.refusal with
  | none => rfl
  | some refusal =>
      obtain ⟨step, fault⟩ := refusal
      cases step <;> simp [complete, attempt, refused, bind, Except.bind] at started completed moved

theorem kept_eq_of_length {bytes : Bytes} (whole : (folder.kept bytes).length = bytes.length) :
    folder.kept bytes = bytes := by
  unfold kept at whole ⊢
  cases room : folder.room with
  | none => rfl
  | some count =>
      rw [room, List.length_take] at whole
      exact List.take_of_length_le (by omega)

/-- A new file of a found folder holds what it has room for, unless it is a sink. -/
theorem create_ok {name : String} {bytes : Bytes} {written : Folder}
    (created : folder.create name bytes = .ok written) :
    folder.attempt .create = .ok () ∧ ∃ entries, folder.entries = .ok entries ∧
      ((entries.IsFree name ∧ written = entries.put name (.file (folder.kept bytes))) ∨
        entries.get? name = some .sink ∧ written = entries) := by
  unfold create at created
  cases granted : folder.attempt .create with
  | error fault =>
      rw [granted] at created
      cases created
  | ok _ =>
      cases found : folder.entries with
      | error fault =>
          rw [granted, found] at created
          cases created
      | ok entries =>
          rw [granted, found] at created
          refine ⟨rfl, entries, rfl, ?_⟩
          change entries.write name (folder.kept bytes) = .ok written at created
          rcases entries.write_cases name (folder.kept bytes) with
            ⟨free, wrote⟩ | ⟨sink, wrote⟩ | ⟨-, refused⟩
          · rw [wrote] at created
            cases created
            exact .inl ⟨free, rfl⟩
          · rw [wrote] at created
            cases created
            exact .inr ⟨sink, rfl⟩
          · rw [refused] at created
            cases created

end FoundFolder

/-- Whether a fault says that the system did not take a whole page, or that a header cannot tell the
length of the page. -/
def PageFault.isUnsaved : PageFault → Bool
  | .system _ _ => true
  | .shortWrite _ _ _ => true
  | .corrupt _ (.tooLong _) => true
  | _ => false

namespace Page

/-- The number of a page can be read off the digits of its name. -/
theorem ofDigitChars_padLeft (width index : Nat) :
    Nat.ofDigitChars 10 (Decimal.padLeft width (toString index)).toList 0 = index := by
  simp only [Decimal.padLeft, Decimal.zeros, String.toList_append, String.toList_ofList,
    Nat.ofDigitChars_append, Nat.ofDigitChars_replicate_zero, Nat.mul_zero,
    Nat.toString_eq_ofList_toDigits, Nat.ofDigitChars_ten_toDigits]

theorem fileName_injective {first second : Nat} (same : fileName first = fileName second) :
    first = second := by
  have digits := congrArg String.toList same
  simp only [fileName, String.toList_append, List.append_cancel_left_eq,
    List.append_cancel_right_eq] at digits
  rw [← ofDigitChars_padLeft 6 first, digits, ofDigitChars_padLeft]

theorem fileName_ne_temporaryName (first second : Nat) : fileName first ≠ temporaryName second := by
  intro same
  have backwards := congrArg (fun name => name.toList.reverse) same
  simp [fileName, temporaryName] at backwards

theorem fetch_of_file {directory : Path} {index : Nat} {folder : FoundFolder} {entries : Folder}
    {bytes : Bytes} (found : folder.entries = .ok entries)
    (held : entries.get? (fileName index) = some (.file bytes)) :
    fetch directory index folder = .ok bytes := by
  simp only [fetch, found, Folder.read, held]

/-- Entries that agree on a page's name agree on the page. -/
theorem fetch_congr (directory : Path) {index : Nat} {first second : FoundFolder}
    {before after : Folder} (found : first.entries = .ok before)
    (otherFound : second.entries = .ok after)
    (kept : after.get? (fileName index) = before.get? (fileName index)) :
    fetch directory index second = fetch directory index first := by
  simp only [fetch, found, otherFound, Folder.read, kept]

/-- A page can be written: its header can tell its length, the folder is there, neither of the names
of the page is taken by anything but a file or a sink, the system refuses no step, and the file has
room for the image. -/
def CanSave (index : Nat) (terms : List (Term Single)) (folder : FoundFolder) : Prop :=
  fitsHeader (body terms).length terms.length = true ∧
    ∃ entries : Folder, folder.entries = .ok entries ∧ entries.IsFree (temporaryName index) ∧
      (∀ inner, entries.get? (fileName index) ≠ some (.folder inner)) ∧
      folder.refusal = none ∧ folder.kept (encode terms) = encode terms

variable {directory : Path} {index size : Nat} {terms : List (Term Single)}
  {folder left : FoundFolder} {fault : PageFault}

/-- A page that can be written is, and takes its own name. -/
theorem save_of_canSave (directory : Path) (can : CanSave index terms folder) :
    ∃ entries, folder.entries = .ok entries ∧ save directory index terms folder =
      (.ok (encode terms).length, folder.withEntries
        (((entries.put (temporaryName index) (.file (encode terms))).erase
          (temporaryName index)).put (fileName index) (.file (encode terms)))) := by
  obtain ⟨fits, entries, found, free, file, willing, whole⟩ := can
  refine ⟨entries, found, ?_⟩
  have granted := FoundFolder.attempt_of_refusal_none willing
  have created : folder.create (temporaryName index) (encode terms) =
      .ok (entries.put (temporaryName index) (.file (encode terms))) := by
    rw [FoundFolder.create, granted, found, whole]
    exact Folder.write_of_isFree free _
  have renamed := entries.rename_put (fileName_ne_temporaryName index index) (encode terms)
  have held := entries.fileSize_put (temporaryName index) (encode terms)
  have passed := FoundFolder.complete_of_refusal_none willing
  rw [save]
  simp only [length_encode_sub, fits, Bool.not_true, Bool.false_eq_true, if_false, created, passed,
    held, ne_eq, not_true_eq_false, granted, renamed]

/-- A file that came out whole and was renamed stands for a page that could be written. -/
theorem canSave_of_renamed {written after : Folder}
    (fits : fitsHeader (body terms).length terms.length = true)
    (created : folder.create (temporaryName index) (encode terms) = .ok written)
    (passed : folder.complete = .ok ())
    (whole : written.fileSize (temporaryName index) = (encode terms).length)
    (moved : folder.attempt .rename = .ok ())
    (renamed : written.rename (temporaryName index) (fileName index) = .ok after) :
    CanSave index terms folder := by
  obtain ⟨started, entries, found, ⟨free, rfl⟩ | ⟨sink, rfl⟩⟩ := FoundFolder.create_ok created
  · rw [Folder.fileSize_put] at whole
    rw [Folder.rename_put _ (fileName_ne_temporaryName index index)] at renamed
    refine ⟨fits, entries, found, free, fun inner blocked => ?_,
      FoundFolder.refusal_eq_none started passed moved, FoundFolder.kept_eq_of_length whole⟩
    rw [blocked] at renamed
    cases renamed
  · -- A file that keeps nothing is shorter than the header of a page.
    rw [Folder.fileSize, Folder.read, sink, length_encode, headerBytes] at whole
    simp only [List.length_nil] at whole
    omega

/-- A save that fails has written nothing, or at most the file under the temporary name. One that
does not fail was possible. -/
theorem save_cases (directory : Path) (index : Nat) (terms : List (Term Single))
    (folder : FoundFolder) :
    (∃ fault, fault.isUnsaved = true ∧
      (save directory index terms folder = (.error fault, folder) ∨
        ∃ written, folder.create (temporaryName index) (encode terms) = .ok written ∧
          save directory index terms folder = (.error fault, folder.withEntries written))) ∨
      CanSave index terms folder := by
  rw [save]
  cases fits : fitsHeader (body terms).length terms.length with
  | false =>
      simp only [length_encode_sub, fits, Bool.not_false, if_true]
      exact .inl ⟨_, rfl, .inl rfl⟩
  | true =>
      simp only [length_encode_sub, fits, Bool.not_true, Bool.false_eq_true, if_false]
      cases created : folder.create (temporaryName index) (encode terms) with
      | error fault => exact .inl ⟨_, rfl, .inl rfl⟩
      | ok written =>
          dsimp only
          cases passed : folder.complete with
          | error fault => exact .inl ⟨_, rfl, .inr ⟨written, rfl, rfl⟩⟩
          | ok _ =>
              dsimp only
              split
              · exact .inl ⟨_, rfl, .inr ⟨written, rfl, rfl⟩⟩
              · rename_i whole
                rw [ne_eq, Decidable.not_not] at whole
                cases moved : folder.attempt .rename with
                | error fault => exact .inl ⟨_, rfl, .inr ⟨written, rfl, rfl⟩⟩
                | ok _ =>
                    dsimp only
                    cases renamed : written.rename (temporaryName index) (fileName index) with
                    | error fault => exact .inl ⟨_, rfl, .inr ⟨written, rfl, rfl⟩⟩
                    | ok after =>
                        exact .inr (canSave_of_renamed fits created passed whole moved renamed)

theorem canSave_of_save (saved : save directory index terms folder = (.ok size, left)) :
    CanSave index terms folder := by
  rcases save_cases directory index terms folder with
    ⟨_, -, same | ⟨_, -, same⟩⟩ | can
  · simp [same] at saved
  · simp [same] at saved
  · exact can

/-- A page is written exactly if it can be. -/
theorem save_isOk_iff (directory : Path) (index : Nat) (terms : List (Term Single))
    (folder : FoundFolder) :
    (save directory index terms folder).1.isOk = true ↔ CanSave index terms folder := by
  constructor
  · intro succeeds
    cases saved : save directory index terms folder with
    | mk answer left =>
        cases answer with
        | error fault => simp [saved, Except.isOk, Except.toBool] at succeeds
        | ok size => exact canSave_of_save saved
  · intro can
    obtain ⟨entries, -, saved⟩ := save_of_canSave directory can
    rw [saved]
    rfl

theorem isUnsaved_of_save (failed : save directory index terms folder = (.error fault, left)) :
    fault.isUnsaved = true := by
  rcases save_cases directory index terms folder with
    ⟨_, unsaved, same | ⟨_, -, same⟩⟩ | can
  · rw [same] at failed
    cases failed
    exact unsaved
  · rw [same] at failed
    cases failed
    exact unsaved
  · obtain ⟨entries, -, saved⟩ := save_of_canSave directory can
    rw [saved] at failed
    cases failed

/-- What a successful save has done: the page fits its header, its image can be fetched, and all
other pages are as they were. -/
theorem save_ok (saved : save directory index terms folder = (.ok size, left)) :
    fitsHeader (body terms).length terms.length = true ∧
      fetch directory index left = .ok (encode terms) ∧
      ∀ other, other ≠ index → fetch directory other left = fetch directory other folder := by
  have can := canSave_of_save saved
  obtain ⟨entries, found, same⟩ := save_of_canSave directory can
  rw [same] at saved
  obtain ⟨-, rfl⟩ := Prod.mk.inj saved
  refine ⟨can.1, ?_, fun other different => ?_⟩
  · apply fetch_of_file rfl
    rw [Folder.get?_put, if_pos rfl]
  · apply fetch_congr directory found rfl
    rw [Folder.get?_put, if_neg fun same => different (fileName_injective same), Folder.get?_erase,
      if_neg (fileName_ne_temporaryName other index), Folder.get?_put,
      if_neg (fileName_ne_temporaryName other index)]

/-- A save that fails leaves all pages as they were. -/
theorem fetch_of_save_error (failed : save directory index terms folder = (.error fault, left))
    (other : Nat) : fetch directory other left = fetch directory other folder := by
  rcases save_cases directory index terms folder with
    ⟨_, -, same | ⟨written, created, same⟩⟩ | can
  · rw [same] at failed
    cases failed
    rfl
  · rw [same] at failed
    cases failed
    obtain ⟨-, entries, found, ⟨-, rfl⟩ | ⟨-, rfl⟩⟩ := FoundFolder.create_ok created
    · apply fetch_congr directory found rfl
      rw [Folder.get?_put, if_neg (fileName_ne_temporaryName other index)]
    · rw [FoundFolder.withEntries_self found]
  · obtain ⟨entries, -, saved⟩ := save_of_canSave directory can
    rw [saved] at failed
    cases failed

/-- What a removal without a fault has done: the pages are gone and all else is as it was. -/
theorem removeAll_ok {indices : List Nat} {entries : Folder} (found : folder.entries = .ok entries)
    (removed : removeAll directory indices folder = (.ok (), left)) :
    ∃ rest : Folder, left = folder.withEntries rest ∧ ∀ name, rest.get? name =
      if ∃ index ∈ indices, name = fileName index then none else entries.get? name := by
  induction indices generalizing folder entries with
  | nil =>
      cases removed
      exact ⟨entries, (FoundFolder.withEntries_self found).symm, fun name => by simp⟩
  | cons index later inductionHypothesis =>
      simp only [removeAll, found, Except.bind, Folder.removeFile] at removed
      cases held : entries.get? (fileName index) with
      | none =>
          rw [held] at removed
          obtain ⟨rest, rfl, names⟩ := inductionHypothesis found removed
          refine ⟨rest, rfl, fun name => ?_⟩
          rw [names]
          by_cases same : name = fileName index
          · simp [same, held]
          · simp [same]
      | some node =>
          cases node with
          | folder inner =>
              rw [held] at removed
              cases removed
          | _ =>
              rw [held] at removed
              obtain ⟨rest, rfl, names⟩ :=
                @inductionHypothesis (folder.withEntries _) _ rfl removed
              refine ⟨rest, rfl, fun name => ?_⟩
              rw [names, Folder.get?_erase]
              by_cases same : name = fileName index
              · simp [same]
              · simp [same]

/-- Pages that no folder stands in the place of can be removed. -/
theorem removeAll_of_files (directory : Path) {indices : List Nat} {entries : Folder}
    (found : folder.entries = .ok entries)
    (files : ∀ index ∈ indices, ∀ inner, entries.get? (fileName index) ≠ some (.folder inner)) :
    ∃ left, removeAll directory indices folder = (.ok (), left) := by
  induction indices generalizing folder entries with
  | nil => exact ⟨_, rfl⟩
  | cons index later inductionHypothesis =>
      rw [List.forall_mem_cons] at files
      simp only [removeAll, found, Except.bind, Folder.removeFile]
      cases held : entries.get? (fileName index) with
      | none => exact inductionHypothesis found files.2
      | some node =>
          cases node with
          | folder inner => exact absurd held (files.1 inner)
          | _ =>
              refine @inductionHypothesis (folder.withEntries _) _ rfl ?_
              intro other member inner
              rw [Folder.get?_erase]
              split
              · exact nofun
              · exact files.2 other member inner

end Page

end HingeLoss
