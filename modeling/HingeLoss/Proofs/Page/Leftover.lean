import HingeLoss.Proofs.Page.Exact

/-! What a failed save leaves behind: at most a file under the temporary name of the page. -/

namespace HingeLoss

namespace Page

/-- The same stands under the names of all pages, and what stands under a temporary name in only one
of two folders is a file. -/
structure SameEntries (first second : Folder) : Prop where
  pages : ∀ index, second.get? (fileName index) = first.get? (fileName index)
  temporary : ∀ index, second.get? (temporaryName index) = first.get? (temporaryName index) ∨
    first.IsFree (temporaryName index) ∧ second.IsFree (temporaryName index)

/-- Two folders under one system hold the same pages. -/
inductive SamePages : FoundFolder → FoundFolder → Prop
  | refl (folder : FoundFolder) : SamePages folder folder
  | found (folder : FoundFolder) {first second : Folder} (same : SameEntries first second) :
      SamePages (folder.withEntries first) (folder.withEntries second)

namespace SameEntries

variable {first second : Folder}

theorem isFree_of_get? {folder other : Folder} {name : String}
    (same : other.get? name = folder.get? name) (free : folder.IsFree name) :
    other.IsFree name := by
  rwa [Folder.IsFree, same]

/-- The same entry may be put into both folders. -/
theorem put (same : SameEntries first second) (name : String) (node : Node) :
    SameEntries (first.put name node) (second.put name node) := by
  refine ⟨fun index => ?_, fun index => ?_⟩
  · rw [Folder.get?_put, Folder.get?_put, same.pages]
  · have temporary := same.temporary index
    simp only [Folder.IsFree, Folder.get?_put] at temporary ⊢
    split
    · exact .inl rfl
    · exact temporary

/-- The same name may be erased from both folders. -/
theorem erase (same : SameEntries first second) (name : String) :
    SameEntries (first.erase name) (second.erase name) := by
  refine ⟨fun index => ?_, fun index => ?_⟩
  · rw [Folder.get?_erase, Folder.get?_erase, same.pages]
  · have temporary := same.temporary index
    simp only [Folder.IsFree, Folder.get?_erase] at temporary ⊢
    split
    · exact .inl rfl
    · exact temporary

/-- A file under a temporary name is no page, and the next save may replace it. -/
theorem put_temporary {entries : Folder} {index : Nat} (free : entries.IsFree (temporaryName index))
    (bytes : Bytes) : SameEntries entries (entries.put (temporaryName index) (.file bytes)) := by
  refine ⟨fun other => ?_, fun other => ?_⟩
  · rw [Folder.get?_put, if_neg (fileName_ne_temporaryName other index)]
  · by_cases same : temporaryName other = temporaryName index
    · rw [same]
      exact .inr ⟨free, .inr ⟨bytes, by rw [Folder.get?_put, if_pos rfl]⟩⟩
    · rw [Folder.get?_put, if_neg same]
      exact .inl rfl

/-- Writes under a temporary name end alike, and the same stands there afterwards. -/
theorem write (same : SameEntries first second) (index : Nat) (bytes : Bytes) :
    (∃ fault, first.write (temporaryName index) bytes = .error fault ∧
        second.write (temporaryName index) bytes = .error fault) ∨
      ∃ written other, first.write (temporaryName index) bytes = .ok written ∧
        second.write (temporaryName index) bytes = .ok other ∧ SameEntries written other ∧
          other.get? (temporaryName index) = written.get? (temporaryName index) := by
  rcases same.temporary index with equal | ⟨free, otherFree⟩
  · rcases first.write_cases (temporaryName index) bytes with
      ⟨free, wrote⟩ | ⟨sink, wrote⟩ | ⟨⟨inner, blocked⟩, refused⟩
    · refine .inr ⟨_, _, wrote, Folder.write_of_isFree (isFree_of_get? equal free) bytes,
        same.put _ _, ?_⟩
      simp only [Folder.get?_put, if_true]
    · have otherSink := equal.trans sink
      refine .inr ⟨first, second, wrote, ?_, same, equal⟩
      simp only [Folder.write, otherSink]
    · have otherBlocked := equal.trans blocked
      refine .inl ⟨.isFolder, refused, ?_⟩
      simp only [Folder.write, otherBlocked]
  · refine .inr ⟨_, _, Folder.write_of_isFree free bytes, Folder.write_of_isFree otherFree bytes,
      same.put _ _, ?_⟩
    simp only [Folder.get?_put, if_true]

/-- Pages are renamed alike if the same stands under their temporary names. -/
theorem rename (same : SameEntries first second) {index : Nat}
    (source : second.get? (temporaryName index) = first.get? (temporaryName index)) :
    (∃ fault, first.rename (temporaryName index) (fileName index) = .error fault ∧
        second.rename (temporaryName index) (fileName index) = .error fault) ∨
      ∃ renamed other, first.rename (temporaryName index) (fileName index) = .ok renamed ∧
        second.rename (temporaryName index) (fileName index) = .ok other ∧
          SameEntries renamed other := by
  have moved (node : Node) := (same.erase (temporaryName index)).put (fileName index) node
  simp only [Folder.rename, source, same.pages]
  rcases first.get? (temporaryName index) with _ | ⟨_ | _ | _⟩
  · exact .inl ⟨_, rfl, rfl⟩
  all_goals
    rcases first.get? (fileName index) with _ | ⟨_ | _ | _⟩
    all_goals first | exact .inr ⟨_, _, rfl, rfl, moved _⟩ | exact .inl ⟨_, rfl, rfl⟩

/-- Temporary files are made alike under one system. -/
theorem create (same : SameEntries first second) (folder : FoundFolder) (index : Nat)
    (bytes : Bytes) :
    (∃ fault, (folder.withEntries first).create (temporaryName index) bytes = .error fault ∧
        (folder.withEntries second).create (temporaryName index) bytes = .error fault) ∨
      ∃ written other, (folder.withEntries first).create (temporaryName index) bytes = .ok written ∧
        (folder.withEntries second).create (temporaryName index) bytes = .ok other ∧
          SameEntries written other ∧
            other.get? (temporaryName index) = written.get? (temporaryName index) := by
  simp only [FoundFolder.create, FoundFolder.attempt_withEntries]
  cases folder.attempt .create with
  | error fault => exact .inl ⟨fault, rfl, rfl⟩
  | ok _ => exact same.write index (folder.kept bytes)

end SameEntries

variable {directory : Path} {index : Nat} {terms : List (Term Single)}

/-- A save that fails leaves all pages as they were, and does not stand in the way of the next. -/
theorem samePages_of_save_error {folder left : FoundFolder} {fault : PageFault}
    (failed : save directory index terms folder = (.error fault, left)) :
    SamePages folder left := by
  rcases save_cases directory index terms folder with
    ⟨_, -, same | ⟨written, created, same⟩⟩ | can
  · rw [same] at failed
    cases failed
    exact .refl folder
  · rw [same] at failed
    cases failed
    obtain ⟨-, entries, found, ⟨free, rfl⟩ | ⟨-, rfl⟩⟩ := FoundFolder.create_ok created
    · have left := SamePages.found folder
        (SameEntries.put_temporary free (folder.kept (encode terms)))
      rwa [FoundFolder.withEntries_self found] at left
    · rw [FoundFolder.withEntries_self found]
      exact .refl folder
  · obtain ⟨entries, -, saved⟩ := save_of_canSave directory can
    rw [saved] at failed
    cases failed

/-- Saves into folders that hold the same pages end alike. -/
theorem SamePages.save (directory : Path) (index : Nat) (terms : List (Term Single))
    {folder other : FoundFolder} (same : SamePages folder other) :
    ∃ saved left otherLeft, Page.save directory index terms folder = (saved, left) ∧
      Page.save directory index terms other = (saved, otherLeft) ∧ SamePages left otherLeft := by
  cases same with
  | refl folder => exact ⟨_, _, _, rfl, rfl, .refl _⟩
  | @found folder first second same =>
      simp only [Page.save]
      split
      · exact ⟨_, _, _, rfl, rfl, .found folder same⟩
      · rcases same.create folder index (encode terms) with
          ⟨fault, refused, otherRefused⟩ | ⟨written, otherWritten, wrote, otherWrote, after, held⟩
        · rw [refused, otherRefused]
          exact ⟨_, _, _, rfl, rfl, .found folder same⟩
        · have sizes : otherWritten.fileSize (temporaryName index) =
              written.fileSize (temporaryName index) := by
            simp only [Folder.fileSize, Folder.read, held]
          simp only [wrote, otherWrote, sizes, FoundFolder.complete_withEntries,
            FoundFolder.attempt_withEntries, FoundFolder.withEntries_withEntries]
          cases folder.complete with
          | error fault => exact ⟨_, _, _, rfl, rfl, .found folder after⟩
          | ok _ =>
              dsimp only
              split
              · exact ⟨_, _, _, rfl, rfl, .found folder after⟩
              · cases folder.attempt .rename with
                | error fault => exact ⟨_, _, _, rfl, rfl, .found folder after⟩
                | ok _ =>
                    dsimp only
                    rcases after.rename held with ⟨fault, refused, otherRefused⟩ |
                      ⟨renamed, otherRenamed, moved, otherMoved, last⟩
                    · rw [refused, otherRefused]
                      exact ⟨_, _, _, rfl, rfl, .found folder after⟩
                    · rw [moved, otherMoved]
                      exact ⟨_, _, _, rfl, rfl, .found folder last⟩

theorem SamePages.fetch (directory : Path) (index : Nat) {folder other : FoundFolder}
    (same : SamePages folder other) :
    Page.fetch directory index other = Page.fetch directory index folder := by
  cases same with
  | refl folder => rfl
  | found folder same => exact fetch_congr directory rfl rfl (same.pages index)

/-- The pages stay the same under another system. -/
theorem SamePages.under {folder other : FoundFolder} (same : SamePages folder other)
    (refusal : Option (WriteStep × SystemFault)) (room : Option Nat) :
    SamePages { folder with refusal, room } { other with refusal, room } := by
  cases same with
  | refl folder => exact .refl _
  | found folder same => exact .found { folder with refusal, room } same

/-- Removals from folders that hold the same pages end alike. -/
theorem SamePages.removeAll (directory : Path) (indices : List Nat) {folder other : FoundFolder}
    (same : SamePages folder other) :
    ∃ removed left otherLeft, Page.removeAll directory indices folder = (removed, left) ∧
      Page.removeAll directory indices other = (removed, otherLeft) ∧
        SamePages left otherLeft := by
  induction indices generalizing folder other with
  | nil => exact ⟨_, folder, other, rfl, rfl, same⟩
  | cons index later inductionHypothesis =>
      cases same with
      | refl folder => exact ⟨_, _, _, rfl, rfl, .refl _⟩
      | @found folder first second same =>
          simp only [Page.removeAll, FoundFolder.withEntries, Except.bind, Folder.removeFile,
            same.pages]
          rcases first.get? (fileName index) with _ | ⟨_ | _ | _⟩
          · exact inductionHypothesis (.found folder same)
          · exact inductionHypothesis (.found folder (same.erase _))
          · exact ⟨_, _, _, rfl, rfl, .found folder same⟩
          · exact inductionHypothesis (.found folder (same.erase _))

end Page

end HingeLoss
