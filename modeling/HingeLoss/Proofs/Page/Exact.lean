import HingeLoss.Proofs.Page.File

/-! An image is read if and only if it is a header that agrees with the sound records behind it. -/

namespace HingeLoss

namespace Page

theorem length_le_length_body {terms : List (Term Single)}
    (wellFormed : ∀ term ∈ terms, term.WellFormed) : terms.length ≤ (body terms).length := by
  induction terms with
  | nil => exact Nat.le_refl 0
  | cons term later inductionHypothesis =>
      rw [List.forall_mem_cons] at wellFormed
      have longer := inductionHypothesis wellFormed.2
      simp only [body, List.flatMap_cons, List.length_append, List.length_cons,
        Term.length_encode wellFormed.1, Term.encodedLength, Term.headerBytes] at longer ⊢
      omega

theorem canSave_of_isFree {index : Nat} {terms : List (Term Single)} {entries : Folder}
    (fits : fitsHeader (body terms).length terms.length = true)
    (temporaryFree : entries.IsFree (temporaryName index))
    (free : entries.IsFree (fileName index)) : CanSave index terms (.ok entries) := by
  refine ⟨fits, entries, rfl, temporaryFree, fun inner blocked => ?_, rfl, rfl⟩
  rcases free with absent | ⟨bytes, held⟩
  · simp [absent] at blocked
  · simp [held] at blocked

/-- The reader takes exactly the images of records that fit the pool, and leaves their terms live
whatever the pool held before. -/
theorem decode_exact :
    (∀ (path : String) (image : Bytes) (pool : TermPool) (count : Nat) (terms : List (Term Single)),
      ((decode path image pool).1 = .ok count ∧ (decode path image pool).2.terms = terms) ↔
        ∃ records, IsImage image records ∧ records.length ≤ pool.capacity ∧
          count = records.length ∧ terms = records.map TermRecord.term) ∧
    (∀ record : TermRecord, record.bytes.length = 16 + 8 * record.entries.length) ∧
    ∀ terms : List (Term Single), (∀ term ∈ terms, term.WellFormed) →
      (body terms).length < UInt32.size →
      (∀ (path : String) (pool : TermPool), terms.length ≤ pool.capacity →
        (decode path (encode terms) pool).1 = .ok terms.length ∧
          (decode path (encode terms) pool).2.terms = terms) ∧
      (∀ (directory : Path) (index size : Nat) (folder left : FoundFolder),
        save directory index terms folder = (.ok size, left) →
          fetch directory index left = .ok (encode terms)) ∧
      ∀ (directory : Path) (index : Nat) (entries : Folder),
        entries.IsFree (temporaryName index) → entries.IsFree (fileName index) →
          (save directory index terms (.ok entries)).1 = .ok (encode terms).length := by
  refine ⟨fun path image pool count terms => ⟨?_, ?_⟩, TermRecord.length_bytes, ?_⟩
  · rintro ⟨succeeded, rfl⟩
    exact isImage_of_decode (Prod.ext succeeded rfl)
  · rintro ⟨records, isImage, room, rfl, rfl⟩
    obtain ⟨filled, decoded, live, -⟩ := isImage.decode path pool room
    rw [decoded]
    exact ⟨rfl, live⟩
  · intro terms wellFormed bodyFits
    have countFits := Nat.lt_of_le_of_lt (length_le_length_body wellFormed) bodyFits
    have fits := (fitsHeader_iff _ _).mpr ⟨bodyFits, countFits⟩
    refine ⟨?_, ?_, ?_⟩
    · intro path pool room
      obtain ⟨filled, decoded, live, -⟩ := decode_encode path terms wellFormed fits pool room
      rw [decoded]
      exact ⟨rfl, live⟩
    · intro directory index size folder left saved
      exact (save_ok saved).2.1
    · intro directory index entries temporaryFree free
      obtain ⟨_, -, saved⟩ :=
        save_of_canSave directory (canSave_of_isFree fits temporaryFree free)
      rw [saved]

/-- A hard record with a weight that stands for nothing, read into a pool with an old term, and a
page of two terms, saved and read again. -/
theorem decode_exact_sample :
    let record : TermRecord := ⟨⟨7⟩, 3, 1, ⟨5⟩, 0, [(⟨2⟩, 1)]⟩
    let hinge : Term Single := ⟨⟨0⟩, .hinge, .soft 1, 1, [⟨0⟩, ⟨1⟩], [1, 0]⟩
    let pool := (TermPool.ofCapacity 2).take
    (decode "page" ([24, 0, 0, 0, 1, 0, 0, 0] ++ record.bytes) pool).2.terms =
        [⟨⟨7⟩, .squaredHinge, .hard, 0, [⟨2⟩], [1]⟩] ∧
      (decode "page" (encode [hinge, record.term]) pool).2.terms = [hinge, record.term] ∧
      (save (Path.ofText "pages") 0 [hinge, record.term] (.ok [])).1 =
        .ok (encode [hinge, record.term]).length := by
  intro record hinge pool
  have images := (decode_exact.1 "page" ([24, 0, 0, 0, 1, 0, 0, 0] ++ record.bytes) pool 1
    [record.term]).mpr
      ⟨[record], ⟨by decide, 24, 1, by decide, by decide, rfl⟩, by decide, rfl, rfl⟩
  have pages := decode_exact.2.2 [hinge, record.term] (by decide) (by decide)
  exact ⟨images.2, (pages.1 "page" pool (by decide)).2,
    pages.2.2 _ 0 [] (Or.inl rfl) (Or.inl rfl)⟩

end Page

end HingeLoss
