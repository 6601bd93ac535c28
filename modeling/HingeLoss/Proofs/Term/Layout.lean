import HingeLoss.Term.Record

/-! The layout of a record, field by field. -/

namespace HingeLoss

/-- The fields of a record, each at its width. The arity is the number of entries. -/
structure TermRecord where
  rule : RuleId
  tag : UInt8
  flag : UInt8
  weight : Single
  constant : Single
  entries : List (AtomId × Single)

namespace TermRecord

/-- The fields in their order, each word with its lowest byte first. -/
def bytes (record : TermRecord) : Bytes :=
  Bytes.ofUInt32 record.rule.number ++ [record.tag, record.flag] ++
    Bytes.ofUInt16 record.entries.length.toUInt16 ++ Bytes.ofUInt32 record.weight.bits ++
    Bytes.ofUInt32 record.constant.bits ++ record.entries.flatMap Term.encodeEntry

/-- The bounds of the fields. Two bytes hold every arity up to the greatest one. -/
structure Sound (record : TermRecord) : Prop where
  tag : record.tag ≤ 3
  flag : record.flag ≤ 1
  someEntry : 1 ≤ record.entries.length
  bounded : record.entries.length ≤ Term.maxArity

instance (record : TermRecord) : Decidable record.Sound :=
  decidable_of_iff
    (record.tag ≤ 3 ∧ record.flag ≤ 1 ∧ 1 ≤ record.entries.length ∧
      record.entries.length ≤ Term.maxArity)
    ⟨fun ⟨tag, flag, someEntry, bounded⟩ => ⟨tag, flag, someEntry, bounded⟩,
      fun ⟨tag, flag, someEntry, bounded⟩ => ⟨tag, flag, someEntry, bounded⟩⟩

/-- The shapes in the order of their tags. -/
def shape (record : TermRecord) : Shape :=
  [Shape.linear, .hinge, .squaredLinear, .squaredHinge].getD record.tag.toNat .linear

/-- The term that consists of the fields. The weight of a hard record stands for nothing. -/
def term (record : TermRecord) : Term Single where
  rule := record.rule
  shape := record.shape
  weight := if record.flag = 1 then .hard else .soft record.weight
  constant := record.constant
  atoms := record.entries.map Prod.fst
  coefficients := record.entries.map Prod.snd

/-- A tag names a shape exactly if it is at most three. -/
theorem ofTag?_eq_some_iff (record : TermRecord) (shape : Shape) :
    Shape.ofTag? record.tag = some shape ↔ record.tag ≤ 3 ∧ record.shape = shape := by
  by_cases bounded : record.tag ≤ 3
  · have cases : record.tag = 0 ∨ record.tag = 1 ∨ record.tag = 2 ∨ record.tag = 3 := by
      have := UInt8.le_iff_toNat_le.mp bounded
      simp only [← UInt8.toNat_inj]
      simp at this ⊢
      omega
    rcases cases with tag | tag | tag | tag <;>
      simp [TermRecord.shape, Shape.ofTag?, tag]
  · have different (tag : UInt8) (small : tag ≤ 3) : record.tag ≠ tag := by
      rintro rfl
      exact bounded small
    simp [Shape.ofTag?, bounded, different 0, different 1, different 2, different 3]

end TermRecord

namespace Term

/-- Entries are read exactly from the bytes of so many entries. -/
theorem decodeEntries_eq_some_iff (count : Nat) (bytes rest : Bytes)
    (entries : List (AtomId × Single)) :
    decodeEntries count bytes = some (entries, rest) ↔
      entries.length = count ∧ bytes = entries.flatMap encodeEntry ++ rest := by
  induction count generalizing bytes entries with
  | zero =>
      rw [decodeEntries, Option.some.injEq, Prod.mk.injEq, List.length_eq_zero_iff]
      constructor
      · rintro ⟨rfl, rfl⟩
        exact ⟨rfl, rfl⟩
      · rintro ⟨rfl, rfl⟩
        exact ⟨rfl, rfl⟩
  | succ count inductionHypothesis =>
      constructor
      · intro read
        unfold decodeEntries at read
        split at read
        · omega
        · rename_i a b c d e f g h later same
          cases same
          obtain ⟨⟨found, left⟩, readLater, equal⟩ := Option.map_eq_some_iff.mp read
          cases equal
          obtain ⟨counted, rfl⟩ := (inductionHypothesis later found).mp readLater
          refine ⟨congrArg Nat.succ counted, ?_⟩
          simp only [List.flatMap_cons, encodeEntry, Bytes.ofUInt32_toUInt32, List.cons_append,
            List.nil_append]
        · cases read
      · rintro ⟨counted, rfl⟩
        obtain ⟨first, later, rfl⟩ := List.exists_cons_of_length_eq_add_one counted
        have readLater := (inductionHypothesis _ later).mpr ⟨Nat.succ.inj counted, rfl⟩
        simp only [List.flatMap_cons, encodeEntry, Bytes.ofUInt32, List.cons_append,
          List.nil_append, decodeEntries, Bytes.toUInt32_place] at readLater ⊢
        rw [readLater]
        rfl

theorem length_flatMap_encodeEntry (entries : List (AtomId × Single)) :
    (entries.flatMap encodeEntry).length = entryBytes * entries.length := by
  induction entries with
  | nil => rfl
  | cons entry later inductionHypothesis =>
      simp only [List.flatMap_cons, List.length_append, inductionHypothesis, encodeEntry,
        Bytes.ofUInt32, List.length_cons, List.length_nil, entryBytes]
      omega

end Term

namespace TermRecord

theorem length_bytes (record : TermRecord) :
    record.bytes.length = Term.headerBytes + Term.entryBytes * record.entries.length := by
  simp only [bytes, Bytes.ofUInt32, Bytes.ofUInt16, List.length_append, List.length_cons,
    List.length_nil, Term.length_flatMap_encodeEntry, Term.headerBytes]

/-- The number of the entries survives its two bytes. -/
theorem Sound.toNat_arity {record : TermRecord} (sound : record.Sound) :
    record.entries.length.toUInt16.toNat = record.entries.length := by
  have bounded : record.entries.length ≤ 65535 := sound.bounded
  simp only [Nat.toUInt16_eq, UInt16.toNat_ofNat']
  omega

/-- The bytes of sound fields are read as their term, whatever bytes follow. -/
theorem Sound.decode_append {record : TermRecord} (sound : record.Sound) (rest : Bytes) :
    Term.decode (record.bytes ++ rest) = .ok (record.term, rest) := by
  have named := (record.ofTag?_eq_some_iff record.shape).mpr ⟨sound.tag, rfl⟩
  have readable : ¬ 1 < record.flag := UInt8.not_lt.mpr sound.flag
  have someEntry : record.entries.length ≠ 0 := Nat.ne_of_gt sound.someEntry
  have entries := (Term.decodeEntries_eq_some_iff record.entries.length
    (record.entries.flatMap Term.encodeEntry ++ rest) rest record.entries).mpr ⟨rfl, rfl⟩
  simp only [bytes, Bytes.ofUInt32, Bytes.ofUInt16, List.cons_append, List.nil_append, Term.decode,
    Bytes.toUInt16_place, Bytes.toUInt32_place, named, readable, if_false]
  simp only [sound.toNat_arity, someEntry, if_false, entries]
  rfl

end TermRecord

namespace Term

/-- Bytes are read exactly if they start with the bytes of sound fields. -/
theorem decode_eq_ok_iff (bytes rest : Bytes) (term : Term Single) :
    decode bytes = .ok (term, rest) ↔
      ∃ record : TermRecord, record.Sound ∧ bytes = record.bytes ++ rest ∧ term = record.term := by
  constructor
  · intro read
    unfold decode at read
    split at read
    · rename_i r0 r1 r2 r3 tag flag n0 n1 w0 w1 w2 w3 k0 k1 k2 k3 later
      dsimp only at read
      split at read
      · cases read
      · rename_i shape named
        split at read
        · cases read
        · rename_i readable
          split at read
          · cases read
          · rename_i someEntry
            split at read
            · cases read
            · rename_i entries left found
              cases read
              obtain ⟨counted, rfl⟩ := (decodeEntries_eq_some_iff _ _ _ _).mp found
              -- The record does not keep the two bytes of the arity: they count its entries.
              let record : TermRecord := ⟨⟨Bytes.toUInt32 r0 r1 r2 r3⟩, tag, flag,
                ⟨Bytes.toUInt32 w0 w1 w2 w3⟩, ⟨Bytes.toUInt32 k0 k1 k2 k3⟩, entries⟩
              obtain ⟨tagBound, sameShape⟩ := (record.ofTag?_eq_some_iff shape).mp named
              have arityBytes : entries.length.toUInt16 = Bytes.toUInt16 n0 n1 := by
                rw [counted, Nat.toUInt16_eq, UInt16.ofNat_toNat]
              refine ⟨record, ⟨tagBound, UInt8.not_lt.mp readable, ?_, ?_⟩, ?_, ?_⟩
              · exact Nat.pos_of_ne_zero (counted ▸ someEntry)
              · have := (Bytes.toUInt16 n0 n1).toNat_lt
                rw [Term.maxArity]
                change entries.length ≤ 65535
                omega
              · simp only [record, TermRecord.bytes, arityBytes, Bytes.ofUInt32_toUInt32,
                  Bytes.ofUInt16_toUInt16, List.cons_append, List.nil_append]
              · rw [TermRecord.term, sameShape]
    · cases read
  · rintro ⟨record, sound, rfl, rfl⟩
    exact sound.decode_append rest

end Term

end HingeLoss
