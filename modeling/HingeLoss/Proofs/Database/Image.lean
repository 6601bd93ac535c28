import HingeLoss.Database.File
import HingeLoss.Proofs.Database.Table

/-! The file of a database's tables is read as tables with the same records and notes. -/

namespace HingeLoss

namespace AtomDatabase

/-- Tables that list the same records and notes. -/
structure Same (first second : AtomDatabase) : Prop where
  records : second.records.toList = first.records.toList
  notes : second.notes = first.notes

/-- A table in memory lists what is found in it. -/
theorem lists_toList (table : Std.TreeMap UInt32 Bytes) :
    Lists table.toList fun number => table[number]? where
  increasing := Std.TreeMap.ordered_keys_toList.imp fun below => Std.compare_eq_lt.mp below
  found _ _ := Std.TreeMap.mem_toList_iff_getElem?_eq_some

theorem decodeLength?_encodeLength (length : Nat) (rest : Bytes) :
    decodeLength? (encodeLength length ++ rest) = some (length, rest) := by
  induction length using encodeLength.induct with
  | case1 length small =>
      have byte : length.toUInt8.toNat = length := by
        rw [Nat.toUInt8_eq, UInt8.toNat_ofNat']
        omega
      rw [encodeLength, if_pos small, List.cons_append, List.nil_append, decodeLength?, byte,
        if_pos small]
  | case2 length large inductionHypothesis =>
      have byte : (128 + length % 128).toUInt8.toNat = 128 + length % 128 := by
        rw [Nat.toUInt8_eq, UInt8.toNat_ofNat']
        omega
      rw [encodeLength, if_neg large, List.cons_append, decodeLength?, byte, if_neg (by omega),
        inductionHypothesis]
      simp only [Option.map_some, Option.some.injEq, Prod.mk.injEq, and_true]
      omega

theorem decodePart?_encodePart (part rest : Bytes) :
    decodePart? (encodePart part ++ rest) = some (part, rest) := by
  simp [decodePart?, encodePart, decodeLength?_encodeLength]

theorem fromUTF8?_toUTF8 (name : String) :
    String.fromUTF8? name.toUTF8.data.toList.toByteArray = some name := by
  have same : name.toUTF8.data.toList.toByteArray = name.toByteArray := by
    apply ByteArray.ext
    rw [List.data_toByteArray]
    rfl
  rw [same, String.fromUTF8?, dif_pos name.isValidUTF8]
  rfl

theorem decodeNotes?_encode (notes : List (String × Bytes)) (rest : Bytes) :
    decodeNotes? notes.length (notes.flatMap encodeNote ++ rest) = some (notes, rest) := by
  induction notes with
  | nil => rfl
  | cons entry later inductionHypothesis =>
      obtain ⟨name, note⟩ := entry
      simp only [List.flatMap_cons, encodeNote, List.append_assoc, List.length_cons, decodeNotes?,
        decodePart?_encodePart, inductionHypothesis, fromUTF8?_toUTF8, Option.bind_eq_bind,
        Option.bind_some]

theorem decodeRecords?_encode (records : List (UInt32 × Bytes)) (bound : Nat)
    (enough : records.length ≤ bound) :
    decodeRecords? bound (records.flatMap encodeEntry) = some records := by
  induction records generalizing bound with
  | nil => cases bound <;> rfl
  | cons entry later inductionHypothesis =>
      obtain ⟨index, bytes⟩ := entry
      rw [List.length_cons] at enough
      obtain ⟨bound, rfl⟩ := Nat.exists_eq_succ_of_ne_zero (by omega : bound ≠ 0)
      simp only [List.flatMap_cons, encodeEntry, Bytes.ofUInt32, List.cons_append, List.nil_append,
        decodeRecords?, decodePart?_encodePart, inductionHypothesis bound (by omega),
        Bytes.toUInt32_place, Option.bind_eq_bind, Option.bind_some]

theorem length_le_length_flatMap (records : List (UInt32 × Bytes)) :
    records.length ≤ (records.flatMap encodeEntry).length := by
  induction records with
  | nil => exact Nat.le_refl 0
  | cons entry later inductionHypothesis =>
      have word : (encodeEntry entry).length = 4 + (encodePart entry.2).length :=
        List.length_append
      rw [List.flatMap_cons, List.length_append, List.length_cons]
      omega

/-- What is found after entries have been inserted: the one of a list without repeated numbers, or
what was found before. -/
theorem getElem?_foldl_insert_iff {records : List (UInt32 × Bytes)}
    (distinct : records.Pairwise fun first second => first.1 ≠ second.1)
    (table : Std.TreeMap UInt32 Bytes) (number : UInt32) (bytes : Bytes) :
    (records.foldl (fun table entry => table.insert entry.1 entry.2) table)[number]? =
        some bytes ↔
      (number, bytes) ∈ records ∨
        (∀ entry ∈ records, entry.1 ≠ number) ∧ table[number]? = some bytes := by
  induction records generalizing table with
  | nil => simp
  | cons entry later inductionHypothesis =>
      obtain ⟨key, value⟩ := entry
      obtain ⟨apart, laterDistinct⟩ := List.pairwise_cons.mp distinct
      rw [List.foldl_cons, inductionHypothesis laterDistinct, Std.TreeMap.getElem?_insert,
        List.mem_cons, List.forall_mem_cons, Prod.mk.injEq]
      by_cases here : key = number
      · subst here
        have absent : ∀ entry ∈ later, entry.1 ≠ key := fun entry member same =>
          apart entry member same.symm
        have notLater : (key, bytes) ∉ later := fun member => absent _ member rfl
        rw [if_pos Std.ReflCmp.compare_self]
        grind
      · rw [if_neg fun same => here (Std.LawfulEqCmp.compare_eq_iff_eq.mp same)]
        grind

/-- A table is made again from what it lists. -/
theorem toList_foldl_insert (table : Std.TreeMap UInt32 Bytes) :
    (table.toList.foldl (fun table entry => table.insert entry.1 entry.2)
      (∅ : Std.TreeMap UInt32 Bytes)).toList = table.toList := by
  have listed := lists_toList table
  refine (lists_toList _).unique ⟨listed.increasing, fun number bytes => ?_⟩
  rw [getElem?_foldl_insert_iff (listed.increasing.imp fun below => UInt32.ne_of_lt below)]
  simp

/-- The file of some tables is read as tables with the same records and notes. -/
theorem ofBytes?_toBytes (database : AtomDatabase) :
    ∃ held, ofBytes? database.toBytes = some held ∧ database.Same held := by
  have front : database.toBytes.take mark.length = mark := by
    rw [toBytes, List.append_assoc, List.append_assoc, List.take_left]
  have back : database.toBytes.drop mark.length = encodeLength database.notes.length ++
      (database.notes.flatMap encodeNote ++ database.records.toList.flatMap encodeEntry) := by
    rw [toBytes, List.append_assoc, List.append_assoc, List.drop_left]
  refine ⟨⟨database.records.toList.foldl (fun table entry => table.insert entry.1 entry.2) ∅,
    database.notes⟩, ?_, toList_foldl_insert database.records, rfl⟩
  rw [ofBytes?, if_pos front, back, decodeLength?_encodeLength]
  simp only [Option.bind_eq_bind, Option.bind_some, decodeNotes?_encode,
    decodeRecords?_encode _ _ (length_le_length_flatMap _)]

/-- Tables that list the same have the same file. -/
theorem Same.toBytes {first second : AtomDatabase} (same : first.Same second) :
    second.toBytes = first.toBytes := by
  rw [AtomDatabase.toBytes, same.records, same.notes, AtomDatabase.toBytes]

/-- The file of some tables is none that could be taken for an empty one. -/
theorem ofFile_toBytes (database : AtomDatabase) :
    ∃ held, ofFile database.toBytes = .ok held ∧ database.Same held := by
  obtain ⟨held, read, same⟩ := ofBytes?_toBytes database
  have notEmpty : database.toBytes.isEmpty = false := rfl
  refine ⟨held, ?_, same⟩
  rw [ofFile, notEmpty, if_neg Bool.false_ne_true, read]

end AtomDatabase

end HingeLoss
