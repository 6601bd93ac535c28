import HingeLoss.Page.Image
import HingeLoss.Proofs.Page.Pool
import HingeLoss.Proofs.Term.Record

/-! The image of well-formed terms reads back as exactly these terms. -/

namespace HingeLoss

namespace Page

theorem encode_eq (terms : List (Term Single)) :
    encode terms = Bytes.ofUInt32 (body terms).length.toUInt32 ++
      Bytes.ofUInt32 terms.length.toUInt32 ++ body terms := rfl

theorem length_encode (terms : List (Term Single)) :
    (encode terms).length = headerBytes + (body terms).length := by
  simp only [encode_eq, Bytes.ofUInt32, List.length_append, List.length_cons, List.length_nil,
    headerBytes]

theorem length_encode_sub (terms : List (Term Single)) :
    (encode terms).length - headerBytes = (body terms).length := by
  rw [length_encode, Nat.add_sub_cancel_left]

theorem fitsHeader_iff (bodyBytes terms : Nat) :
    fitsHeader bodyBytes terms = true ↔ bodyBytes < UInt32.size ∧ terms < UInt32.size := by
  rw [fitsHeader, Bool.and_eq_true, decide_eq_true_iff, decide_eq_true_iff]

theorem toNat_toUInt32 {value : Nat} (fits : value < UInt32.size) :
    value.toUInt32.toNat = value := by
  have size : UInt32.size = 4294967296 := rfl
  rw [Nat.toUInt32_eq, UInt32.toNat_ofNat']
  omega

/-- The bytes of sound records fill as many slots, one term each. -/
theorem decodeRecords_flatMap (path : String) (index : Nat) (records : List TermRecord)
    (sound : ∀ record ∈ records, record.Sound) (rest : Bytes) (pool : TermPool)
    (room : pool.count + records.length ≤ pool.capacity) :
    ∃ filled, decodeRecords path index records.length
        (records.flatMap TermRecord.bytes ++ rest) pool = (.ok rest, filled) ∧
      filled.terms = pool.terms ++ records.map TermRecord.term ∧
      filled.capacity = pool.capacity := by
  induction records generalizing index pool with
  | nil => exact ⟨pool, rfl, (List.append_nil _).symm, rfl⟩
  | cons record later inductionHypothesis =>
      rw [List.length_cons] at room
      have notFull : pool.isFull = false := by
        simp only [TermPool.isFull, decide_eq_false_iff_not]
        omega
      obtain ⟨filled, decoded, live, capacity⟩ := inductionHypothesis (index + 1)
        (fun other member => sound other (List.mem_cons_of_mem _ member))
        (pool.take.fill record.term)
        (by simp only [TermPool.count_fill, TermPool.count_take, TermPool.capacity_fill,
              TermPool.capacity_take]; omega)
      refine ⟨filled, ?_, ?_, ?_⟩
      · simp only [List.length_cons, List.flatMap_cons, List.append_assoc, decodeRecords, notFull,
          Bool.false_eq_true, if_false]
        rw [(sound record List.mem_cons_self).decode_append]
        exact decoded
      · rw [live, TermPool.terms_take_fill, List.append_assoc, List.map_cons]
        rfl
      · rw [capacity, TermPool.capacity_fill, TermPool.capacity_take]

/-- Nothing but the bytes of sound records fills slots. -/
theorem decodeRecords_ok {path : String} {index count : Nat} {bytes rest : Bytes}
    {pool filled : TermPool}
    (decoded : decodeRecords path index count bytes pool = (.ok rest, filled)) :
    ∃ records : List TermRecord, records.length = count ∧ (∀ record ∈ records, record.Sound) ∧
      bytes = records.flatMap TermRecord.bytes ++ rest ∧
      filled.terms = pool.terms ++ records.map TermRecord.term ∧
      filled.capacity = pool.capacity := by
  induction count generalizing index bytes pool with
  | zero =>
      rw [decodeRecords] at decoded
      cases decoded
      exact ⟨[], rfl, by simp, rfl, (List.append_nil _).symm, rfl⟩
  | succ count inductionHypothesis =>
      unfold decodeRecords at decoded
      split at decoded
      · cases decoded
      · split at decoded
        · cases decoded
        · rename_i term left read
          obtain ⟨record, sound, rfl, rfl⟩ := (Term.decode_eq_ok_iff _ _ _).mp read
          obtain ⟨records, counted, allSound, rfl, live, capacity⟩ := inductionHypothesis decoded
          refine ⟨record :: records, congrArg Nat.succ counted,
            List.forall_mem_cons.mpr ⟨sound, allSound⟩, ?_, ?_, ?_⟩
          · rw [List.flatMap_cons, List.append_assoc]
          · rw [live, TermPool.terms_take_fill, List.append_assoc, List.map_cons]
            rfl
          · rw [capacity, TermPool.capacity_fill, TermPool.capacity_take]

/-- The images of records: the length of the body, the number of the records, the records. -/
structure IsImage (image : Bytes) (records : List TermRecord) : Prop where
  sound : ∀ record ∈ records, record.Sound
  laidOut : ∃ size count : UInt32,
    size.toNat = (records.flatMap TermRecord.bytes).length ∧ count.toNat = records.length ∧
      image = Bytes.ofUInt32 size ++ Bytes.ofUInt32 count ++ records.flatMap TermRecord.bytes

/-- An image whose header agrees with the bytes behind it leaves what its records fill. -/
theorem decode_of_records (path : String) {size count : UInt32} {records : Bytes}
    {pool filled : TermPool} (sized : size.toNat = records.length)
    (room : count.toNat ≤ pool.capacity)
    (decoded : decodeRecords path 0 count.toNat records pool.clear = (.ok [], filled)) :
    decode path (Bytes.ofUInt32 size ++ Bytes.ofUInt32 count ++ records) pool =
      (.ok count.toNat, filled) := by
  simp only [Bytes.ofUInt32, List.cons_append, List.nil_append]
  -- The equation of `decode` for a long image is too large for `simp`.
  unfold decode
  simp only [Bytes.toUInt32_place]
  rw [if_neg (by omega), if_neg (by omega), if_neg (by omega), decoded]

/-- An image of records that the pool has room for is read as their terms, whatever the pool held
before. -/
theorem IsImage.decode {image : Bytes} {records : List TermRecord} (isImage : IsImage image records)
    (path : String) (pool : TermPool) (room : records.length ≤ pool.capacity) :
    ∃ filled, Page.decode path image pool = (.ok records.length, filled) ∧
      filled.terms = records.map TermRecord.term ∧ filled.capacity = pool.capacity := by
  obtain ⟨size, count, sized, counted, rfl⟩ := isImage.laidOut
  obtain ⟨filled, decoded, live, capacity⟩ :=
    decodeRecords_flatMap path 0 records isImage.sound [] pool.clear (by simpa using room)
  rw [List.append_nil, ← counted] at decoded
  rw [← counted] at room ⊢
  exact ⟨filled, decode_of_records path sized room decoded, by simpa using live,
    by simpa using capacity⟩

/-- Every image is of one list of terms. -/
theorem IsImage.map_term_unique {image : Bytes} {first second : List TermRecord}
    (isImage : IsImage image first) (other : IsImage image second) :
    first.map TermRecord.term = second.map TermRecord.term := by
  let pool := TermPool.ofCapacity (max first.length second.length)
  obtain ⟨filled, decoded, live, -⟩ := isImage.decode "" pool (Nat.le_max_left _ _)
  obtain ⟨otherFilled, otherDecoded, otherLive, -⟩ := other.decode "" pool (Nat.le_max_right _ _)
  rw [decoded] at otherDecoded
  obtain ⟨-, rfl⟩ := Prod.mk.inj otherDecoded
  exact live.symm.trans otherLive

/-- What is read is the image of records that fit the pool. -/
theorem isImage_of_decode {path : String} {image : Bytes} {pool filled : TermPool} {count : Nat}
    (decoded : decode path image pool = (.ok count, filled)) :
    ∃ records, IsImage image records ∧ records.length ≤ pool.capacity ∧ count = records.length ∧
      filled.terms = records.map TermRecord.term := by
  unfold decode at decoded
  split at decoded
  · rename_i b0 b1 b2 b3 n0 n1 n2 n3 rest
    dsimp only at decoded
    split at decoded
    · simp at decoded
    · rename_i longEnough
      split at decoded
      · simp at decoded
      · rename_i shortEnough
        split at decoded
        · simp at decoded
        · rename_i room
          split at decoded
          · simp at decoded
          · rename_i read
            obtain ⟨same, rfl⟩ := Prod.mk.inj decoded
            cases same
            obtain ⟨records, counted, sound, rfl, live, -⟩ := decodeRecords_ok read
            rw [List.append_nil] at longEnough shortEnough
            refine ⟨records, ⟨sound, Bytes.toUInt32 b0 b1 b2 b3, Bytes.toUInt32 n0 n1 n2 n3, ?_,
              counted.symm, ?_⟩, ?_, counted.symm, by simpa using live⟩
            · omega
            · simp only [Bytes.ofUInt32_toUInt32, List.append_nil, List.cons_append,
                List.nil_append]
            · omega
          · simp at decoded
  · simp at decoded

/-- What is loaded is read. -/
theorem decode_of_load {path : String} {image : Bytes} {pool filled : TermPool} {count : Nat}
    (loaded : load path image pool = (.ok count, filled)) :
    decode path image pool = (.ok count, filled) := by
  unfold load at loaded
  split at loaded
  · simp at loaded
  · split at loaded
    · simp at loaded
    · exact loaded

/-- A page that is loaded fills as many slots as it counts terms. -/
theorem count_of_load {path : String} {image : Bytes} {pool filled : TermPool} {count : Nat}
    (loaded : load path image pool = (.ok count, filled)) : filled.count = count := by
  obtain ⟨records, -, -, counted, live⟩ := isImage_of_decode (decode_of_load loaded)
  rw [← filled.length_terms, live, List.length_map, counted]

theorem map_term_ofTerm {terms : List (Term Single)}
    (wellFormed : ∀ term ∈ terms, term.WellFormed) :
    (terms.map TermRecord.ofTerm).map TermRecord.term = terms := by
  have each : terms.map (TermRecord.term ∘ TermRecord.ofTerm) = terms.map id :=
    List.map_congr_left fun term member => TermRecord.term_ofTerm (wellFormed term member)
  rw [List.map_map, each, List.map_id]

/-- The image of well-formed terms that fits its header is the image of their records. -/
theorem isImage_encode {terms : List (Term Single)} (wellFormed : ∀ term ∈ terms, term.WellFormed)
    (fits : fitsHeader (body terms).length terms.length = true) :
    IsImage (encode terms) (terms.map TermRecord.ofTerm) := by
  obtain ⟨bodyFits, countFits⟩ := (fitsHeader_iff _ _).mp fits
  have bytes : (terms.map TermRecord.ofTerm).flatMap TermRecord.bytes = body terms := by
    rw [List.flatMap_map, body, List.flatMap_def, List.flatMap_def,
      List.map_congr_left fun term member => TermRecord.bytes_ofTerm (wellFormed term member)]
  refine ⟨?_, (body terms).length.toUInt32, terms.length.toUInt32, ?_, ?_, ?_⟩
  · exact List.forall_mem_map.mpr fun term member =>
      TermRecord.sound_ofTerm (wellFormed term member)
  · rw [bytes, toNat_toUInt32 bodyFits]
  · rw [List.length_map, toNat_toUInt32 countFits]
  · rw [bytes, encode_eq]

/-- An image reads back as its terms, whatever the pool held before. -/
theorem decode_encode (path : String) (terms : List (Term Single))
    (wellFormed : ∀ term ∈ terms, term.WellFormed)
    (fits : fitsHeader (body terms).length terms.length = true) (pool : TermPool)
    (room : terms.length ≤ pool.capacity) :
    ∃ filled, decode path (encode terms) pool = (.ok terms.length, filled) ∧
      filled.terms = terms ∧ filled.capacity = pool.capacity := by
  obtain ⟨filled, decoded, live, capacity⟩ :=
    (isImage_encode wellFormed fits).decode path pool (by simpa using room)
  rw [List.length_map] at decoded
  rw [map_term_ofTerm wellFormed] at live
  exact ⟨filled, decoded, live, capacity⟩

theorem load_encode (path : String) (terms : List (Term Single))
    (wellFormed : ∀ term ∈ terms, term.WellFormed)
    (fits : fitsHeader (body terms).length terms.length = true) (pool : TermPool)
    (room : terms.length ≤ pool.capacity) :
    ∃ filled, load path (encode terms) pool = (.ok terms.length, filled) ∧
      filled.terms = terms ∧ filled.capacity = pool.capacity := by
  obtain ⟨filled, decoded, live, capacity⟩ := decode_encode path terms wellFormed fits pool room
  refine ⟨filled, ?_, live, capacity⟩
  have longEnough : ¬ (encode terms).length < headerBytes := by
    rw [length_encode]
    omega
  rw [load, if_neg longEnough, decoded]

/-- Different terms have different images. -/
theorem encode_injective {first second : List (Term Single)}
    (wellFormed : ∀ term ∈ first, term.WellFormed)
    (otherWellFormed : ∀ term ∈ second, term.WellFormed)
    (fits : fitsHeader (body first).length first.length = true)
    (otherFits : fitsHeader (body second).length second.length = true)
    (same : encode first = encode second) : first = second := by
  have isImage := isImage_encode wellFormed fits
  rw [same] at isImage
  have terms := isImage.map_term_unique (isImage_encode otherWellFormed otherFits)
  rwa [map_term_ofTerm wellFormed, map_term_ofTerm otherWellFormed] at terms

end Page

end HingeLoss
