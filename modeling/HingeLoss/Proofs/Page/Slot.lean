import HingeLoss.Paged.Replay
import HingeLoss.Proofs.Page.Exact

/-! Reading a record replaces every field of its slot, and other bytes change nothing. -/

namespace HingeLoss

theorem Bytes.ofUInt32_injective {first second : UInt32}
    (same : ofUInt32 first = ofUInt32 second) : first = second := by
  simp only [ofUInt32, List.cons.injEq, and_true] at same
  obtain ⟨lowest, low, high, highest⟩ := same
  rw [← toUInt32_place first, lowest, low, high, highest, toUInt32_place]

theorem Shape.tag_of_ofTag? {tag : UInt8} {shape : Shape} (named : ofTag? tag = some shape) :
    shape.tag = tag := by
  unfold ofTag? at named
  grind [Shape.tag]

theorem Single.ext_bits {first second : Single} (same : first.bits = second.bits) :
    first = second := by
  obtain ⟨_⟩ := first
  obtain ⟨_⟩ := second
  exact congrArg Single.mk same

namespace TermRecord

/-- The fields as a term of theirs is written: a hard one has the weight bytes zero. -/
def canonical (record : TermRecord) : TermRecord :=
  { record with weight := if record.flag = 1 then 0 else record.weight }

variable {record : TermRecord}

theorem Sound.wellFormed_term (sound : record.Sound) : record.term.WellFormed where
  nonempty := by
    have some := sound.someEntry
    rw [term, ne_eq, List.map_eq_nil_iff, ← List.length_eq_zero_iff]
    omega
  paired := by simp [term]
  bounded := by simpa [term] using sound.bounded

theorem Sound.flag_ne_one_iff (sound : record.Sound) : record.flag ≠ 1 ↔ record.flag = 0 := by
  have bound := UInt8.le_iff_toNat_le.mp sound.flag
  simp only [ne_eq, ← UInt8.toNat_inj]
  simp at bound ⊢
  omega

theorem Sound.ofTerm_term (sound : record.Sound) : ofTerm record.term = record.canonical := by
  have tag := Shape.tag_of_ofTag? ((record.ofTag?_eq_some_iff record.shape).mpr ⟨sound.tag, rfl⟩)
  have entries : (record.entries.map Prod.fst).zip (record.entries.map Prod.snd) =
      record.entries := by
    rw [List.zip_map', List.map_id']
  by_cases hard : record.flag = 1
  · simp [ofTerm, term, canonical, Term.entries, Term.isHard, Weight.isHard, hard, tag, entries]
  · have soft := sound.flag_ne_one_iff.mp hard
    simp [ofTerm, term, canonical, Term.entries, Term.isHard, Weight.isHard, soft, tag, entries]

theorem Sound.encode_term (sound : record.Sound) : record.term.encode = record.canonical.bytes := by
  rw [← bytes_ofTerm sound.wellFormed_term, sound.ofTerm_term]

theorem encodedLength_term (record : TermRecord) :
    record.term.encodedLength = record.bytes.length := by
  rw [length_bytes, Term.encodedLength, Term.arity, term, List.length_map]

/-- The byte of the hard flag. -/
theorem getElem?_bytes_flag (record : TermRecord) (rest : Bytes) :
    (record.bytes ++ rest)[5]? = some record.flag := by
  simp [bytes, Bytes.ofUInt32, Bytes.ofUInt16]

/-- The bytes of the weight. -/
theorem weight_bytes (record : TermRecord) :
    (record.bytes.drop 8).take 4 = Bytes.ofUInt32 record.weight.bits := by
  simp [bytes, Bytes.ofUInt32, Bytes.ofUInt16]

theorem weight_bytes_eq_zero_iff (record : TermRecord) :
    Bytes.ofUInt32 record.weight.bits = [0, 0, 0, 0] ↔ record.weight = 0 := by
  have zero : Bytes.ofUInt32 (0 : Single).bits = [0, 0, 0, 0] := by decide
  rw [← zero]
  constructor
  · intro same
    exact Single.ext_bits (Bytes.ofUInt32_injective same)
  · intro same
    rw [same]

/-- Only weight bytes that stand for nothing are not written again. -/
theorem bytes_canonical_eq_iff (record : TermRecord) :
    record.canonical.bytes = record.bytes ↔ record.flag ≠ 1 ∨ record.weight = 0 := by
  constructor
  · intro same
    have weights := congrArg (fun bytes : Bytes => (bytes.drop 8).take 4) same
    simp only [weight_bytes, canonical] at weights
    by_cases hard : record.flag = 1
    · rw [if_pos hard] at weights
      exact .inr (Single.ext_bits (Bytes.ofUInt32_injective weights.symm))
    · exact .inl hard
  · rintro (soft | zero)
    · simp [canonical, soft]
    · rw [canonical, zero, ite_self, ← zero]

end TermRecord

namespace Term

/-- A record at the front of some bytes is read into a slot. The answer comes with the slot and with
the bytes that are left. -/
def decodeInto (slot : Term Single) (bytes : Bytes) :
    Except RecordFault Unit × Term Single × Bytes :=
  match decode bytes with
  | .error fault => (.error fault, slot, bytes)
  | .ok (term, rest) => (.ok (), term, rest)

/-- What a slot held before does not matter once it takes a record. -/
theorem decodeInto_encode_append {term : Term Single} (wellFormed : term.WellFormed)
    (slot : Term Single) (rest : Bytes) :
    decodeInto slot (term.encode ++ rest) = (.ok (), term, rest) := by
  rw [decodeInto, decode_encode_append wellFormed rest]

/-- Bytes that are no record change nothing. A record is taken off the bytes as long as its term,
and is written again as it was read unless it is hard with weight bytes that stand for nothing. -/
theorem decodeInto_cases (slot : Term Single) (bytes : Bytes) :
    (∃ fault, decodeInto slot bytes = (.error fault, slot, bytes)) ∨
      ∃ term consumed rest, decodeInto slot bytes = (.ok (), term, rest) ∧
        bytes = consumed ++ rest ∧ consumed.length = term.encodedLength ∧
          (term.encode = consumed ↔
            consumed[5]? = some 0 ∨ (consumed.drop 8).take 4 = [0, 0, 0, 0]) := by
  cases read : decode bytes with
  | error fault => exact .inl ⟨fault, by rw [decodeInto, read]⟩
  | ok found =>
      obtain ⟨term, rest⟩ := found
      obtain ⟨record, sound, rfl, rfl⟩ := (decode_eq_ok_iff bytes rest term).mp read
      refine .inr ⟨record.term, record.bytes, rest, by rw [decodeInto, read], rfl,
        record.encodedLength_term.symm, ?_⟩
      have flag : record.bytes[5]? = some record.flag := by
        simpa using record.getElem?_bytes_flag []
      rw [sound.encode_term, record.bytes_canonical_eq_iff, flag, Option.some.injEq,
        record.weight_bytes, record.weight_bytes_eq_zero_iff, sound.flag_ne_one_iff]

end Term

theorem TermPool.slots_take (pool : TermPool) :
    pool.take.slots[pool.count]? = some (pool.slots.getD pool.count Term.blank) := by
  have counted := pool.countLeSlots
  rw [Array.getD_eq_getD_getElem?]
  unfold take
  split
  · rename_i inRange
    simp [inRange]
  · have last : pool.count = pool.slots.size := by omega
    simp [last]

/-- A slot that is filled with what it holds stays as it is. -/
theorem TermPool.fill_nextSlot {pool taken : TermPool} {slot : Term Single}
    (next : pool.nextSlot = .ok (slot, taken)) : taken.fill slot = taken := by
  unfold nextSlot at next
  split at next
  · cases next
  · cases next
    have same : pool.take.slots.setIfInBounds (pool.take.count - 1)
        (pool.slots.getD pool.count Term.blank) = pool.take.slots := by
      apply Array.ext_getElem?
      intro index
      rw [count_take, Nat.add_sub_cancel, Array.getElem?_setIfInBounds]
      split
      · rename_i here
        rw [← here, slots_take, if_pos (Array.getElem?_eq_some_iff.mp pool.slots_take).1]
      · rfl
    simp only [fill, same]

namespace Page

/-- The records of a page are read into the slots that the pool hands out, one after another. -/
theorem decodeRecords_succ (path : String) (index count : Nat) (bytes : Bytes) (pool : TermPool) :
    decodeRecords path index (count + 1) bytes pool =
      match pool.nextSlot with
      | .error fault => (.error fault, pool)
      | .ok (slot, taken) =>
          match Term.decodeInto slot bytes with
          | (.error fault, slot, _) =>
              (.error (.corrupt path (.record index fault)), taken.fill slot)
          | (.ok _, slot, rest) => decodeRecords path (index + 1) count rest (taken.fill slot) := by
  cases next : pool.nextSlot with
  | error fault =>
      unfold TermPool.nextSlot at next
      split at next
      · rename_i full
        cases next
        simp only [decodeRecords, full, if_true]
      · cases next
  | ok found =>
      obtain ⟨slot, taken⟩ := found
      have kept := TermPool.fill_nextSlot next
      unfold TermPool.nextSlot at next
      split at next
      · cases next
      · rename_i room
        cases next
        simp only [decodeRecords, room, Bool.false_eq_true, if_false, Term.decodeInto]
        cases Term.decode bytes with
        | error fault => exact congrArg (Prod.mk _) kept.symm
        | ok found => rfl

/-- A page file is read into the pool, and counted if it could be read. -/
def read (directory : Path) (index : Nat) (folder : FoundFolder) (pool : TermPool)
    (traffic : Traffic) : Except PageFault Nat × TermPool × Traffic :=
  match fetch directory index folder with
  | .error fault => (.error fault, pool, traffic)
  | .ok bytes =>
      match load (path directory index) bytes pool with
      | (.error fault, pool) => (.error fault, pool, traffic)
      | (.ok held, pool) => (.ok held, pool, traffic.recordRead bytes.length)

/-- An image that cannot be read leaves the pool as it was or empties it. -/
theorem load_error {path : String} {image : Bytes} {pool left : TermPool} {fault : PageFault}
    (loaded : load path image pool = (.error fault, left)) : left = pool ∨ left.terms = [] := by
  unfold load at loaded
  split at loaded
  · cases loaded
    exact .inl rfl
  · split at loaded
    · cases loaded
      exact .inr (TermPool.terms_clear _)
    · rename_i sound
      exact absurd loaded (sound _ _)

/-- A page that cannot be read leaves the pool as it was or empties it, and is not counted. -/
theorem read_error {directory : Path} {index : Nat} {folder : FoundFolder} {pool left : TermPool}
    {traffic counted : Traffic} {fault : PageFault}
    (failed : read directory index folder pool traffic = (.error fault, left, counted)) :
    (left = pool ∨ left.terms = []) ∧ counted = traffic := by
  unfold read at failed
  split at failed
  · cases failed
    exact ⟨.inl rfl, rfl⟩
  · split at failed
    · rename_i loaded
      cases failed
      exact ⟨load_error loaded, rfl⟩
    · cases failed

end Page

/-- A store reads a page so, and then compares the number of its terms. -/
theorem PagedStore.readPage_eq (store : PagedStore) (page : Nat) (folder : FoundFolder) :
    store.readPage page folder =
      match Page.read store.directory page folder store.pool store.traffic with
      | (.error fault, pool, traffic) => (.error (.page fault), { store with pool, traffic })
      | (.ok held, pool, traffic) =>
          let written := store.pageSizes.getD page 0
          if held ≠ written then
            (.error (.page (.corrupt (Page.path store.directory page) (.count held written))),
              { store with traffic, pool := pool.clear })
          else
            let pool := pool.mapLive store.override
            (.ok (),
              { store with
                traffic, pool, recent := store.recent.use page pool.terms.toArray }) := by
  unfold readPage Page.read
  dsimp only
  cases Page.fetch store.directory page folder with
  | error fault => rfl
  | ok bytes =>
      dsimp only
      generalize Page.load (Page.path store.directory page) bytes store.pool = loaded
      obtain ⟨_ | held, pool⟩ := loaded
      · rfl
      · rfl

/-- The record of a built term is read into every slot with the same bits in every field, and bytes
that are no record leave the slot as it was. -/
theorem slots_read_exactly :
    (∀ (rule : RuleId) (shape : Shape) (weight changed : Weight Single) (atoms : List AtomId)
        (coefficients : List Single) (constant : Single) (built : Term Single),
      Term.build rule shape weight atoms coefficients constant = .ok built →
      ∀ (slot : Term Single) (rest : Bytes),
        Term.decodeInto slot (built.encode ++ rest) = (.ok (), built, rest) ∧
          Term.decodeInto slot (Term.encode { built with weight := changed } ++ rest) =
            (.ok (), { built with weight := changed }, rest)) ∧
    (∀ (slot : Term Single) (bytes : Bytes),
      (∃ fault, Term.decodeInto slot bytes = (.error fault, slot, bytes)) ∨
        ∃ term consumed rest, Term.decodeInto slot bytes = (.ok (), term, rest) ∧
          bytes = consumed ++ rest ∧ consumed.length = term.encodedLength ∧
            (term.encode = consumed ↔
              consumed[5]? = some 0 ∨ (consumed.drop 8).take 4 = [0, 0, 0, 0])) ∧
    (∀ (path : String) (index count : Nat) (bytes : Bytes) (pool taken : TermPool)
        (slot : Term Single), pool.nextSlot = .ok (slot, taken) →
      Page.decodeRecords path index (count + 1) bytes pool =
        match Term.decodeInto slot bytes with
        | (.error fault, slot, _) =>
            (.error (.corrupt path (.record index fault)), taken.fill slot)
        | (.ok _, slot, rest) =>
            Page.decodeRecords path (index + 1) count rest (taken.fill slot)) ∧
    ∀ (store : PagedStore) (page : Nat) (folder : FoundFolder) (fault : PageFault)
        (left : TermPool) (counted : Traffic),
      Page.read store.directory page folder store.pool store.traffic =
        (.error fault, left, counted) →
      (left = store.pool ∨ left.terms = []) ∧ counted = store.traffic ∧
        store.readPage page folder = (.error (.page fault), { store with pool := left }) := by
  refine ⟨?_, Term.decodeInto_cases, ?_, ?_⟩
  · intro rule shape weight changed atoms coefficients constant built accepted slot rest
    have wellFormed := Term.build_wellFormed accepted
    exact ⟨Term.decodeInto_encode_append wellFormed slot rest,
      Term.decodeInto_encode_append (wellFormed.withWeight changed) slot rest⟩
  · intro path index count bytes pool taken slot next
    rw [Page.decodeRecords_succ, next]
  · intro store page folder fault left counted failed
    obtain ⟨outcome, rfl⟩ := Page.read_error failed
    refine ⟨outcome, rfl, ?_⟩
    rw [store.readPage_eq, failed]

/-- A term of two atoms whose constant is a negative zero, made a constraint afterwards, is read
into the slot of a term of three. A page that is not there leaves the pool as it was. -/
theorem slots_read_exactly_sample :
    let built : Term Single := ⟨⟨7⟩, .squaredHinge, .soft 1, -0, [⟨3⟩, ⟨11⟩], [1, -1]⟩
    let stale : Term Single := ⟨⟨1⟩, .linear, .soft 1, 1, [⟨0⟩, ⟨1⟩, ⟨2⟩], [1, 1, 1]⟩
    let pool := ((TermPool.ofCapacity 1).take.fill stale).clear
    let store := { PagedStore.fresh (.sequential 1) (Path.ofText "pages") false with pool }
    Term.decodeInto stale (Term.encode { built with weight := .hard } ++ [1, 2, 3]) =
        (.ok (), { built with weight := .hard }, [1, 2, 3]) ∧
      (Page.decodeRecords "page" 0 1 (built.encode.take 15) pool).2 = pool.take ∧
        (store.readPage 0 (.ok [])).2.traffic = store.traffic := by
  intro built stale pool store
  have accepted : Term.build ⟨7⟩ .squaredHinge (.soft 1) [⟨3⟩, ⟨11⟩] [1, -1] (-0) = .ok built :=
    rfl
  have next : pool.nextSlot = .ok (stale, pool.take) := rfl
  have damaged : Term.decodeInto stale (built.encode.take 15) =
      (.error (.header 15), stale, built.encode.take 15) :=
    rfl
  have exact := slots_read_exactly
  have records := exact.2.2.1 "page" 0 0 (built.encode.take 15) pool pool.take stale next
  rw [damaged] at records
  refine ⟨(exact.1 ⟨7⟩ .squaredHinge (.soft 1) .hard [⟨3⟩, ⟨11⟩] [1, -1] (-0) built accepted stale
    [1, 2, 3]).2, by rw [records]; rfl, ?_⟩
  have missing := (exact.2.2.2 store 0 (.ok []) _ _ _ rfl).2.2
  rw [missing]

end HingeLoss
