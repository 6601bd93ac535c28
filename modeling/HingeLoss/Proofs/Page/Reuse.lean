import HingeLoss.Proofs.Page.Pool
import HingeLoss.Page.Image

/-! What the slots of a pool held before does not show in the pages that are read into it. -/

namespace HingeLoss

namespace TermPool

/-- Pools that only differ in the slots that are not in use. -/
structure Alike (first second : TermPool) : Prop where
  terms : second.terms = first.terms
  capacity : second.capacity = first.capacity

variable {first second : TermPool}

theorem Alike.refl (pool : TermPool) : pool.Alike pool := ⟨rfl, rfl⟩

theorem Alike.count (alike : first.Alike second) : second.count = first.count := by
  rw [← length_terms, alike.terms, length_terms]

theorem Alike.isFull (alike : first.Alike second) : second.isFull = first.isFull := by
  rw [TermPool.isFull, alike.count, alike.capacity, TermPool.isFull]

theorem Alike.isEmpty (alike : first.Alike second) : second.isEmpty = first.isEmpty := by
  rw [TermPool.isEmpty, alike.count, TermPool.isEmpty]

theorem Alike.overflow (alike : first.Alike second) : second.overflow = first.overflow := by
  rw [TermPool.overflow, alike.count, alike.capacity, TermPool.overflow]

theorem Alike.get? (alike : first.Alike second) (index : Nat) :
    second.get? index = first.get? index := by
  rw [get?_eq, get?_eq, alike.terms]

theorem alike_clear (same : second.capacity = first.capacity) : first.clear.Alike second.clear :=
  ⟨by simp, same⟩

theorem Alike.take_fill (alike : first.Alike second) (term : Term Single) :
    (first.take.fill term).Alike (second.take.fill term) :=
  ⟨by simp [alike.terms], by simp [alike.capacity]⟩

theorem Alike.mapLive (alike : first.Alike second) (change : Term Single → Term Single) :
    (first.mapLive change).Alike (second.mapLive change) :=
  ⟨by simp [alike.terms], alike.capacity⟩

end TermPool

namespace Page

/-- Records read into pools that are alike leave them alike, or have the same fault. -/
theorem decodeRecords_alike (path : String) (index count : Nat) (bytes : Bytes)
    {first second : TermPool} (alike : first.Alike second) :
    (∃ fault filled other, decodeRecords path index count bytes first = (.error fault, filled) ∧
        decodeRecords path index count bytes second = (.error fault, other) ∧
        other.capacity = filled.capacity) ∨
      ∃ rest filled other, decodeRecords path index count bytes first = (.ok rest, filled) ∧
        decodeRecords path index count bytes second = (.ok rest, other) ∧ filled.Alike other := by
  induction count generalizing index bytes first second with
  | zero => exact .inr ⟨bytes, first, second, rfl, rfl, alike⟩
  | succ count inductionHypothesis =>
      unfold decodeRecords
      rw [alike.isFull, alike.overflow]
      cases first.isFull with
      | true => exact .inl ⟨_, _, _, rfl, rfl, alike.capacity⟩
      | false =>
          simp only [Bool.false_eq_true, if_false]
          cases Term.decode bytes with
          | error fault =>
              refine .inl ⟨_, _, _, rfl, rfl, ?_⟩
              rw [TermPool.capacity_take, TermPool.capacity_take, alike.capacity]
          | ok read => exact inductionHypothesis _ _ (alike.take_fill read.1)

/-- The same holds of whole images. -/
theorem decode_alike (path : String) (bytes : Bytes) {first second : TermPool}
    (alike : first.Alike second) :
    (∃ fault filled other, decode path bytes first = (.error fault, filled) ∧
        decode path bytes second = (.error fault, other) ∧ other.capacity = filled.capacity) ∨
      ∃ count filled other, decode path bytes first = (.ok count, filled) ∧
        decode path bytes second = (.ok count, other) ∧ filled.Alike other := by
  have capacity := alike.capacity
  unfold decode
  split
  · rename_i n0 n1 n2 n3 rest
    dsimp only
    split
    · exact .inl ⟨_, _, _, rfl, rfl, capacity⟩
    · split
      · exact .inl ⟨_, _, _, rfl, rfl, capacity⟩
      · rw [capacity]
        split
        · exact .inl ⟨_, _, _, rfl, rfl, capacity⟩
        · rcases decodeRecords_alike path 0 (Bytes.toUInt32 n0 n1 n2 n3).toNat rest
            (TermPool.alike_clear capacity) with
            ⟨fault, filled, other, read, otherRead, capacity⟩ |
            ⟨left, filled, other, read, otherRead, same⟩
          · rw [read, otherRead]
            exact .inl ⟨_, _, _, rfl, rfl, capacity⟩
          · rw [read, otherRead]
            cases left with
            | nil => exact .inr ⟨_, _, _, rfl, rfl, same⟩
            | cons byte later => exact .inl ⟨_, _, _, rfl, rfl, same.capacity⟩
  · exact .inl ⟨_, _, _, rfl, rfl, capacity⟩

/-- A page read into pools that are alike leaves them alike, whether it can be read or not. -/
theorem load_alike (path : String) (bytes : Bytes) {first second : TermPool}
    (alike : first.Alike second) :
    ∃ answer filled other, load path bytes first = (answer, filled) ∧
      load path bytes second = (answer, other) ∧ filled.Alike other := by
  unfold load
  by_cases short : bytes.length < headerBytes
  · rw [if_pos short, if_pos short]
    exact ⟨_, _, _, rfl, rfl, alike⟩
  · rw [if_neg short, if_neg short]
    rcases decode_alike path bytes alike with ⟨fault, filled, other, read, otherRead, capacity⟩ |
      ⟨count, filled, other, read, otherRead, same⟩
    · rw [read, otherRead]
      exact ⟨_, _, _, rfl, rfl, TermPool.alike_clear capacity⟩
    · rw [read, otherRead]
      exact ⟨_, _, _, rfl, rfl, same⟩

theorem capacity_decodeRecords (path : String) (index count : Nat) (bytes : Bytes)
    (pool : TermPool) :
    (decodeRecords path index count bytes pool).2.capacity = pool.capacity := by
  induction count generalizing index bytes pool with
  | zero => rfl
  | succ count inductionHypothesis =>
      unfold decodeRecords
      split
      · rfl
      · split
        · exact pool.capacity_take
        · rw [inductionHypothesis, TermPool.capacity_fill, TermPool.capacity_take]

theorem capacity_decode {path : String} {bytes : Bytes} {pool filled : TermPool}
    {answer : Except PageFault Nat} (decoded : decode path bytes pool = (answer, filled)) :
    filled.capacity = pool.capacity := by
  unfold decode at decoded
  split at decoded
  · rename_i n0 n1 n2 n3 rest
    have kept := capacity_decodeRecords path 0 (Bytes.toUInt32 n0 n1 n2 n3).toNat rest pool.clear
    dsimp only at decoded
    split at decoded
    · cases decoded
      rfl
    · split at decoded
      · cases decoded
        rfl
      · split at decoded
        · cases decoded
          rfl
        · generalize decodeRecords path 0 _ rest pool.clear = outcome at kept decoded
          obtain ⟨_ | _ | _, left⟩ := outcome <;> cases decoded <;> exact kept
  · cases decoded
    rfl

/-- A page that is read leaves the pool as large as it was. -/
theorem capacity_load (path : String) (bytes : Bytes) (pool : TermPool) :
    (load path bytes pool).2.capacity = pool.capacity := by
  unfold load
  split
  · rfl
  · generalize decoded : decode path bytes pool = outcome
    have kept : outcome.2.capacity = pool.capacity := capacity_decode decoded
    obtain ⟨_ | count, filled⟩ := outcome <;> exact kept

end Page

end HingeLoss
