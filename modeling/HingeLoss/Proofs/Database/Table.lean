import HingeLoss.Database.Layer
import HingeLoss.Proofs.Atom.Store
import HingeLoss.Proofs.Atom.Change
import Mathlib.Data.List.Induction
import Mathlib.Logic.Function.Basic

/-! The table of saved atoms, which finds the last of the records that share a number. -/

namespace HingeLoss

/-- Some entries list a table in the order of its numbers. -/
structure Lists (entries : List (UInt32 × Bytes)) (table : UInt32 → Option Bytes) : Prop where
  increasing : entries.Pairwise fun first second => first.1 < second.1
  found : ∀ number bytes, (number, bytes) ∈ entries ↔ table number = some bytes

/-- A table is listed in one way only. -/
theorem Lists.unique {first second : List (UInt32 × Bytes)} {table : UInt32 → Option Bytes}
    (lists : Lists first table) (others : Lists second table) : first = second := by
  have distinct {list : List (UInt32 × Bytes)}
      (increasing : list.Pairwise fun first second => first.1 < second.1) : list.Nodup := by
    apply increasing.imp
    rintro first _ below rfl
    exact UInt32.lt_irrefl _ below
  refine List.Perm.eq_of_pairwise (fun first second _ _ below above => ?_) lists.increasing
    others.increasing ?_
  · exact absurd (UInt32.lt_trans below above) (UInt32.lt_irrefl _)
  · rw [List.perm_ext_iff_of_nodup (distinct lists.increasing) (distinct others.increasing)]
    rintro ⟨number, bytes⟩
    rw [lists.found, others.found]

/-- Records come back as they were written. -/
def RecordCoding.RoundTrips (coding : RecordCoding) : Prop :=
  ∀ record, ∃ bytes, coding.encode record = .ok bytes ∧ coding.decode? bytes = some record

namespace AtomTable

/-- The last one of a number of places whose number in thirty-two bits is a given one. -/
def lastPlace (count number : Nat) : Nat :=
  number + UInt32.size * ((count - 1 - number) / UInt32.size)

/-- What is found of records that were filed in turn: of those with one number the last one. -/
def filed (records : List (AtomRecord Single)) : List (AtomRecord Single) :=
  (records.take UInt32.size).mapIdx fun number record =>
    records.getD (lastPlace records.length number) record

variable {records : List (AtomRecord Single)}

theorem lastPlace_eq (count number : Nat) :
    lastPlace count number = number + 4294967296 * ((count - 1 - number) / 4294967296) := rfl

theorem length_filed_le (records : List (AtomRecord Single)) :
    (filed records).length ≤ UInt32.size := by
  rw [filed, List.length_mapIdx]
  exact List.length_take_le _ _

theorem getElem?_filed {number : Nat} (inRange : number < UInt32.size) :
    (filed records)[number]? = records[lastPlace records.length number]? := by
  rw [filed, List.getElem?_mapIdx, List.getElem?_take, if_pos inRange]
  rcases Nat.lt_or_ge number records.length with inside | outside
  · have last : lastPlace records.length number < records.length := by
      rw [lastPlace_eq]
      omega
    rw [List.getElem?_eq_getElem inside, List.getElem?_eq_getElem last, Option.map_some,
      List.getD_eq_getElem?_getD, List.getElem?_eq_getElem last, Option.getD_some]
  · have same : lastPlace records.length number = number := by
      rw [lastPlace_eq]
      omega
    rw [same, List.getElem?_eq_none outside, Option.map_none]

/-- As long as there are numbers for all records, every record has one of its own. -/
theorem filed_eq_self (numbered : records.length ≤ UInt32.size) : filed records = records := by
  have size : UInt32.size = 4294967296 := rfl
  apply List.ext_getElem?
  intro number
  rcases Nat.lt_or_ge number UInt32.size with inRange | outside
  · have same : lastPlace records.length number = number := by
      rw [lastPlace_eq]
      omega
    rw [getElem?_filed inRange, same]
  · rw [List.getElem?_eq_none (Nat.le_trans (length_filed_le records) outside),
      List.getElem?_eq_none (Nat.le_trans numbered outside)]

theorem mem_of_mem_filed {record : AtomRecord Single} (member : record ∈ filed records) :
    record ∈ records := by
  obtain ⟨number, inside, rfl⟩ := List.getElem_of_mem member
  have found := List.getElem?_eq_getElem inside
  rw [getElem?_filed (Nat.lt_of_lt_of_le inside (length_filed_le records))] at found
  exact List.mem_of_getElem? found

section Coding

variable (encoded : AtomRecord Single → Bytes)

/-- The entries of records under the numbers from zero on. -/
def entries (records : List (AtomRecord Single)) : List (UInt32 × Bytes) :=
  records.zipIdx.map fun entry => (entry.2.toUInt32, encoded entry.1)

/-- The table of some records: what was filed last under each number. -/
def ofRecords (records : List (AtomRecord Single)) (number : UInt32) : Option Bytes :=
  (filed records)[number.toNat]?.map encoded

/-- A record is filed under the number of its place. -/
def file (table : UInt32 → Option Bytes) (entry : AtomRecord Single × Nat) :
    UInt32 → Option Bytes :=
  Function.update table entry.2.toUInt32 (some (encoded entry.1))

theorem lists_entries (numbered : records.length ≤ UInt32.size) :
    Lists (entries encoded records) fun number => records[number.toNat]?.map encoded where
  increasing := by
    rw [List.pairwise_iff_getElem]
    intro first second firstInside secondInside below
    simp only [entries, List.length_map, List.length_zipIdx] at firstInside secondInside
    simp only [entries, List.getElem_map, List.getElem_zipIdx, Nat.zero_add]
    rw [UInt32.lt_iff_toNat_lt, Nat.toUInt32_eq, Nat.toUInt32_eq, UInt32.toNat_ofNat_of_lt',
      UInt32.toNat_ofNat_of_lt'] <;> omega
  found number bytes := by
    simp only [entries, List.mem_map, Prod.mk.injEq, Prod.exists, Option.map_eq_some_iff,
      List.mem_zipIdx_iff_getElem?]
    constructor
    · rintro ⟨record, index, found, rfl, same⟩
      have inside := (List.getElem?_eq_some_iff.mp found).1
      refine ⟨record, ?_, same⟩
      rw [Nat.toUInt32_eq, UInt32.toNat_ofNat_of_lt' (Nat.lt_of_lt_of_le inside numbered)]
      exact found
    · rintro ⟨record, found, same⟩
      exact ⟨record, number.toNat, found, UInt32.ofNat_toNat, same⟩

/-- The table of some records lists the ones that are found. -/
theorem lists_ofRecords (records : List (AtomRecord Single)) :
    Lists (entries encoded (filed records)) (ofRecords encoded records) :=
  lists_entries encoded (length_filed_le records)

/-- Under each number the last record is found that was filed under it. -/
theorem foldl_file (records : List (AtomRecord Single)) :
    records.zipIdx.foldl (file encoded) (fun _ => none) = ofRecords encoded records := by
  suffices found : ∀ number : UInt32, records.zipIdx.foldl (file encoded) (fun _ => none) number =
      records[lastPlace records.length number.toNat]?.map encoded by
    funext number
    rw [found, ofRecords, getElem?_filed number.toNat_lt]
  intro number
  have bound : number.toNat < 4294967296 := number.toNat_lt
  induction records using List.reverseRecOn with
  | nil => simp
  | append_singleton earlier record inductionHypothesis =>
      rw [List.zipIdx_append, List.foldl_append, List.zipIdx_singleton, List.foldl_cons,
        List.foldl_nil, file, Nat.zero_add, List.length_append, List.length_singleton]
      by_cases here : number = earlier.length.toUInt32
      · have last : lastPlace (earlier.length + 1) number.toNat = earlier.length := by
          have same := congrArg UInt32.toNat here
          rw [Nat.toUInt32_eq, UInt32.toNat_ofNat'] at same
          rw [lastPlace_eq]
          omega
        rw [here, Function.update_self, ← here, last, List.getElem?_concat_length, Option.map_some]
      · have other : earlier.length % 4294967296 ≠ number.toNat := by
          intro same
          apply here
          apply UInt32.toNat_inj.mp
          rw [Nat.toUInt32_eq, UInt32.toNat_ofNat']
          exact same.symm
        have kept : lastPlace (earlier.length + 1) number.toNat =
            lastPlace earlier.length number.toNat := by
          rw [lastPlace_eq, lastPlace_eq]
          omega
        have apart : lastPlace earlier.length number.toNat ≠ earlier.length := by
          rw [lastPlace_eq]
          omega
        rw [Function.update_of_ne here, inductionHypothesis, kept]
        congr 1
        rw [List.getElem?_append]
        split
        · rfl
        · rename_i outside
          have beyond : [record].length ≤ lastPlace earlier.length number.toNat - earlier.length := by
            rw [List.length_singleton]
            omega
          rw [List.getElem?_eq_none beyond, List.getElem?_eq_none (Nat.not_lt.mp outside)]

end Coding

/-- Valid records under the next numbers are registered in turn. -/
theorem foldlM_loadNext {coding : RecordCoding} {encoded : AtomRecord Single → Bytes}
    (decodes : ∀ record, coding.decode? (encoded record) = some record)
    (valid : ∀ record ∈ records, AtomStore.inUnit record.value = true)
    (atoms : AtomStore Single) (numbered : atoms.size + records.length ≤ UInt32.size) :
    ∃ after, records.foldlM (fun store record => (store.register record).map Prod.snd) atoms =
        .ok after ∧
      ((records.zipIdx atoms.size).map fun entry =>
        Except.ok (entry.2.toUInt32, encoded entry.1)).foldlM coding.loadNext atoms = .ok after := by
  induction records generalizing atoms with
  | nil => exact ⟨atoms, rfl, rfl⟩
  | cons record later inductionHypothesis =>
      rw [List.forall_mem_cons] at valid
      rw [List.length_cons] at numbered
      have next : atoms.size.toUInt32.toNat = atoms.size := by
        rw [Nat.toUInt32_eq, UInt32.toNat_ofNat_of_lt' (by omega)]
      let added : AtomStore Single := ⟨atoms.records.push record, atoms.partition.push,
        by rw [Forest.size_push, atoms.sizesAgree, Array.size_push]⟩
      have registered : atoms.register record = .ok (.ofIndex atoms.size, added) :=
        if_pos valid.1
      have size : added.size = atoms.size + 1 := Array.size_push ..
      obtain ⟨after, built, loaded⟩ := inductionHypothesis valid.2 added (by omega)
      refine ⟨after, ?_, ?_⟩
      · rw [List.foldlM_cons, registered]
        exact built
      · have loadedFirst : coding.loadNext atoms (.ok (atoms.size.toUInt32, encoded record)) =
            .ok added := by
          simp only [RecordCoding.loadNext, during, Except.mapError, bind, Except.bind, next, ne_eq,
            not_true_eq_false, if_false, decodes, registered]
        rw [List.zipIdx_cons, List.map_cons, List.foldlM_cons, loadedFirst, ← size]
        exact loaded

/-- Entries of valid records are loaded as the store of these records. -/
theorem foldlM_entries {coding : RecordCoding} {encoded : AtomRecord Single → Bytes}
    (decodes : ∀ record, coding.decode? (encoded record) = some record)
    (valid : ∀ record ∈ records, AtomStore.inUnit record.value = true)
    (numbered : records.length ≤ UInt32.size) :
    ∃ atoms, AtomStore.ofRecords records = .ok atoms ∧
      ((entries encoded records).map .ok).foldlM coding.loadNext .empty = .ok atoms := by
  rw [entries, List.map_map]
  exact foldlM_loadNext decodes valid .empty
    (by simpa [AtomStore.size, AtomStore.empty] using numbered)

end AtomTable

end HingeLoss
