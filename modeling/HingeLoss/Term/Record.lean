import HingeLoss.Number.Bytes
import HingeLoss.Term.Basic

/-! The binary record of a term: sixteen bytes of header, then eight bytes for each atom. -/

namespace HingeLoss

/-- The reasons for which bytes are no record. -/
inductive RecordFault where
  | header (remaining : Nat)
  | shapeTag (tag : Nat)
  | hardFlag (flag : Nat)
  | noAtoms
  | body (arity remaining : Nat)
deriving DecidableEq

namespace Term

def headerBytes : Nat := 16

def entryBytes : Nat := 8

def encodedLength {α : Type} (term : Term α) : Nat := headerBytes + entryBytes * term.arity

def encodeEntry (entry : AtomId × Single) : Bytes :=
  Bytes.ofUInt32 entry.1.number ++ Bytes.ofUInt32 entry.2.bits

def encode (term : Term Single) : Bytes :=
  let (hard, weight) : UInt8 × Single := match term.weight with
    | .soft value => (0, value)
    | .hard => (1, 0)
  Bytes.ofUInt32 term.rule.number ++ [term.shape.tag, hard] ++
    Bytes.ofUInt16 term.arity.toUInt16 ++ Bytes.ofUInt32 weight.bits ++
    Bytes.ofUInt32 term.constant.bits ++ term.entries.flatMap encodeEntry

/-- A number of entries and the bytes after them, if there are enough bytes. -/
def decodeEntries : Nat → Bytes → Option (List (AtomId × Single) × Bytes)
  | 0, rest => some ([], rest)
  | count + 1, a :: b :: c :: d :: e :: f :: g :: h :: rest =>
      (decodeEntries count rest).map fun (entries, rest) =>
        ((⟨Bytes.toUInt32 a b c d⟩, ⟨Bytes.toUInt32 e f g h⟩) :: entries, rest)
  | _, _ => none

end Term

namespace RecordFault

def text : RecordFault → String
  | header remaining => s!"record header needs {Term.headerBytes} bytes, {remaining} remain"
  | shapeTag tag => s!"unknown potential kind tag {tag}"
  | hardFlag flag => s!"invalid hard flag {flag}"
  | noAtoms => "record has zero arity"
  | body arity remaining =>
      let needed := Term.entryBytes * arity
      s!"record of arity {arity} needs {needed} bytes, {remaining} remain"

end RecordFault

namespace Term

/-- The term whose record the bytes start with, and the bytes after it. -/
def decode : Bytes → Except RecordFault (Term Single × Bytes)
  | r0 :: r1 :: r2 :: r3 :: tag :: flag :: n0 :: n1 :: w0 :: w1 :: w2 :: w3 ::
      k0 :: k1 :: k2 :: k3 :: rest =>
    let arity := (Bytes.toUInt16 n0 n1).toNat
    match Shape.ofTag? tag with
    | none => .error (.shapeTag tag.toNat)
    | some shape =>
        if 1 < flag then .error (.hardFlag flag.toNat)
        else if arity = 0 then .error .noAtoms
        else match decodeEntries arity rest with
          | none => .error (.body arity rest.length)
          | some (entries, rest) =>
              let weight := if flag = 1 then .hard else .soft ⟨Bytes.toUInt32 w0 w1 w2 w3⟩
              .ok (⟨⟨Bytes.toUInt32 r0 r1 r2 r3⟩, shape, weight, ⟨Bytes.toUInt32 k0 k1 k2 k3⟩,
                entries.map Prod.fst, entries.map Prod.snd⟩, rest)
  | short => .error (.header short.length)

end Term

end HingeLoss
