import HingeLoss.Page.Pool

/-! The image of a page: two words for its bytes and its terms, then the records of the terms. -/

namespace HingeLoss

namespace Page

def headerBytes : Nat := 8

/-- The records of the terms, one after another. -/
def body (terms : List (Term Single)) : Bytes := terms.flatMap Term.encode

/-- Both words of a header hold thirty-two bits. -/
def fitsHeader (bodyBytes terms : Nat) : Bool := bodyBytes < UInt32.size && terms < UInt32.size

def encode (terms : List (Term Single)) : Bytes :=
  let records := body terms
  Bytes.ofUInt32 records.length.toUInt32 ++ Bytes.ofUInt32 terms.length.toUInt32 ++ records

/-- The records fill the slots of the pool in turn. A record that cannot be read leaves its slot in
use with what the slot held before. -/
def decodeRecords (path : String) (index : Nat) :
    Nat → Bytes → TermPool → Except PageFault Bytes × TermPool
  | 0, rest, pool => (.ok rest, pool)
  | count + 1, rest, pool =>
      if pool.isFull then (.error pool.overflow, pool)
      else match Term.decode rest with
        | .error fault => (.error (.corrupt path (.record index fault)), pool.take)
        | .ok (term, rest) => decodeRecords path (index + 1) count rest (pool.take.fill term)

/-- The number of terms read into the pool. The path only serves the faults. -/
def decode (path : String) (bytes : Bytes) (pool : TermPool) : Except PageFault Nat × TermPool :=
  match bytes with
  | b0 :: b1 :: b2 :: b3 :: n0 :: n1 :: n2 :: n3 :: rest =>
      let declared := (Bytes.toUInt32 b0 b1 b2 b3).toNat
      let terms := (Bytes.toUInt32 n0 n1 n2 n3).toNat
      let available := rest.length
      if available < declared then
        (.error (.shortRead path (headerBytes + declared) (headerBytes + available)), pool)
      else if declared < available then
        (.error (.headerMismatch path declared available), pool)
      else if pool.capacity < terms then
        (.error (.poolOverflow terms pool.capacity), pool)
      else
        match decodeRecords path 0 terms rest pool.clear with
        | (.error fault, pool) => (.error fault, pool)
        | (.ok [], pool) => (.ok terms, pool)
        | (.ok left, pool) => (.error (.corrupt path (.trailing left.length terms)), pool)
  | short => (.error (.shortRead path headerBytes short.length), pool)

/-- The image of a page file read into the pool. A damaged image leaves the pool empty; one that is
too short for a header leaves it as it was. -/
def load (path : String) (bytes : Bytes) (pool : TermPool) : Except PageFault Nat × TermPool :=
  if bytes.length < headerBytes then
    (.error (.shortRead path headerBytes bytes.length), pool)
  else match decode path bytes pool with
    | (.error fault, pool) => (.error fault, pool.clear)
    | loaded => loaded

end Page

/-- The counters of page traffic. Bytes count the header too. -/
structure Traffic where
  pagesWritten : Nat := 0
  bytesWritten : Nat := 0
  pagesRead : Nat := 0
  bytesRead : Nat := 0
  cacheHits : Nat := 0
deriving DecidableEq, Inhabited

namespace Traffic

def recordWrite (traffic : Traffic) (bytes : Nat) : Traffic :=
  { traffic with
    pagesWritten := traffic.pagesWritten + 1
    bytesWritten := traffic.bytesWritten + bytes }

def recordRead (traffic : Traffic) (bytes : Nat) : Traffic :=
  { traffic with
    pagesRead := traffic.pagesRead + 1
    bytesRead := traffic.bytesRead + bytes }

def recordHit (traffic : Traffic) : Traffic := { traffic with cacheHits := traffic.cacheHits + 1 }

end Traffic

end HingeLoss
