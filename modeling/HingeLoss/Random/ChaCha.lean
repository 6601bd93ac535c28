/-! The ChaCha generator with twelve rounds. -/

namespace HingeLoss

structure Generator where
  key : Vector UInt32 8
  counter : UInt64
  pending : List UInt32

namespace Generator

abbrev Block := Vector UInt32 16

@[inline] def rotateLeft (word : UInt32) (amount : UInt32) : UInt32 :=
  (word <<< amount) ||| (word >>> (32 - amount))

@[inline] def quarterRound (block : Block) (a b c d : Fin 16) : Block :=
  let block := block.set a (block[a] + block[b])
  let block := block.set d (rotateLeft (block[d] ^^^ block[a]) 16)
  let block := block.set c (block[c] + block[d])
  let block := block.set b (rotateLeft (block[b] ^^^ block[c]) 12)
  let block := block.set a (block[a] + block[b])
  let block := block.set d (rotateLeft (block[d] ^^^ block[a]) 8)
  let block := block.set c (block[c] + block[d])
  block.set b (rotateLeft (block[b] ^^^ block[c]) 7)

/-- Four quarter rounds go down the columns and four along the diagonals. -/
def doubleRound (block : Block) : Block :=
  let block := quarterRound block 0 4 8 12
  let block := quarterRound block 1 5 9 13
  let block := quarterRound block 2 6 10 14
  let block := quarterRound block 3 7 11 15
  let block := quarterRound block 0 5 10 15
  let block := quarterRound block 1 6 11 12
  let block := quarterRound block 2 7 8 13
  quarterRound block 3 4 9 14

/-- The constant words, the key, the counter with its low word first and the stream number zero. -/
def initialBlock (key : Vector UInt32 8) (counter : UInt64) : Block :=
  #v[0x61707865, 0x3320646e, 0x79622d32, 0x6b206574,
    key[0], key[1], key[2], key[3], key[4], key[5], key[6], key[7],
    counter.toUInt32, (counter >>> 32).toUInt32, 0, 0]

def keystream (key : Vector UInt32 8) (counter : UInt64) : Block :=
  let initial := initialBlock key counter
  Vector.zipWith (· + ·) (Nat.repeat doubleRound 6 initial) initial

/-- The first block is drawn from only when a word is asked for. -/
def ofKey (key : Vector UInt32 8) : Generator := ⟨key, 0, []⟩

/-- The next word and the state after it. -/
def next (generator : Generator) : UInt32 × Generator :=
  match generator.pending with
  | word :: pending => (word, { generator with pending })
  | [] =>
      let block := keystream generator.key generator.counter
      (block[0], { generator with counter := generator.counter + 1, pending := block.toList.tail })

/-- One step of the congruential sequence that stretches a seed. -/
def stretch (seed : UInt64) : UInt64 := seed * 6364136223846793005 + 11634580027462260723

/-- The word that a state of the congruential sequence gives. -/
def stretchedWord (state : UInt64) : UInt32 :=
  let mixed := (((state >>> 18) ^^^ state) >>> 27).toUInt32
  let amount := (state >>> 59).toUInt32
  (mixed >>> amount) ||| (mixed <<< ((32 - amount) &&& 31))

/-- The eight key words follow from eight steps of the congruential sequence. -/
def ofSeed (seed : UInt64) : Generator :=
  ofKey (Vector.ofFn fun index => stretchedWord (Nat.repeat stretch (index.val + 1) seed))

end Generator

end HingeLoss
