-- ChaCha with 12 rounds as a source of random words: one stream of words of 32 bits, and of 64
-- bits as two of them, the low half first. A seed of 64 bits is stretched to the key.
import TextGrammar.Chance.WordSource

namespace TextGrammar

/-! ## Blocks -/

/-- Sixteen words. -/
abbrev ChaChaBlock := Vector UInt32 16

/-- Turns the bits of a word left; those that leave on the left come back on the right. -/
def rotateLeft (x : UInt32) (n : UInt32) : UInt32 := (x <<< n) ||| (x >>> (32 - n))

/-- Mixes four words of a block. -/
def quarterRound (b : ChaChaBlock) (i j k l : Fin 16) : ChaChaBlock :=
  let b := b.set i (b[i] + b[j])
  let b := b.set l (rotateLeft (b[l] ^^^ b[i]) 16)
  let b := b.set k (b[k] + b[l])
  let b := b.set j (rotateLeft (b[j] ^^^ b[k]) 12)
  let b := b.set i (b[i] + b[j])
  let b := b.set l (rotateLeft (b[l] ^^^ b[i]) 8)
  let b := b.set k (b[k] + b[l])
  b.set j (rotateLeft (b[j] ^^^ b[k]) 7)

/-- Mixes the columns of a block, then its diagonals. -/
def doubleRound (b : ChaChaBlock) : ChaChaBlock :=
  let b := quarterRound b 0 4 8 12
  let b := quarterRound b 1 5 9 13
  let b := quarterRound b 2 6 10 14
  let b := quarterRound b 3 7 11 15
  let b := quarterRound b 0 5 10 15
  let b := quarterRound b 1 6 11 12
  let b := quarterRound b 2 7 8 13
  quarterRound b 3 4 9 14

/-- The block before mixing: four constants, the key, the number of the block, and zeros. -/
def initialBlock (key : Vector UInt32 8) (counter : UInt64) : ChaChaBlock :=
  #v[0x61707865, 0x3320646e, 0x79622d32, 0x6b206574,
    key[0], key[1], key[2], key[3], key[4], key[5], key[6], key[7],
    counter.toUInt32, (counter >>> 32).toUInt32, 0, 0]

/-- A block of the stream: six double rounds, added to the block before mixing. -/
def streamBlock (key : Vector UInt32 8) (counter : UInt64) : ChaChaBlock :=
  let start := initialBlock key counter
  let mixed := Nat.repeat doubleRound 6 start
  Vector.zipWith (· + ·) mixed start

/-! ## The stream -/

/-- A place in a stream: the words of the current block that are left, and the next block. -/
structure ChaCha where
  key : Vector UInt32 8
  counter : UInt64
  ready : List UInt32

namespace ChaCha

/-- Takes the next word of 32 bits. -/
def next (stream : ChaCha) : UInt32 × ChaCha :=
  match stream.ready with
  | word :: ready => (word, { stream with ready })
  | [] =>
    match (streamBlock stream.key stream.counter).toList with
    | word :: ready => (word, { stream with counter := stream.counter + 1, ready })
    | [] => (0, stream)

/-- One step of the generator that stretches a seed. -/
def stretch (s : UInt64) : UInt64 := s * 6364136223846793005 + 11634580027462260723

/-- The word that a state of that generator gives: mixed bits, turned right by its top five. -/
def stretchedWord (s : UInt64) : UInt32 :=
  let mixed := (((s >>> 18) ^^^ s) >>> 27).toUInt32
  let turn := (s >>> 59).toUInt32
  rotateLeft mixed ((32 - turn) % 32)

/-- The key of a seed. -/
def keyOf (seed : UInt64) : Vector UInt32 8 :=
  Vector.ofFn fun i => stretchedWord (Nat.repeat stretch (i.val + 1) seed)

/-- The stream of a seed, from its start. -/
def ofSeed (seed : UInt64) : ChaCha := ⟨keyOf seed, 0, []⟩

instance : WordSource ChaCha where
  word32 := next
  word64 stream :=
    let (low, stream) := stream.next
    let (high, stream) := stream.next
    (low.toUInt64 ||| (high.toUInt64 <<< 32), stream)

end ChaCha

end TextGrammar
