/-! # Keystream

    A reproducible source of random words: the ChaCha block function with
    twelve rounds, run in counter mode under a key that is expanded from a
    64-bit seed.  All arithmetic is modulo the word size. -/

namespace Dataflow

/-- The sixteen words on which the block function works. -/
abbrev Block := Vector UInt32 16

namespace Block

/-- Rotate a word to the left, by less than its width. -/
def rotateLeft (x n : UInt32) : UInt32 := (x <<< n) ||| (x >>> (32 - n))

/-- Mix four words of the block. -/
def quarterRound (s : Block) (a b c d : Fin 16) : Block :=
  let s := s.set a (s[a] + s[b])
  let s := s.set d (rotateLeft (s[d] ^^^ s[a]) 16)
  let s := s.set c (s[c] + s[d])
  let s := s.set b (rotateLeft (s[b] ^^^ s[c]) 12)
  let s := s.set a (s[a] + s[b])
  let s := s.set d (rotateLeft (s[d] ^^^ s[a]) 8)
  let s := s.set c (s[c] + s[d])
  s.set b (rotateLeft (s[b] ^^^ s[c]) 7)

/-- Mix the columns of the block, then its diagonals. -/
def doubleRound (s : Block) : Block :=
  let s := s.quarterRound 0 4 8 12
  let s := s.quarterRound 1 5 9 13
  let s := s.quarterRound 2 6 10 14
  let s := s.quarterRound 3 7 11 15
  let s := s.quarterRound 0 5 10 15
  let s := s.quarterRound 1 6 11 12
  let s := s.quarterRound 2 7 8 13
  s.quarterRound 3 4 9 14

/-- Twelve rounds, and the starting words added to their outcome. -/
def mix (s : Block) : Block :=
  let mixed := (List.range 6).foldl (fun s _ => s.doubleRound) s
  Vector.zipWith (· + ·) mixed s

/-- The starting words of a block: constants, key, block number. -/
def start (key : Vector UInt32 8) (counter : UInt64) : Block :=
  (#v[0x61707865, 0x3320646e, 0x79622d32, 0x6b206574] : Vector UInt32 4) ++ key
    ++ #v[counter.toUInt32, (counter >>> 32).toUInt32, 0, 0]

end Block

/-- A position in the stream of words under a key. -/
structure Keystream where
  key : Vector UInt32 8
  /-- The number of the next block. -/
  counter : UInt64 := 0
  /-- The words of the current block that have not been used. -/
  pending : List UInt32 := []

namespace Keystream

/-- One step of the generator that expands a seed into key words. -/
def stepSeed (state : UInt64) : UInt64 :=
  state * 6364136223846793005 + 11634580027462260723

/-- The key word that belongs to a state of the seed generator: the high
    bits, rotated by an amount that the highest five bits give. -/
def keyWord (state : UInt64) : UInt32 :=
  let x := (((state >>> 18) ^^^ state) >>> 27).toUInt32
  let r := (state >>> 59).toUInt32
  (x >>> r) ||| (x <<< ((32 - r) % 32))

/-- The state of the seed generator after `n` steps. -/
def seedState (seed : UInt64) : Nat → UInt64
  | 0 => seed
  | n + 1 => stepSeed (seedState seed n)

/-- The stream that belongs to a seed. -/
def ofSeed (seed : UInt64) : Keystream where
  key := Vector.ofFn fun i : Fin 8 => keyWord (seedState seed (i + 1))

/-- The next word of the stream. -/
def word (s : Keystream) : UInt32 × Keystream :=
  match s.pending with
  | w :: rest => (w, { s with pending := rest })
  | [] =>
    let block := (Block.start s.key s.counter).mix
    (block[0], { s with counter := s.counter + 1, pending := block.toList.tail })

/-- The next two words of the stream as one number, low half first. -/
def draw (s : Keystream) : UInt64 × Keystream :=
  let (low, s) := s.word
  let (high, s) := s.word
  (low.toUInt64 ||| (high.toUInt64 <<< 32), s)

end Keystream

end Dataflow
