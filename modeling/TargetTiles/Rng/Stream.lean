/-!
# The word stream of a seed

A seed of 64 bits names a stream of 2^68 words of 32 bits: the ChaCha key stream with eight
rounds, whose key the seed is stretched to. Any word can be computed on its own from the key and
its position, so a place in the stream is all there is to remember beside the seed.
-/

namespace TargetTiles.Stream

/-- A place in the stream, counted in words. Behind the last word comes the first one again. -/
abbrev Position := BitVec 68

/-! ## From the seed to the key -/

/-- One step of the linear congruence that stretches the seed. -/
def advance (state : UInt64) : UInt64 := state * 6364136223846793005 + 11634580027462260723

/-- The state after a number of steps. -/
def stateAfter (seed : UInt64) : Nat → UInt64
  | 0 => seed
  | steps + 1 => advance (stateAfter seed steps)

/-- The word turned right by an amount below 32. -/
def rotateRight (word amount : UInt32) : UInt32 :=
  (word >>> amount) ||| (word <<< (32 - amount))

/-- The word that a state puts out: its high bits folded, then turned by its five topmost bits. -/
def scramble (state : UInt64) : UInt32 :=
  rotateRight (((state >>> 18) ^^^ state) >>> 27).toUInt32 (state >>> 59).toUInt32

/-- The eight words that tell one stream from another. -/
abbrev Key := Vector UInt32 8

/-- The key that a seed is stretched to. -/
def key (seed : UInt64) : Key :=
  Vector.ofFn fun i => scramble (stateAfter seed (i + 1))

/-! ## From the key to a block of sixteen words -/

/-- The square of words that the rounds stir. -/
abbrev Square := Vector UInt32 16

/-- The word turned left by an amount below 32. -/
def rotateLeft (word amount : UInt32) : UInt32 :=
  (word <<< amount) ||| (word >>> (32 - amount))

/-- Adds one word to another and turns a third by their sum. -/
def addTurn (square : Square) (into term turned : Fin 16) (amount : UInt32) : Square :=
  let sum := square[into] + square[term]
  (square.set into sum).set turned (rotateLeft (square[turned] ^^^ sum) amount)

/-- A quarter round on four words of the square. -/
def quarterRound (square : Square) (a b c d : Fin 16) : Square :=
  let square := addTurn square a b d 16
  let square := addTurn square c d b 12
  let square := addTurn square a b d 8
  addTurn square c d b 7

/-- A round on the four columns and one on the four diagonals. -/
def doubleRound (square : Square) : Square :=
  let square := quarterRound square 0 4 8 12
  let square := quarterRound square 1 5 9 13
  let square := quarterRound square 2 6 10 14
  let square := quarterRound square 3 7 11 15
  let square := quarterRound square 0 5 10 15
  let square := quarterRound square 1 6 11 12
  let square := quarterRound square 2 7 8 13
  quarterRound square 3 4 9 14

/-- The square before the rounds: four constants, the key, the number of the block, two zeros. -/
def start (key : Key) (number : UInt64) : Square :=
  -- the constants spell "expand 32-byte k"
  #v[0x61707865, 0x3320646e, 0x79622d32, 0x6b206574,
    key[0], key[1], key[2], key[3], key[4], key[5], key[6], key[7],
    number.toUInt32, (number >>> 32).toUInt32, 0, 0]

/-- One block of the key stream: four double rounds, then the square they began with added on. -/
def block (key : Key) (number : UInt64) : Square :=
  let square := start key number
  (doubleRound (doubleRound (doubleRound (doubleRound square)))).zipWith (· + ·) square

/-- The word at a position: the position's low four bits choose among the words of its block. -/
def word (key : Key) (position : Position) : UInt32 :=
  (block key (.ofNat (position.toNat / 16)))[position.toNat % 16]

end TargetTiles.Stream
