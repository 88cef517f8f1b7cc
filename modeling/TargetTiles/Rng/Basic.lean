import TargetTiles.Fault
import TargetTiles.Rng.Fair
import TargetTiles.Rng.Stream

/-!
# The random source

A random source reads the word stream of a key from some place on, and counts the branches taken
from it. The key is the one that its seed is stretched to when the source is made, and no use of the
source changes either; so a checkpoint need not hold the key, and the seed, the place and the count
resume the source exactly.

Numbers and swaps are drawn by rejection: words are read until one counts. A draw looks at one
full turn of the stream at most; if no word of it counted, the least choice would stand.
-/

namespace TargetTiles

/-- A source of random numbers. The seed is kept beside the key that is read with, for checkpoints
and branches. -/
structure Rng where
  seed : UInt64
  key : Stream.Key
  position : Stream.Position
  forks : UInt64
  /-- The stream that is read is the seed's. -/
  keyed : key = Stream.key seed
deriving DecidableEq, Repr

/-- What has to be kept of a source to resume it. -/
structure Checkpoint where
  seed : UInt64
  position : Nat
  forks : UInt64
deriving DecidableEq, Repr

namespace Rng

/-- The source at the start of its seed's stream. -/
def ofSeed (seed : UInt64) : Rng := ⟨seed, Stream.key seed, 0, 0, rfl⟩

def checkpoint (rng : Rng) : Checkpoint := ⟨rng.seed, rng.position.toNat, rng.forks⟩

/-- The source that a checkpoint was taken of. A position past the end of the stream counts on
from its beginning. -/
def ofCheckpoint (saved : Checkpoint) : Rng :=
  ⟨saved.seed, Stream.key saved.seed, .ofNat 68 saved.position, saved.forks, rfl⟩

/-! ## Words -/

/-- Reads the word at the place of the source. -/
def word32 (rng : Rng) : Nat × Rng :=
  ((Stream.word rng.key rng.position).toNat, { rng with position := rng.position + 1 })

/-- Reads two words as one number, the low half first. -/
def word64 (rng : Rng) : Nat × Rng :=
  let (low, rng) := rng.word32
  let (high, rng) := rng.word32
  (high <<< 32 + low, rng)

/-! ## Choices -/

/-- The choice of the first word that counts, among `tries` words; 0 if none of them does. -/
def firstFair (next : Rng → Nat × Rng) (bits range : Nat) : Nat → Rng → Nat × Rng
  | 0, rng => (0, rng)
  | tries + 1, rng =>
    let (word, rng) := next rng
    match Fair.choose? bits range word with
    | some choice => (choice, rng)
    | none => firstFair next bits range tries rng

/-- Draws an index below `range`, which is positive and below 2^32. -/
def index (rng : Rng) (range : Nat) : Nat × Rng := firstFair word32 32 range (1 <<< 68) rng

/-- Draws a number from `low` to `high`, both included. -/
def between (rng : Rng) (low high : Int64) : Except RoundError (Int64 × Rng) :=
  if high < low then .error .emptyRange
  else
    let range := (high.toInt - low.toInt + 1).toNat
    -- every word is a number of the full range
    if range = 1 <<< 64 then
      let (word, rng) := rng.word64
      .ok (Int64.ofNat word, rng)
    else
      let (offset, rng) := firstFair word64 64 range (1 <<< 67) rng
      .ok (Int64.ofInt (low.toInt + offset), rng)

/-- Draws several numbers, each from `low` to `high`. -/
def draws (rng : Rng) (low high : Int64) : Nat → Except RoundError (List Int64 × Rng)
  | 0 => .ok ([], rng)
  | count + 1 => do
    let (number, rng) ← rng.between low high
    let (numbers, rng) ← rng.draws low high count
    return (number :: numbers, rng)

/-! ## Shuffles -/

/-- Draws the swaps of a shuffle: for each position from `last` down to 1, the position at or
before it that it changes places with. -/
def swaps (rng : Rng) : Nat → List Nat × Rng
  | 0 => ([], rng)
  | last + 1 =>
    let (partner, rng) := rng.index (last + 2)
    let (partners, rng) := rng.swaps last
    (partner :: partners, rng)

/-- Carries out the swaps of the positions from `last` down to 1. -/
def permute {α : Type} : (last : Nat) → (partners : List Nat) → Array α → Array α
  | last + 1, partner :: partners, items =>
    permute last partners (items.swapIfInBounds (last + 1) partner)
  | _, _, items => items

/-- Puts the items in random order, each order being as likely as any other. -/
def shuffle {α : Type} (rng : Rng) (items : List α) : List α × Rng :=
  let (partners, rng) := rng.swaps (items.length - 1)
  ((permute (items.length - 1) partners items.toArray).toList, rng)

/-! ## Branches -/

/-- The distance between the seeds of neighbouring branches. -/
def stride : UInt64 := 0x9E3779B97F4A7C15

/-- Takes a branch: a new source, and the old one with the branch counted. Nothing is read, and
the branch depends on the seed and the count alone. -/
def fork (rng : Rng) : Rng × Rng :=
  let forks := rng.forks + 1
  (ofSeed (rng.seed + forks * stride), { rng with forks })

end Rng

end TargetTiles
