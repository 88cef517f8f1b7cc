import TargetTiles.Rng.Basic
import TargetTiles.Wire.Record

/-!
# Checkpoints on the wire

A checkpoint of the random source is a record of three numbers. A position past the end of the
stream is kept as it stands.
-/

namespace TargetTiles

open Wire

/-- A checkpoint is written as three whole numbers. -/
def Checkpoint.toWire (saved : Checkpoint) : Wire :=
  .ofFields [("seed", .int saved.seed.toNat), ("word_pos", .int saved.position),
    ("fork_counter", .int saved.forks.toNat)]

/-- A checkpoint of which some fields may not have been read yet. -/
structure Checkpoint.Draft where
  seed : Option UInt64 := none
  position : Option Nat := none
  forks : Option UInt64 := none

/-- The fields of a checkpoint, in the order in which a list gives them. -/
def Checkpoint.fields : List (RecordField Checkpoint.Draft) :=
  [.of "seed" uint64 (·.seed) fun draft seed => { draft with seed := some seed },
    .of "word_pos" (natBelow 128) (·.position)
      fun draft position => { draft with position := some position },
    .of "fork_counter" uint64 (·.forks) fun draft forks => { draft with forks := some forks }]

/-- Reads a checkpoint; no field may be missing. -/
def Checkpoint.ofWire (wire : Wire) : Decoded Checkpoint := do
  let draft ← readRecord Checkpoint.fields {} wire
  return ⟨← required draft.seed, ← required draft.position, ← required draft.forks⟩

end TargetTiles
