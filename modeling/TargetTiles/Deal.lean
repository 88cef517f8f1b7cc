import TargetTiles.Reply
import TargetTiles.Rng.Basic
import TargetTiles.Rules
import TargetTiles.Setup

/-!
# Deals

How rules and a random source make a setup, and which setups could have come about that way.
Both pools are shuffled in full before any tile is taken and before the target is drawn, so a deal
reads the same words of the stream whatever number of large tiles is asked for.
-/

namespace TargetTiles.Rules

/-- The tiles of a round: the first ones of the shuffled large pool, then the first ones of the
shuffled small pool. -/
def pick (rules : Rules) (large : Nat) (largePool smallPool : List Int64) : List Int64 :=
  largePool.take large ++ smallPool.take (rules.tileCount - large)

/-- Deals a round with a number of large tiles. -/
def deal (rules : Rules) (large : Nat) (rng : Rng) : Reply Rng Setup :=
  match rules.checkLarge large with
  | .error error => .refuse error rng
  | .ok () =>
    -- all of both pools, whatever is taken of them
    let (largePool, rng) := rng.shuffle rules.largePool
    let (smallPool, rng) := rng.shuffle rules.smallPool
    let values := rules.pick large largePool smallPool
    match rng.between rules.targetMin rules.targetMax with
    | .error error => .refuse error rng
    | .ok (target, rng) => ⟨Setup.ofValues target values, rng, [.dealt target values]⟩

/-- The first value that a pool does not hold often enough, each value taken being gone. -/
def firstMissing? : (pool values : List Int64) → Option Int64
  | _, [] => none
  | pool, value :: values =>
    if value ∈ pool then firstMissing? (pool.erase value) values else some value

/-- The first fault for which a setup could not have been dealt. -/
def setupFault? (rules : Rules) (setup : Setup) : Option SetupFault :=
  if setup.tiles.length ≠ rules.tileCount then
    some (.wrongTileCount setup.tiles.length rules.tileCount)
  else if setup.target < rules.targetMin ∨ rules.targetMax < setup.target then
    some (.targetOutside setup.target rules.targetMin rules.targetMax)
  else (firstMissing? (rules.largePool ++ rules.smallPool) setup.values).map .notInPools

/-- Refuses a setup that could not have been dealt. -/
def checkSetup (rules : Rules) (setup : Setup) : Except RoundError Unit :=
  match rules.setupFault? setup with
  | some fault => .error (.setup fault)
  | none => .ok ()

end TargetTiles.Rules
