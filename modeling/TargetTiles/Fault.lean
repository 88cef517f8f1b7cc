import TargetTiles.Phase
import TargetTiles.Tile

/-!
# Faults

Why a request is refused. Each refusal is a cause with the data it concerns; the wording stands
in `RoundError.message` and nowhere else.
-/

namespace TargetTiles

/-- Why no round can be dealt by a set of rules. -/
inductive RulesFault where
  | noTiles
  /-- There are more tiles in a round than slots to put them in. -/
  | tooManyTiles (count : Nat)
  /-- No target lies between the bounds. -/
  | emptyTargetRange (low high : Int64)
  /-- The two pools together hold fewer tiles than a round takes. -/
  | poolsTooSmall (held needed : Nat)
  | because (reason : String)
deriving DecidableEq, Repr

def RulesFault.text : RulesFault → String
  | .noTiles => "tile count must be positive"
  | .tooManyTiles count => s!"tile count {count} exceeds 255"
  | .emptyTargetRange low high => s!"target range {low.toInt}..={high.toInt} is empty"
  | .poolsTooSmall held needed => s!"pools hold {held} tiles, {needed} needed"
  | .because reason => reason

/-- Why a setup is not one that could have been dealt. -/
inductive SetupFault where
  | wrongTileCount (dealt expected : Nat)
  | targetOutside (target low high : Int64)
  /-- A value occurs more often than the pools hold it. -/
  | notInPools (value : Int64)
  /-- There are more tiles than slots. -/
  | tooManyTiles (count : Nat)
  /-- A tile lies in a slot that is not its own. -/
  | misplaced (id : TileId) (slot : Nat)
  | because (reason : String)
deriving DecidableEq, Repr

def SetupFault.text : SetupFault → String
  | .wrongTileCount dealt expected => s!"{dealt} tiles dealt, {expected} expected"
  | .targetOutside target low high =>
    s!"target {target.toInt} outside {low.toInt}..={high.toInt}"
  | .notInPools value => s!"tile value {value.toInt} exceeds what the pools hold"
  | .tooManyTiles count => s!"{count} tiles, at most 256"
  | .misplaced id slot => s!"{id.text} sits in slot {slot}"
  | .because reason => reason

/-- Why a request is refused. -/
inductive RoundError where
  | notAllowed (command : Command) (phase : Phase)
  | tileUsed (id : TileId)
  | unknownTile (id : TileId)
  /-- The pools cannot supply that number of large tiles; `most` is the greatest they can. -/
  | largeCount (requested most : Nat)
  | rules (fault : RulesFault)
  | setup (fault : SetupFault)
  | unrecognised (text : String)
  /-- A number was to be drawn from a range that holds none. -/
  | emptyRange
  /-- A round was to be laid out with more tiles than there are slots. -/
  | tooManyTiles
deriving DecidableEq, Repr

def RoundError.message : RoundError → String
  | .notAllowed command phase =>
    s!"`{command.text}` is not allowed while the round is {phase.text}"
  | .tileUsed id => s!"{id.text} has already been used this round"
  | .unknownTile id => s!"{id.text} is not part of the current round"
  | .largeCount requested most => s!"cannot deal {requested} large tiles (at most {most})"
  | .rules fault => s!"invalid round configuration: {fault.text}"
  | .setup fault => s!"setup cannot be dealt from this configuration: {fault.text}"
  | .unrecognised text => s!"unrecognised token `{text}`"
  | .emptyRange => "cannot sample empty range"
  | .tooManyTiles => "At most 256 tiles supported"

end TargetTiles
