import TargetTiles.Evaluation
import TargetTiles.Fault
import TargetTiles.Setup

/-!
# A round in play

The setup, the tokens entered so far, and the value they have. The value is worked out anew from
all tokens whenever they change; it is never set on its own.
-/

namespace TargetTiles

/-- A round in play. -/
structure Play where
  setup : Setup
  /-- The tokens entered, the oldest first. -/
  tokens : List Token
  check : OperandCheck
  value : Option Float
deriving BEq, Repr

namespace Play

/-- A round in which nothing has been entered. -/
def fresh (setup : Setup) (check : OperandCheck) : Play := ⟨setup, [], check, none⟩

/-- The round with other tokens and their value. -/
def withTokens (play : Play) (tokens : List Token) : Play :=
  { play with tokens, value := (Evaluation.ofTokens play.check tokens).value }

/-- The warnings that working out the value gives. -/
def warnings (play : Play) : List Event := Evaluation.warnings play.check play.tokens

/-! ## Tiles in use -/

/-- The slots of the tiles entered, the oldest first. -/
def used (play : Play) : List TileId := play.tokens.filterMap Token.tileId?

/-- Whether the tile of a slot has been entered. -/
def isUsed (play : Play) (id : TileId) : Bool := play.tokens.any (·.tileId? == some id)

/-- The tiles not entered yet, in the order of their slots. -/
def available (play : Play) : List Tile :=
  play.setup.tiles.filter fun tile => !play.used.contains tile.id

/-! ## Entering and taking back -/

/-- Refuses a tile that is none of those dealt, or that has been entered. -/
def permit (play : Play) : Token → Except RoundError Unit
  | .tile t =>
    if !play.setup.contains t then .error (.unknownTile t.id)
    else if play.isUsed t.id then .error (.tileUsed t.id)
    else .ok ()
  | .operator _ => .ok ()

def push (play : Play) (token : Token) : Play := play.withTokens (play.tokens ++ [token])

/-- Takes the last token back, if there is one. -/
def pop? (play : Play) : Option (Token × Play) :=
  play.tokens.getLast?.map fun token => (token, play.withTokens play.tokens.dropLast)

/-! ## Restoring -/

/-- Refuses the first tile that is none of those dealt, or that occurs a second time. The slots
seen so far are passed along. -/
def checkTokens (setup : Setup) (seen : List TileId) : List Token → Except RoundError Unit
  | [] => .ok ()
  | .operator _ :: rest => checkTokens setup seen rest
  | .tile t :: rest =>
    if !setup.contains t then .error (.unknownTile t.id)
    else if seen.contains t.id then .error (.tileUsed t.id)
    else checkTokens setup (t.id :: seen) rest

/-- The round in which these tokens have been entered. -/
def restore (setup : Setup) (tokens : List Token) (check : OperandCheck) :
    Except RoundError Play := do
  checkTokens setup [] tokens
  return (fresh setup check).withTokens tokens

end Play

end TargetTiles
