import TargetTiles.Operator
import TargetTiles.Tile

/-!
# Tokens

What a player enters, one at a time: tiles and operators, in the order of postfix notation.
-/

namespace TargetTiles

/-- One entry of a player. -/
inductive Token where
  | tile (t : Tile)
  | operator (op : Operator)
deriving DecidableEq, Repr

namespace Token

/-- The slot of the tile entered, if the token is a tile. -/
def tileId? : Token → Option TileId
  | .tile t => some t.id
  | .operator _ => none

/-- The token as a player sees it: the number on a tile, or the symbol of an operator. -/
def text : Token → String
  | .tile t => toString t.value.toInt
  | .operator op => op.text

/-- The tokens on one line, a space between neighbours. -/
def line (tokens : List Token) : String := String.intercalate " " (tokens.map text)

end Token

end TargetTiles
