/-!
# Tiles

A round is played with numbered tiles. Two tiles may show the same number, so a tile is known by
the slot it was dealt into and never by the number on its face.
-/

namespace TargetTiles

/-- The slot of a tile among the tiles of its round, counted from 0. -/
structure TileId where
  slot : UInt8
deriving DecidableEq, Repr

/-- The slot as a position in a list. -/
def TileId.index (id : TileId) : Nat := id.slot.toNat

/-- The slot as messages name it, for instance `Tile(3)`. -/
def TileId.text (id : TileId) : String := s!"Tile({id.index})"

/-- One dealt number and the slot it lies in. -/
structure Tile where
  id : TileId
  value : Int64
deriving DecidableEq, Repr

/-- The float nearest to a whole number, an exact half going to the even neighbour. -/
def nearestFloat (n : Int64) : Float := Float.ofInt n.toInt

/-- The number on the face, as it enters a calculation. -/
def Tile.operand (tile : Tile) : Float := nearestFloat tile.value

end TargetTiles
