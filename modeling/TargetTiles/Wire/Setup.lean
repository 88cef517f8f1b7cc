import TargetTiles.Setup
import TargetTiles.Wire.Token

/-!
# Setups on the wire

A setup is a record of its target and its tiles. A record whose tiles do not lie in their own
slots is refused.
-/

namespace TargetTiles

open Wire

/-- A setup is written as its target and its tiles in the order of their slots. -/
def Setup.toWire (setup : Setup) : Wire :=
  .ofFields [("target", .ofInt64 setup.target), ("tiles", .list (setup.tiles.map Tile.toWire))]

/-- A setup of which some fields may not have been read yet. -/
structure Setup.Draft where
  target : Option Int64 := none
  tiles : Option (List Tile) := none

/-- The fields of a setup, in the order in which a list gives them. -/
def Setup.fields : List (RecordField Setup.Draft) :=
  [.of "target" int64 (·.target) fun draft target => { draft with target := some target },
    .of "tiles" (listOf Tile.ofWire) (·.tiles)
      fun draft tiles => { draft with tiles := some tiles }]

/-- Reads a setup, if every tile lies in its own slot. -/
def Setup.ofWire (wire : Wire) : Decoded Setup := do
  let draft ← readRecord Setup.fields {} wire
  accepted (Setup.ofTiles (← required draft.target) (← required draft.tiles))

end TargetTiles
