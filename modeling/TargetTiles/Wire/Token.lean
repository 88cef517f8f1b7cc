import TargetTiles.Token
import TargetTiles.Wire.Record

/-!
# Tiles, operators and tokens on the wire

A slot is its number, a tile a record of slot and value, an operator its name, and a token a
choice between a tile and an operator.
-/

namespace TargetTiles

open Wire

/-! ## Slots -/

/-- A slot is written as its number. -/
def TileId.toWire (id : TileId) : Wire := .int id.index

/-- Reads a slot, whose number takes eight bits at most. -/
def TileId.ofWire (wire : Wire) : Decoded TileId :=
  (wire.natBelow 8).map fun n => ⟨UInt8.ofNat n⟩

/-! ## Tiles -/

/-- A tile is written as its slot and its value. -/
def Tile.toWire (tile : Tile) : Wire :=
  .ofFields [("id", tile.id.toWire), ("value", .ofInt64 tile.value)]

/-- A tile of which some fields may not have been read yet. -/
structure Tile.Draft where
  id : Option TileId := none
  value : Option Int64 := none

/-- The fields of a tile, in the order in which a list gives them. -/
def Tile.fields : List (RecordField Tile.Draft) :=
  [.of "id" TileId.ofWire (·.id) fun draft id => { draft with id := some id },
    .of "value" int64 (·.value) fun draft value => { draft with value := some value }]

/-- Reads a tile; neither field may be missing. -/
def Tile.ofWire (wire : Wire) : Decoded Tile := do
  let draft ← readRecord Tile.fields {} wire
  return ⟨← required draft.id, ← required draft.value⟩

/-! ## Operators -/

/-- The name of an operator on the wire. -/
def Operator.wireName : Operator → String
  | .add => "Add"
  | .subtract => "Subtract"
  | .multiply => "Multiply"
  | .divide => "Divide"

/-- An operator is written as its name. -/
def Operator.toWire (op : Operator) : Wire := .text op.wireName

/-- Reads an operator by its name. -/
def Operator.ofWire : Wire → Decoded Operator :=
  readName fun name => Operator.all.find? (·.wireName == name)

/-! ## Tokens -/

/-- A token is written as a record of one entry, named for what the token is. -/
def Token.toWire : Token → Wire
  | .tile t => .ofFields [("Tile", t.toWire)]
  | .operator op => .ofFields [("Operator", op.toWire)]

/-- Reads a tile or an operator. A token always has content, so no name stands for one alone. -/
def Token.ofWire : Wire → Decoded Token :=
  readChoice (fun _ => none) fun
    | "Tile" => some fun content => (Tile.ofWire content).map .tile
    | "Operator" => some fun content => (Operator.ofWire content).map .operator
    | _ => none

end TargetTiles
