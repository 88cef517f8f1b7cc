import TargetTiles.Fault

/-!
# Setups

The target of a round and the tiles dealt for it. The tile in slot `i` has the identifier `i`: a
setup carries the proof of this, and both ways of making one, from values and from tiles, supply
it.
-/

namespace TargetTiles

/-- Every tile lies in the slot of its identifier. -/
def Setup.Placed (tiles : List Tile) : Prop :=
  ∀ (slot : Nat) (tile : Tile), tiles[slot]? = some tile → tile.id.index = slot

/-- What a round is played with. -/
@[ext] structure Setup where
  target : Int64
  /-- The tiles, in the order of their slots. -/
  tiles : List Tile
  placed : Setup.Placed tiles
deriving DecidableEq, Repr

namespace Setup

/-- Tiles with these values, each in the slot of its position. -/
def inSlots (values : List Int64) : List Tile :=
  values.mapIdx fun slot value => ⟨⟨UInt8.ofNat slot⟩, value⟩

theorem inSlots_placed {values : List Int64} (h : values.length ≤ 256) :
    Placed (inSlots values) := by
  intro slot tile ht
  rw [inSlots, List.getElem?_mapIdx, Option.map_eq_some_iff] at ht
  obtain ⟨value, hv, rfl⟩ := ht
  have hslot := (List.getElem?_eq_some_iff.mp hv).1
  exact UInt8.toNat_ofNat_of_lt' (Nat.lt_of_lt_of_le hslot h)

/-- Lays out values in the order given. There are slots for 256 tiles. -/
def ofValues (target : Int64) (values : List Int64) : Except RoundError Setup :=
  if h : 256 < values.length then .error .tooManyTiles
  else .ok ⟨target, inSlots values, inSlots_placed (Nat.le_of_not_lt h)⟩

/-- The first tile that does not lie in its own slot, and the slot it lies in. -/
def firstMisplaced (tiles : List Tile) : Option (Tile × Nat) :=
  tiles.zipIdx.find? fun (tile, slot) => tile.id.index != slot

theorem firstMisplaced_eq_none_iff {tiles : List Tile} :
    firstMisplaced tiles = none ↔ Placed tiles := by
  simp only [firstMisplaced, List.find?_eq_none, List.mem_zipIdx_iff_getElem?, bne_iff_ne,
    ne_eq, Decidable.not_not]
  exact ⟨fun h slot tile ht => h (tile, slot) ht, fun h found hf => h found.2 found.1 hf⟩

/-- Takes over tiles that lie in their slots already. -/
def ofTiles (target : Int64) (tiles : List Tile) : Except RoundError Setup :=
  if 256 < tiles.length then .error (.setup (.tooManyTiles tiles.length))
  else
    match h : firstMisplaced tiles with
    | some (tile, slot) => .error (.setup (.misplaced tile.id slot))
    | none => .ok ⟨target, tiles, firstMisplaced_eq_none_iff.mp h⟩

/-- The tile in a slot. -/
def tile? (setup : Setup) (id : TileId) : Option Tile := setup.tiles[id.index]?

/-- Whether a tile, with its value, is one of those dealt. -/
def contains (setup : Setup) (tile : Tile) : Bool := setup.tile? tile.id == some tile

/-- The values of the tiles, in the order of their slots. -/
def values (setup : Setup) : List Int64 := setup.tiles.map (·.value)

theorem ofValues_eq_ok {values : List Int64} (h : values.length ≤ 256) (target : Int64) :
    ∃ setup, ofValues target values = .ok setup ∧ setup.target = target ∧
      setup.values = values := by
  refine ⟨⟨target, inSlots values, inSlots_placed h⟩, dif_neg (Nat.not_lt.mpr h), rfl, ?_⟩
  apply List.ext_getElem?
  simp [Setup.values, inSlots, Function.comp_def]

end Setup

end TargetTiles
