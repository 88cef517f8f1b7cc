import Mathlib.Data.List.Nodup
import TargetTiles.Setup

/-!
# Tiles and slots

A tile is looked up by its slot. Because every tile of a setup lies in the slot of its
identifier, this finds exactly the tiles of the setup.
-/

namespace TargetTiles

theorem TileId.index_injective {id id' : TileId} (h : id.index = id'.index) : id = id' := by
  cases id
  cases id'
  exact congrArg TileId.mk (UInt8.toNat_inj.mp h)

namespace Setup

theorem contains_iff_mem {setup : Setup} {tile : Tile} :
    setup.contains tile = true ↔ tile ∈ setup.tiles := by
  rw [contains, beq_iff_eq, tile?, List.mem_iff_getElem?]
  constructor
  · intro h
    exact ⟨_, h⟩
  · rintro ⟨slot, h⟩
    rwa [setup.placed slot tile h]

theorem tile?_eq_some_iff {setup : Setup} {id : TileId} {tile : Tile} :
    setup.tile? id = some tile ↔ tile ∈ setup.tiles ∧ tile.id = id := by
  constructor
  · intro h
    exact ⟨List.mem_of_getElem? h, TileId.index_injective (setup.placed _ tile h)⟩
  · rintro ⟨hmem, rfl⟩
    rwa [← contains_iff_mem, contains, beq_iff_eq] at hmem

theorem eq_of_id_eq {setup : Setup} {tile other : Tile} (ht : tile ∈ setup.tiles)
    (ho : other ∈ setup.tiles) (h : tile.id = other.id) : tile = other :=
  Option.some.inj ((tile?_eq_some_iff.mpr ⟨ht, h⟩).symm.trans (tile?_eq_some_iff.mpr ⟨ho, rfl⟩))

theorem tile?_eq_none_iff {setup : Setup} {id : TileId} :
    setup.tile? id = none ↔ setup.tiles.length ≤ id.index :=
  List.getElem?_eq_none_iff

@[simp] theorem length_values (setup : Setup) : setup.values.length = setup.tiles.length :=
  List.length_map _

/-- The slots of the tiles are counted up from 0. -/
theorem map_index_tiles (setup : Setup) :
    setup.tiles.map (·.id.index) = List.range setup.tiles.length := by
  refine List.ext_getElem (by simp) fun slot hslot _ => ?_
  rw [List.length_map] at hslot
  rw [List.getElem_map, List.getElem_range]
  exact setup.placed slot _ (List.getElem?_eq_getElem hslot)

theorem nodup_ids (setup : Setup) : (setup.tiles.map (·.id)).Nodup := by
  have hslots : (setup.tiles.map (·.id.index)).Nodup := setup.map_index_tiles ▸ List.nodup_range
  rw [← Function.comp_def TileId.index, ← List.map_map] at hslots
  exact hslots.of_map _

theorem nodup_tiles (setup : Setup) : setup.tiles.Nodup := setup.nodup_ids.of_map _

end Setup

end TargetTiles
