import TargetTiles.Proofs.SlotOrder

/-!
# Looking tiles up

A tile is looked up by going to the slot that its identifier names. To search all the tiles for the
identifier gives the same, whichever way the setup came about and however many tiles it has, up to
one for every identifier there is.
-/

namespace TargetTiles.Setup

variable {setup : Setup} {id : TileId} {tile : Tile}

/-- The lookups of a setup find what a search through all its tiles finds. -/
structure FoundByIdentity (setup : Setup) : Prop where
  contains_iff : ∀ tile, setup.contains tile = true ↔ tile ∈ setup.tiles
  some_iff : ∀ id tile, setup.tile? id = some tile ↔
    tile ∈ setup.tiles ∧ tile.id = id ∧ ∀ other ∈ setup.tiles, other.id = id → other = tile
  none_iff : ∀ id, setup.tile? id = none ↔ ∀ tile ∈ setup.tiles, tile.id ≠ id
  /-- All the tiles with an identifier, each as often as it is there. -/
  search : ∀ id, setup.tiles.filter (·.id = id) = (setup.tile? id).toList

theorem tile?_eq_none_iff_no_id :
    setup.tile? id = none ↔ ∀ tile ∈ setup.tiles, tile.id ≠ id := by
  simp only [Option.eq_none_iff_forall_ne_some, ne_eq, tile?_eq_some_iff, not_and]

theorem filter_id_eq (setup : Setup) (id : TileId) :
    setup.tiles.filter (·.id = id) = (setup.tile? id).toList := by
  cases h : setup.tile? id with
  | none =>
    rw [Option.toList_none, List.filter_eq_nil_iff]
    intro tile ht
    simpa using tile?_eq_none_iff_no_id.mp h tile ht
  | some tile =>
    have hnodup : (setup.tiles.filter (·.id = id)).Nodup := setup.nodup_tiles.filter _
    rw [Option.toList_some, ← List.perm_singleton,
      List.perm_ext_iff_of_nodup hnodup (List.nodup_singleton tile)]
    intro other
    rw [List.mem_filter, decide_eq_true_eq, ← tile?_eq_some_iff, h, List.mem_singleton]
    exact ⟨fun ho => (Option.some.inj ho).symm, fun ho => congrArg some ho.symm⟩

theorem foundByIdentity (setup : Setup) : setup.FoundByIdentity where
  contains_iff _ := contains_iff_mem
  some_iff id tile := by
    rw [tile?_eq_some_iff]
    constructor
    · rintro ⟨ht, rfl⟩
      exact ⟨ht, rfl, fun other ho hid => eq_of_id_eq ho ht hid⟩
    · rintro ⟨ht, hid, -⟩
      exact ⟨ht, hid⟩
  none_iff _ := tile?_eq_none_iff_no_id
  search := setup.filter_id_eq

/-- The value given for a slot is found in that slot, even in the last one there is. -/
theorem tile?_of_getElem?_values {slot : Nat} {value : Int64}
    (h : setup.values[slot]? = some value) :
    setup.tile? ⟨UInt8.ofNat slot⟩ = some ⟨⟨UInt8.ofNat slot⟩, value⟩ := by
  have hslot : slot < 256 := by
    have hlt := (List.getElem?_eq_some_iff.mp h).1
    rw [length_values] at hlt
    exact Nat.lt_of_lt_of_le hlt setup.length_tiles_le
  have hindex : TileId.index ⟨UInt8.ofNat slot⟩ = slot := UInt8.toNat_ofNat_of_lt' hslot
  rw [tile?, hindex, ← inSlots_map_value setup.placed, inSlots, List.getElem?_mapIdx]
  exact congrArg _ h

/-- Values that there are slots for are always laid out, and a setup is always read back from what
it is written as. In every setup that is laid out or read, a tile is contained exactly if it is one
of the tiles, and the lookup of an identifier finds the one tile that has it, or nothing where none
has it. Where values were laid out, this is the value of that place. -/
theorem lookup_is_search_by_identity :
    (∀ (target : Int64) (values : List Int64), values.length ≤ 256 →
      ∃ setup, ofValues target values = .ok setup ∧ setup.FoundByIdentity ∧
        ∀ slot value, values[slot]? = some value →
          setup.tile? ⟨UInt8.ofNat slot⟩ = some ⟨⟨UInt8.ofNat slot⟩, value⟩) ∧
    (∀ (wire : Wire) (setup : Setup), Setup.ofWire wire = .ok setup → setup.FoundByIdentity) ∧
    ∀ setup : Setup, Setup.ofWire setup.toWire = .ok setup := by
  refine ⟨fun target values hlen => ?_, fun _ setup _ => setup.foundByIdentity, ofWire_toWire⟩
  obtain ⟨setup, hsetup, -, rfl⟩ := ofValues_eq_ok hlen target
  exact ⟨setup, hsetup, setup.foundByIdentity, fun slot value => tile?_of_getElem?_values⟩

/-- With a tile for every identifier there is, the last one is found, and only with its own
value. -/
theorem lookup_is_search_by_identity_full :
    ∃ setup, ofValues 10 (List.replicate 256 7) = .ok setup ∧
      setup.tile? ⟨255⟩ = some ⟨⟨255⟩, 7⟩ ∧ ⟨⟨255⟩, 7⟩ ∈ setup.tiles ∧
      ⟨⟨255⟩, 8⟩ ∉ setup.tiles := by
  obtain ⟨hlay, -, -⟩ := lookup_is_search_by_identity
  obtain ⟨setup, hsetup, hfound, hvalue⟩ :=
    hlay 10 (List.replicate 256 7) (Nat.le_of_eq List.length_replicate)
  have hlast : setup.tile? ⟨255⟩ = some ⟨⟨255⟩, 7⟩ :=
    hvalue 255 7 (by rw [List.getElem?_replicate, if_pos (by decide)])
  obtain ⟨hmem, -, honly⟩ := (hfound.some_iff _ _).mp hlast
  refine ⟨setup, hsetup, hlast, hmem, fun hother => ?_⟩
  have heq : (⟨⟨255⟩, 8⟩ : Tile) = ⟨⟨255⟩, 7⟩ := honly _ hother rfl
  cases heq

end TargetTiles.Setup
