import TargetTiles.Proofs.Records
import TargetTiles.Proofs.Slots

/-!
# Records in slot order

The record of a target and tiles says for every tile which slot it lies in, and the tiles come in
an order of their own. A setup is read only where the two agree. So there is one record for each
setup and one setup for each record that is read: the values alone tell both.
-/

namespace TargetTiles.Setup

variable {target : Int64} {tiles : List Tile} {setup : Setup}

/-! ## The first tile out of its slot -/

/-- Whether the tile in a slot names another slot, while all the tiles before it name their own. -/
structure FirstOutOfSlot (tiles : List Tile) (tile : Tile) (slot : Nat) : Prop where
  lies : tiles[slot]? = some tile
  names_other : tile.id.index ≠ slot
  before : Placed (tiles.take slot)

theorem placed_take_iff {slot : Nat} : Placed (tiles.take slot) ↔
    ∀ earlier tile, earlier < slot → tiles[earlier]? = some tile → tile.id.index = earlier := by
  constructor
  · intro h earlier tile hlt ht
    exact h earlier tile (by rwa [List.getElem?_take_of_lt hlt])
  · intro h earlier tile ht
    rw [List.getElem?_take] at ht
    split at ht
    · next hlt => exact h earlier tile hlt ht
    · cases ht

theorem firstMisplaced_eq_some_iff {tile : Tile} {slot : Nat} :
    firstMisplaced tiles = some (tile, slot) ↔ FirstOutOfSlot tiles tile slot := by
  rw [firstMisplaced, List.find?_eq_some_iff_getElem]
  constructor
  · rintro ⟨hother, position, hposition, hfound, hbefore⟩
    rw [List.getElem_zipIdx, Prod.mk.injEq, Nat.zero_add] at hfound
    obtain ⟨hlies, rfl⟩ := hfound
    rw [List.length_zipIdx] at hposition
    refine ⟨List.getElem?_eq_some_iff.mpr ⟨hposition, hlies⟩, by simpa using hother, ?_⟩
    rw [placed_take_iff]
    intro earlier t hlt ht
    obtain ⟨-, rfl⟩ := List.getElem?_eq_some_iff.mp ht
    simpa using hbefore earlier hlt
  · rintro ⟨hlies, hother, hbefore⟩
    obtain ⟨hslot, hlies⟩ := List.getElem?_eq_some_iff.mp hlies
    refine ⟨by simpa using hother, slot, by simpa using hslot, by simp [hlies], ?_⟩
    intro earlier hlt
    have hplaced := placed_take_iff.mp hbefore earlier _ hlt
      (List.getElem?_eq_getElem (Nat.lt_trans hlt hslot))
    simpa using hplaced

/-! ## What is read -/

theorem exists_ofTiles_iff : (∃ setup, ofTiles target tiles = .ok setup) ↔
    tiles.length ≤ 256 ∧ Placed tiles := by
  constructor
  · rintro ⟨setup, h⟩
    obtain ⟨-, rfl⟩ := ofTiles_eq_ok_iff.mp h
    exact ⟨setup.length_tiles_le, setup.placed⟩
  · rintro ⟨-, hplaced⟩
    exact ⟨⟨target, tiles, hplaced⟩, ofTiles_eq_ok_iff.mpr ⟨rfl, rfl⟩⟩

/-- Too many tiles are refused whatever slots they name, and else the first tile that names a slot
in which it does not lie. -/
theorem ofTiles_eq_error_iff {error : RoundError} : ofTiles target tiles = .error error ↔
    (256 < tiles.length ∧ error = .setup (.tooManyTiles tiles.length)) ∨
    (tiles.length ≤ 256 ∧ ∃ tile slot, FirstOutOfSlot tiles tile slot ∧
      error = .setup (.misplaced tile.id slot)) := by
  rw [ofTiles]
  by_cases hmany : 256 < tiles.length
  · rw [if_pos hmany]
    simp only [Except.error.injEq, hmany, Nat.not_le.mpr hmany, true_and, false_and, or_false]
    exact eq_comm
  · rw [if_neg hmany]
    simp only [hmany, Nat.not_lt.mp hmany, true_and, false_and, false_or]
    split
    · next tile slot hfirst =>
      have hout := firstMisplaced_eq_some_iff.mp hfirst
      constructor
      · intro h
        exact ⟨tile, slot, hout, (Except.error.inj h).symm⟩
      · rintro ⟨tile', slot', hout', rfl⟩
        obtain ⟨rfl, rfl⟩ := Prod.mk.inj
          (Option.some.inj (hfirst.symm.trans (firstMisplaced_eq_some_iff.mpr hout')))
        rfl
    · next hnone =>
      simp only [reduceCtorEq, false_iff]
      rintro ⟨tile, slot, hout, -⟩
      rw [firstMisplaced_eq_some_iff.mpr hout] at hnone
      cases hnone

/-! ## What the values tell -/

/-- Tiles in their slots are what their values are laid out as. -/
theorem inSlots_map_value (h : Placed tiles) : inSlots (tiles.map (·.value)) = tiles := by
  refine List.ext_getElem (by simp [inSlots]) fun slot _ hslot => ?_
  have hid : tiles[slot].id.index = slot := h slot _ (List.getElem?_eq_getElem hslot)
  have hbyte : UInt8.ofNat slot = tiles[slot].id.slot :=
    calc UInt8.ofNat slot
        = UInt8.ofNat tiles[slot].id.index := by rw [hid]
      _ = tiles[slot].id.slot := UInt8.ofNat_toNat
  simp only [inSlots, List.getElem_mapIdx, List.getElem_map, hbyte]

theorem ofValues_values (setup : Setup) : ofValues setup.target setup.values = .ok setup := by
  have hlen : setup.values.length ≤ 256 := setup.length_values ▸ setup.length_tiles_le
  obtain ⟨laid, hlaid, htarget, hvalues⟩ := ofValues_eq_ok hlen setup.target
  have htiles : laid.tiles = setup.tiles := by
    rw [← inSlots_map_value laid.placed, ← inSlots_map_value setup.placed]
    exact congrArg inSlots hvalues
  rw [hlaid, Setup.ext htarget htiles]

theorem ofWire_toWire (setup : Setup) : Setup.ofWire setup.toWire = .ok setup := by
  have hread : ofTiles setup.target setup.tiles = .ok setup := ofTiles_eq_ok_iff.mpr ⟨rfl, rfl⟩
  exact (ofWire_record setup.target setup.tiles).trans (Wire.accepted_eq_ok_iff.mpr hread)

/-- A record of a target and tiles is read exactly if there are at most 256 tiles and each lies in
the slot it names. It is refused for more tiles than that, whatever slots they name, and otherwise
for the first tile that names another slot. What is read is the setup that the values of the tiles
are laid out as, and it is written as the same record. Values that there are slots for are laid out
as a setup in which no two tiles name the same slot, and it is read back. -/
theorem read_iff_in_slot_order :
    (∀ (target : Int64) (tiles : List Tile),
      ((∃ setup, Setup.ofWire (record target tiles) = .ok setup) ↔
        tiles.length ≤ 256 ∧ Placed tiles) ∧
      (∀ error, Setup.ofWire (record target tiles) = .error error ↔
        (256 < tiles.length ∧ error = .refused (.setup (.tooManyTiles tiles.length))) ∨
        (tiles.length ≤ 256 ∧ ∃ tile slot, FirstOutOfSlot tiles tile slot ∧
          error = .refused (.setup (.misplaced tile.id slot)))) ∧
      ∀ setup, Setup.ofWire (record target tiles) = .ok setup →
        ofValues target (tiles.map (·.value)) = .ok setup ∧
        setup.toWire = record target tiles) ∧
    ∀ (target : Int64) (values : List Int64), values.length ≤ 256 →
      ∃ setup, ofValues target values = .ok setup ∧ setup.values = values ∧
        Setup.ofWire setup.toWire = .ok setup ∧ (setup.tiles.map (·.id)).Nodup := by
  refine ⟨fun target tiles => ⟨?_, ?_, ?_⟩, fun target values hlen => ?_⟩
  · simp only [ofWire_record, Wire.accepted_eq_ok_iff]
    exact exists_ofTiles_iff
  · intro error
    rw [ofWire_record, Wire.accepted_eq_error_iff]
    constructor
    · rintro ⟨refusal, hrefused, rfl⟩
      rcases ofTiles_eq_error_iff.mp hrefused with ⟨hmany, rfl⟩ | ⟨hfew, tile, slot, hout, rfl⟩
      · exact .inl ⟨hmany, rfl⟩
      · exact .inr ⟨hfew, tile, slot, hout, rfl⟩
    · rintro (⟨hmany, rfl⟩ | ⟨hfew, tile, slot, hout, rfl⟩)
      · exact ⟨_, ofTiles_eq_error_iff.mpr (.inl ⟨hmany, rfl⟩), rfl⟩
      · exact ⟨_, ofTiles_eq_error_iff.mpr (.inr ⟨hfew, tile, slot, hout, rfl⟩), rfl⟩
  · intro setup h
    rw [ofWire_record, Wire.accepted_eq_ok_iff] at h
    obtain ⟨rfl, rfl⟩ := ofTiles_eq_ok_iff.mp h
    exact ⟨setup.ofValues_values, rfl⟩
  · obtain ⟨setup, hsetup, -, hvalues⟩ := ofValues_eq_ok hlen target
    exact ⟨setup, hsetup, hvalues, setup.ofWire_toWire, setup.nodup_ids⟩

/-- Two tiles that have changed places are refused for the first of them; in their places they are
read as the setup that their values are laid out as. -/
theorem read_iff_in_slot_order_swapped :
    Setup.ofWire (record 10 [⟨⟨1⟩, 5⟩, ⟨⟨0⟩, 5⟩]) =
      .error (.refused (.setup (.misplaced ⟨1⟩ 0))) ∧
    (RoundError.setup (.misplaced ⟨1⟩ 0)).message =
      "setup cannot be dealt from this configuration: Tile(1) sits in slot 0" ∧
    ∃ setup, Setup.ofWire (record 10 [⟨⟨0⟩, 5⟩, ⟨⟨1⟩, 5⟩]) = .ok setup ∧
      ofValues 10 [5, 5] = .ok setup ∧ Setup.ofWire setup.toWire = .ok setup := by
  obtain ⟨hrecord, hlay⟩ := read_iff_in_slot_order
  have hmisplaced : FirstOutOfSlot [⟨⟨1⟩, 5⟩, ⟨⟨0⟩, 5⟩] ⟨⟨1⟩, 5⟩ 0 := by
    refine ⟨rfl, by decide, ?_⟩
    intro slot tile ht
    cases ht
  have hplaced : Placed (inSlots [5, 5]) := inSlots_placed (by decide)
  obtain ⟨-, hrefused, -⟩ := hrecord 10 [⟨⟨1⟩, 5⟩, ⟨⟨0⟩, 5⟩]
  obtain ⟨hiff, -, hread⟩ := hrecord 10 [⟨⟨0⟩, 5⟩, ⟨⟨1⟩, 5⟩]
  obtain ⟨setup, hsetup⟩ := hiff.mpr ⟨by decide, hplaced⟩
  obtain ⟨hlaid, -⟩ := hread setup hsetup
  obtain ⟨setup', hlaid', -, hback, -⟩ := hlay 10 [5, 5] (by decide)
  obtain rfl : setup' = setup := Except.ok.inj (hlaid'.symm.trans hlaid)
  exact ⟨(hrefused _).mpr (.inr ⟨by decide, _, _, hmisplaced, rfl⟩), rfl, setup', hsetup, hlaid,
    hback⟩

end TargetTiles.Setup
