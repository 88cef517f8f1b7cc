import Mathlib.Data.List.Nodup
import TargetTiles.Proofs.Acceptance

/-!
# Tiles on offer

The tiles that a table offers are those of the setup that have not been entered, and they are just
those that it lets a player enter. Together with the tiles entered they are the tiles of the setup,
each once. Tiles are told apart by their slots, so of two that show the same number one can be on
offer without the other.
-/

namespace TargetTiles

/-- The tile entered, if the token is one. -/
def Token.tile? : Token → Option Tile
  | .tile t => some t
  | .operator _ => none

namespace Play

variable {rules : Rules} {play : Play} {tile : Tile}

/-- The tiles entered, the oldest first. -/
def entered (play : Play) : List Tile := play.tokens.filterMap Token.tile?

theorem mem_entered_iff : tile ∈ play.entered ↔ .tile tile ∈ play.tokens := by
  rw [entered, List.mem_filterMap]
  constructor
  · rintro ⟨token, ht, he⟩
    cases token with
    | tile t =>
      cases he
      exact ht
    | operator op => cases he
  · intro ht
    exact ⟨_, ht, rfl⟩

theorem used_eq_map_entered (play : Play) : play.used = play.entered.map (·.id) := by
  rw [used, entered, List.map_filterMap]
  congr 1
  funext token
  cases token <;> rfl

/-- The tiles on offer are those that the round admits. -/
theorem mem_available_iff : tile ∈ play.available ↔ play.Admits (.tile tile) := by
  simp [available, Admits]

/-- A slot can be looked up in the list of slots in use, or be asked for token by token. -/
theorem available_eq_filter (play : Play) :
    play.available = play.setup.tiles.filter fun tile => !play.isUsed tile.id := by
  simp only [available, ← isUsed_iff, List.contains_eq_mem, Bool.decide_eq_true]

theorem available_sublist (play : Play) : play.available.Sublist play.setup.tiles :=
  List.filter_sublist

theorem nodup_available (play : Play) : play.available.Nodup :=
  play.setup.nodup_tiles.sublist play.available_sublist

/-- Entering a tile takes it off the offer and no other. -/
theorem available_push_tile (ht : tile ∈ play.setup.tiles) :
    (play.push (.tile tile)).available = play.available.erase tile := by
  rw [play.nodup_available.erase_eq_filter, available, used_push, available, List.filter_filter]
  refine List.filter_congr fun other ho => ?_
  have hsame : other.id = tile.id ↔ other = tile :=
    ⟨Setup.eq_of_id_eq ho ht, congrArg Tile.id⟩
  by_cases he : other = tile <;> simp [Token.tileId?, hsame, he]

namespace Sound

/-- The slot of a tile is in use only if the tile itself has been entered. -/
theorem mem_used_iff (h : play.Sound rules) (ht : tile ∈ play.setup.tiles) :
    tile.id ∈ play.used ↔ tile ∈ play.entered := by
  rw [used_eq_map_entered, List.mem_map]
  constructor
  · rintro ⟨other, ho, hid⟩
    have hdealt := h.dealt other (mem_entered_iff.mp ho)
    rwa [← Setup.eq_of_id_eq hdealt ht hid]
  · intro he
    exact ⟨tile, he, rfl⟩

theorem available_iff_not_entered (h : play.Sound rules) (ht : tile ∈ play.setup.tiles) :
    tile ∈ play.available ↔ tile ∉ play.entered := by
  rw [mem_available_iff, Admits, h.mem_used_iff ht]
  exact ⟨fun ha => ha.2, fun hn => ⟨ht, hn⟩⟩

/-- Each tile of the setup is on offer or has been entered, and neither twice. -/
theorem available_append_entered (h : play.Sound rules) :
    (play.available ++ play.entered).Perm play.setup.tiles := by
  have hentered : play.entered.Nodup := (used_eq_map_entered play ▸ h.once).of_map _
  have hnodup : (play.available ++ play.entered).Nodup := by
    refine List.nodup_append'.mpr ⟨play.nodup_available, hentered, ?_⟩
    intro tile ha he
    exact (h.available_iff_not_entered (mem_available_iff.mp ha).1).mp ha he
  refine (List.perm_ext_iff_of_nodup hnodup play.setup.nodup_tiles).mpr fun tile => ?_
  rw [List.mem_append]
  constructor
  · rintro (ha | he)
    · exact (mem_available_iff.mp ha).1
    · exact h.dealt tile (mem_entered_iff.mp he)
  · intro ht
    by_cases he : tile ∈ play.entered
    · exact .inr he
    · exact .inl ((h.available_iff_not_entered ht).mpr he)

end Sound

end Play

namespace Table

/-- What a table offers while a round is played. -/
structure Offers (table : Table) (play : Play) : Prop where
  unused : table.available = play.setup.tiles.filter fun tile => !play.isUsed tile.id
  in_order : table.available.Sublist play.setup.tiles
  once : table.available.Nodup
  enterable : ∀ id, id ∈ table.available.map (·.id) ↔
    ∃ value, (table.appendTile id).result = .ok value
  /-- Each tile of the setup is on offer or entered, and only one of the two. -/
  partition : (table.available ++ play.entered).Perm play.setup.tiles
  apart : table.available.Disjoint play.entered
  total : table.available.length + play.entered.length = table.rules.tileCount
  /-- Another tile of the same value plays no part. -/
  by_tile : ∀ tile ∈ play.setup.tiles, tile ∈ table.available ↔ .tile tile ∉ play.tokens
  takes_one : ∀ tile value, (table.append (.tile tile)).result = .ok value →
    (table.append (.tile tile)).next.available = table.available.erase tile

variable {table : Table} {play : Play}

theorem available_of_playing (hr : table.round = .playing play) :
    table.available = play.available := by
  rw [available, hr]
  rfl

theorem mem_available_iff_appendTile (hr : table.round = .playing play) (id : TileId) :
    id ∈ play.available.map (·.id) ↔ ∃ value, (table.appendTile id).result = .ok value := by
  rw [List.mem_map]
  cases ht : play.setup.tile? id with
  | none =>
    refine iff_of_false ?_ ?_
    · rintro ⟨tile, ha, hid⟩
      rw [Setup.tile?_eq_some_iff.mpr ⟨(Play.mem_available_iff.mp ha).1, hid⟩] at ht
      cases ht
    · rw [appendTile_of_no_slot hr (Setup.tile?_eq_none_iff.mp ht)]
      rintro ⟨value, hv⟩
      cases hv
  | some tile =>
    obtain ⟨hdealt, rfl⟩ := Setup.tile?_eq_some_iff.mp ht
    rw [appendTile_of_dealt hr hdealt, append_granted_iff_admits hr, ← Play.mem_available_iff]
    constructor
    · rintro ⟨other, ha, hid⟩
      rwa [← Setup.eq_of_id_eq (Play.mem_available_iff.mp ha).1 hdealt hid]
    · intro ha
      exact ⟨tile, ha, rfl⟩

theorem available_append_tile (hr : table.round = .playing play) {tile : Tile}
    {value : Option Float} (hv : (table.append (.tile tile)).result = .ok value) :
    (table.append (.tile tile)).next.available = play.available.erase tile := by
  have hadmits := (append_granted_iff_admits hr).mp ⟨value, hv⟩
  rw [(append_of_permit hr (Play.permit_eq_ok_iff.mpr hadmits)).2, available_of_playing rfl]
  exact Play.available_push_tile hadmits.1

/-- A table that requests have led to offers, in the order of their slots, the tiles of the setup
whose slots are not in use, and these are the tiles that it lets a player enter. With the tiles
entered they make up the setup, so that their numbers add up to that of the tiles in a round.
Entering a tile takes off the offer this tile alone, whatever number others show. -/
theorem offers_enterable {table : Table} {play : Play} (h : table.Reachable)
    (hr : table.round = .playing play) : table.Offers play := by
  have hsound := h.sound.playing play hr
  have hpartition := hsound.available_append_entered
  have happart := List.nodup_append'.mp (hpartition.nodup_iff.mpr play.setup.nodup_tiles)
  obtain ⟨hcount, -, -⟩ :=
    Rules.setupFault?_eq_none_iff.mp (Rules.checkSetup_eq_ok_iff.mp hsound.dealable)
  have havailable := available_of_playing hr
  exact {
    unused := havailable ▸ play.available_eq_filter
    in_order := havailable ▸ play.available_sublist
    once := havailable ▸ play.nodup_available
    enterable := havailable ▸ mem_available_iff_appendTile hr
    partition := havailable ▸ hpartition
    apart := havailable ▸ happart.2.2
    total := by rw [havailable, ← List.length_append, hpartition.length_eq, hcount]
    by_tile := fun tile ht => by
      rw [havailable, hsound.available_iff_not_entered ht, Play.mem_entered_iff]
    takes_one := fun tile value hv => havailable ▸ available_append_tile hr hv }

/-- Of two tiles of value 6 one has been entered, and an operator. The other one is still on offer
and can be entered; entering it leaves the tiles of the other numbers. -/
theorem offers_enterable_twins :
    ∃ table play, table = (standard 42).after
        [.startWith ⟨300, Setup.inSlots [50, 6, 6, 2, 9, 1], Setup.inSlots_placed (by decide)⟩,
          .appendTile ⟨1⟩, .appendTile ⟨1⟩, .appendOperator .add] ∧
      table.Reachable ∧ table.round = .playing play ∧ play.entered = [⟨⟨1⟩, 6⟩] ∧
      table.available = [⟨⟨0⟩, 50⟩, ⟨⟨2⟩, 6⟩, ⟨⟨3⟩, 2⟩, ⟨⟨4⟩, 9⟩, ⟨⟨5⟩, 1⟩] ∧
      (∃ value, (table.appendTile ⟨2⟩).result = .ok value) ∧
      (¬∃ value, (table.appendTile ⟨1⟩).result = .ok value) ∧
      (table.append (.tile ⟨⟨2⟩, 6⟩)).next.available =
        [⟨⟨0⟩, 50⟩, ⟨⟨3⟩, 2⟩, ⟨⟨4⟩, 9⟩, ⟨⟨5⟩, 1⟩] ∧
      table.Offers play := by
  have h : Reachable ((standard 42).after
      [.startWith ⟨300, Setup.inSlots [50, 6, 6, 2, 9, 1], Setup.inSlots_placed (by decide)⟩,
        .appendTile ⟨1⟩, .appendTile ⟨1⟩, .appendOperator .add]) := ⟨_, _, .standard 42, rfl⟩
  have hoffers := offers_enterable h rfl
  exact ⟨_, _, rfl, h, rfl, rfl, rfl, (hoffers.enterable _).mp (by decide),
    fun hv => absurd ((hoffers.enterable _).mpr hv) (by decide),
    hoffers.takes_one ⟨⟨2⟩, 6⟩ _ rfl, hoffers⟩

end Table

end TargetTiles
