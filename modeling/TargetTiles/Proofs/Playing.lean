import TargetTiles.Play
import TargetTiles.Proofs.Slots

/-!
# Entering and taking back

What the moves of a round in play do to its tokens, and which tokens may be entered.
-/

namespace TargetTiles.Play

variable {play shorter : Play} {token : Token}

/-! ## Which tokens may be entered -/

theorem isUsed_iff {id : TileId} : play.isUsed id = true ↔ id ∈ play.used := by
  simp [isUsed, used]

@[simp] theorem permit_operator (op : Operator) : play.permit (.operator op) = .ok () := rfl

theorem permit_tile_eq_ok_iff {tile : Tile} :
    play.permit (.tile tile) = .ok () ↔ tile ∈ play.setup.tiles ∧ tile.id ∉ play.used := by
  rw [← Setup.contains_iff_mem, ← isUsed_iff, permit]
  cases play.setup.contains tile <;> cases play.isUsed tile.id <;> simp

theorem permit_of_not_dealt {tile : Tile} (h : tile ∉ play.setup.tiles) :
    play.permit (.tile tile) = .error (.unknownTile tile.id) := by
  rw [← Setup.contains_iff_mem, Bool.not_eq_true] at h
  simp only [permit, h, Bool.not_false, if_true]

theorem permit_of_used {tile : Tile} (hdealt : tile ∈ play.setup.tiles)
    (hused : tile.id ∈ play.used) :
    play.permit (.tile tile) = .error (.tileUsed tile.id) := by
  rw [← Setup.contains_iff_mem] at hdealt
  rw [← isUsed_iff] at hused
  simp only [permit, hdealt, hused, Bool.not_true, Bool.false_eq_true, if_false, if_true]

/-- An operator may always be entered. A tile may be if it was dealt and its slot is not in use. -/
def Admits (play : Play) : Token → Prop
  | .operator _ => True
  | .tile tile => tile ∈ play.setup.tiles ∧ tile.id ∉ play.used

theorem permit_eq_ok_iff : play.permit token = .ok () ↔ play.Admits token := by
  cases token with
  | operator op => exact iff_of_true rfl trivial
  | tile tile => exact permit_tile_eq_ok_iff

/-! ## What the moves leave -/

@[simp] theorem withTokens_setup (tokens : List Token) :
    (play.withTokens tokens).setup = play.setup := rfl

@[simp] theorem withTokens_tokens (tokens : List Token) :
    (play.withTokens tokens).tokens = tokens := rfl

@[simp] theorem withTokens_check (tokens : List Token) :
    (play.withTokens tokens).check = play.check := rfl

@[simp] theorem withTokens_value (tokens : List Token) :
    (play.withTokens tokens).value = (Evaluation.ofTokens play.check tokens).value := rfl

theorem used_push (token : Token) :
    (play.push token).used = play.used ++ token.tileId?.toList := by
  simp only [used, push, withTokens_tokens, List.filterMap_append]
  cases token <;> rfl

theorem pop?_eq_some (h : play.pop? = some (token, shorter)) :
    play.tokens = shorter.tokens ++ [token] ∧ shorter = play.withTokens shorter.tokens := by
  obtain ⟨last, hlast, hpair⟩ := Option.map_eq_some_iff.mp h
  obtain ⟨tokens, htokens⟩ := List.getLast?_eq_some_iff.mp hlast
  cases hpair
  exact ⟨by rw [withTokens_tokens, htokens, List.dropLast_concat], rfl⟩

theorem pop?_eq_none (h : play.pop? = none) : play.tokens = [] :=
  List.getLast?_eq_none_iff.mp (Option.map_eq_none_iff.mp h)

end TargetTiles.Play
