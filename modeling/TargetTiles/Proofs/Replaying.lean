import TargetTiles.Proofs.Restoring
import TargetTiles.Proofs.Soundness

/-!
# Every round in play can be replayed

A sound round keeps all that is needed to come to it anew: its setup could have been dealt, and
its tokens can be entered one after the other, whatever was entered and taken back on the way to
them.
-/

namespace TargetTiles

/-- The tokens of a sound round restore it. -/
theorem Play.Sound.restore_eq {rules : Rules} {play : Play} (h : play.Sound rules) :
    Play.restore play.setup play.tokens play.check = .ok play := by
  have hpass : Play.checkTokens play.setup [] play.tokens = .ok () :=
    Play.checkTokens_eq_ok_iff.mpr ⟨h.dealt, h.once, fun _ _ => List.not_mem_nil⟩
  exact Play.restore_eq_ok_iff.mpr ⟨hpass, Play.withTokens_self h.value_eq⟩

namespace Table

theorem startWith_of_checkSetup (table : Table) {setup : Setup}
    (h : table.rules.checkSetup setup = .ok ()) :
    (table.startWith setup).result = .ok setup ∧
      (table.startWith setup).next =
        { table with round := .playing (.fresh setup table.check) } := by
  simp only [startWith, h, begin, and_self]

/-- A round in play comes about again at a new table with the same rules, whatever its random
source: the table takes the setup, every token is accepted in turn, and the round is the same. -/
theorem replayable {table : Table} {play : Play} (h : table.Reachable)
    (hr : table.round = .playing play) (rng : Rng) :
    ∃ fresh, withRules table.rules rng = .ok fresh ∧
      (fresh.startWith play.setup).result = .ok play.setup ∧
      (fresh.startWith play.setup).next.appendAll play.tokens =
        .ok { fresh with round := table.round } := by
  have hplay := h.sound.playing play hr
  refine ⟨_, withRules_eq_ok_iff.mpr ⟨h.sound.valid, rfl⟩, ?_⟩
  obtain ⟨hresult, hnext⟩ := startWith_of_checkSetup
    ⟨table.rules, table.rules.operandCheck, rng, .initial⟩ hplay.dealable
  refine ⟨hresult, ?_⟩
  rw [hnext, Play.appendAll_eq_restore, ← hplay.check_eq, hplay.restore_eq, hr]
  rfl

/-- Two tiles and an operator stand after a tile has been taken back and a used one refused. -/
theorem replayable_after_taking_back :
    ∃ table play, table = (standard 42).after
        [.startWith ⟨532, Setup.inSlots [100, 10, 4, 3, 3, 7], Setup.inSlots_placed (by decide)⟩,
          .appendTile ⟨3⟩, .appendTile ⟨5⟩, .removeLast, .appendTile ⟨3⟩, .appendTile ⟨4⟩,
          .appendOperator .divide] ∧
      table.Reachable ∧ table.round = .playing play ∧
      play.tokens = [.tile ⟨⟨3⟩, 3⟩, .tile ⟨⟨4⟩, 3⟩, .operator .divide] ∧
      play.value = some 1.0 ∧
      ∃ fresh, withRules table.rules (.ofSeed 7) = .ok fresh ∧
        (fresh.startWith play.setup).result = .ok play.setup ∧
        (fresh.startWith play.setup).next.appendAll play.tokens =
          .ok { fresh with round := table.round } := by
  refine ⟨_, _, rfl, ⟨_, _, .standard 42, rfl⟩, rfl, by decide, by decide +kernel, ?_⟩
  exact replayable ⟨_, _, .standard 42, rfl⟩ rfl (.ofSeed 7)

end Table

end TargetTiles
