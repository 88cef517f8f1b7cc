import TargetTiles.Proofs.Records
import TargetTiles.Proofs.Replaying

/-!
# Snapshots are restored

A round is the same after it has been written on the wire and read back, although the value of the
tokens is not written: it is worked out anew, and comes out the same because the tokens of a round
that has come about are accepted once more.
-/

namespace TargetTiles

open Wire

/-- A round as it may come about: not dealt yet, played at a table or read from the wire, or
settled with any target and any number. -/
inductive Round.Obtained : Round → Prop
  | initial : Obtained .initial
  | played {table : Table} {play : Play} (h : table.Reachable)
      (hr : table.round = .playing play) : Obtained (.playing play)
  | read {wire : Wire} {play : Play} (h : Play.ofWire wire = .ok play) : Obtained (.playing play)
  | done (outcome : Outcome) : Obtained (.done outcome)

/-- Such is the round at every table that requests lead to. -/
theorem Table.Reachable.obtained {table : Table} (h : table.Reachable) : table.round.Obtained := by
  cases hr : table.round with
  | initial => exact .initial
  | playing play => exact .played h hr
  | done outcome => exact .done outcome

variable {play : Play}

/-- A round restored once is restored again from its own tokens. -/
theorem Play.restore_of_restore {setup : Setup} {tokens : List Token} {check : OperandCheck}
    (h : restore setup tokens check = .ok play) :
    restore play.setup play.tokens play.check = .ok play := by
  obtain ⟨hpass, rfl⟩ := restore_eq_ok_iff.mp h
  exact restore_eq_ok_iff.mpr ⟨hpass, rfl⟩

/-- A round that its own tokens restore is read back. -/
theorem Play.ofWire_toWire (h : restore play.setup play.tokens play.check = .ok play) :
    Play.ofWire play.toWire = .ok play := by
  rw [toWire_eq_record, ofWire_record, Setup.ofTiles_eq_ok_iff.mpr ⟨rfl, rfl⟩]
  exact accepted_eq_ok_iff.mpr h

theorem Round.Obtained.ofWire_toWire {round : Round} (h : round.Obtained) :
    Round.ofWire round.toWire = .ok round := by
  cases h with
  | initial => exact Round.ofWire_initial
  | played h hr =>
    rw [Round.ofWire_playing, Play.ofWire_toWire (h.sound.playing _ hr).restore_eq]
    rfl
  | read h =>
    obtain ⟨setup, tokens, check, -, hrestore⟩ := Play.ofWire_eq_ok h
    rw [Round.ofWire_playing, Play.ofWire_toWire (Play.restore_of_restore hrestore)]
    rfl
  | done outcome => exact Round.ofWire_done outcome

/-- A record that is read as a round in play is what the round is written as, but for an operand
check left out, which is then the presence of operands. -/
theorem Play.toWire_of_record {target : Int64} {tiles : List Tile} {tokens : List Token}
    {check : Option OperandCheck}
    (h : Play.ofWire (record target tiles tokens check) = .ok play) :
    play.toWire = record target tiles tokens (some (check.getD .presence)) := by
  rw [ofWire_record, accepted_eq_ok_iff] at h
  cases hs : Setup.ofTiles target tiles with
  | error error =>
    rw [hs] at h
    cases h
  | ok setup =>
    rw [hs] at h
    obtain ⟨rfl, rfl⟩ := Setup.ofTiles_eq_ok_iff.mp hs
    obtain ⟨-, rfl⟩ := restore_eq_ok_iff.mp h
    rfl

/-- Every round that may come about is read back from its form on the wire, the value of its tokens
and its final value included. Every record that is read as a round in play is written again as it
was, the operand check being added where it was left out; and whatever else is read as one is
written as the record of the setup, the tokens and the operand check that were read. -/
theorem Round.snapshot_restores :
    (∀ round : Round, round.Obtained → Round.ofWire round.toWire = .ok round) ∧
    (∀ target tiles tokens check play,
      Play.ofWire (Play.record target tiles tokens check) = .ok play →
      play.toWire = Play.record target tiles tokens (some (check.getD .presence))) ∧
    (∀ wire play, Play.ofWire wire = .ok play → ∃ setup tokens check,
      readRecord Play.fields {} wire = .ok ⟨some setup, some tokens, check⟩ ∧
      play.toWire =
        Play.record setup.target setup.tiles tokens (some (check.getD .presence))) := by
  refine ⟨fun _ h => h.ofWire_toWire, fun _ _ _ _ _ h => Play.toWire_of_record h, ?_⟩
  intro wire play h
  obtain ⟨setup, tokens, check, hread, hrestore⟩ := Play.ofWire_eq_ok h
  obtain ⟨-, rfl⟩ := Play.restore_eq_ok_iff.mp hrestore
  exact ⟨setup, tokens, check, hread, rfl⟩

/-- A final value that is no number, a division by zero in play, and a record without an operand
check. -/
theorem Round.snapshot_restores_extremes :
    Round.ofWire (Round.done ⟨300, 0.0 / 0.0⟩).toWire = .ok (.done ⟨300, 0.0 / 0.0⟩) ∧
    (∃ table, table = (Table.standard 42).after
        [.startWith ⟨300, Setup.inSlots [8, 2, 2, 1, 3, 4], Setup.inSlots_placed (by decide)⟩,
          .appendTile ⟨0⟩, .appendTile ⟨1⟩, .appendTile ⟨2⟩, .appendOperator .subtract,
          .appendOperator .divide] ∧
      table.value = some Decimal.infinity ∧ Round.ofWire table.round.toWire = .ok table.round) ∧
    ∃ play, Play.ofWire (Play.record 10 [⟨⟨0⟩, 5⟩] [.tile ⟨⟨0⟩, 5⟩] none) = .ok play ∧
      play.toWire = Play.record 10 [⟨⟨0⟩, 5⟩] [.tile ⟨⟨0⟩, 5⟩] (some .presence) := by
  obtain ⟨hback, hrecord, -⟩ := Round.snapshot_restores
  refine ⟨hback _ (.done _), ⟨_, rfl, by decide +kernel, hback _ ?_⟩,
    ⟨_, rfl, hrecord _ _ _ none _ rfl⟩⟩
  exact Table.Reachable.obtained ⟨_, _, .standard 42, rfl⟩

end TargetTiles
