import TargetTiles.Proofs.Restoring
import TargetTiles.Proofs.Soundness

/-!
# Granted and refused

When a table that requests have led to grants a request, for what reason it refuses one, and what
a refusal leaves behind.
-/

namespace TargetTiles

theorem Round.phase_eq_playing_iff {round : Round} :
    round.phase = .playing ↔ ∃ play, round = .playing play := by
  cases round <;> simp [phase]

namespace Table

/-! ## What a refusal leaves -/

/-- A refused request leaves the whole table as it was, its random source included, and reports
nothing. So no word is drawn for a number of large tiles that cannot be dealt, and no round is
given up for a setup that could not have been dealt. -/
theorem refused_unchanged {table : Table} (h : table.Reachable) :
    (∀ request error, (table.answer request).result = .error error →
      (table.answer request).next = table ∧ (table.answer request).events = []) ∧
    (∀ large, large < table.rules.minLarge ∨ table.rules.maxLarge < large →
      (table.start large).result = .error (.largeCount large table.rules.maxLarge) ∧
        (table.start large).next.rng = table.rng) ∧
    (∀ setup fault, table.rules.setupFault? setup = some fault →
      (table.startWith setup).result = .error (.setup fault) ∧
        (table.startWith setup).next.round = table.round) := by
  refine ⟨?_, ?_, ?_⟩
  · intro request error hr
    rcases answer_cases h.sound.valid request with ⟨_, heq⟩ | ⟨grant, hok, -⟩
    · rw [heq]
      exact ⟨rfl, rfl⟩
    · rw [hok] at hr
      cases hr
  · intro large hl
    have hd := Rules.deal_of_checkLarge_error (Rules.checkLarge_eq_error hl) table.rng
    simp only [start, hd, Reply.refuse, and_self]
  · intro setup fault hf
    simp only [startWith, Rules.checkSetup, hf, Reply.refuse, and_self]

/-- Five large tiles are too many for the standard rules. Asked for while a tile is entered, they
leave the tile where it is. -/
theorem refused_unchanged_five_large :
    ∃ table, table = (standard 42).after
        [.startWith ⟨532, Setup.inSlots [100, 10, 4, 3, 3, 7], Setup.inSlots_placed (by decide)⟩,
          .appendTile ⟨0⟩] ∧
      table.Reachable ∧ table.value = some 100.0 ∧
      (table.answer (.start 5)).result = .error (.largeCount 5 4) ∧
      (table.answer (.start 5)).next = table ∧ (table.answer (.start 5)).events = [] := by
  refine ⟨_, rfl, ⟨_, _, .standard 42, rfl⟩, by decide +kernel, rfl, ?_⟩
  exact (refused_unchanged ⟨_, _, .standard 42, rfl⟩).1 (.start 5) _ rfl

/-! ## Requests that need a round in play -/

section

variable {table : Table} {play : Play} {token : Token}

/-- Outside play, what is asked of the round is refused under the command it was asked with. -/
theorem ask_outside_play {α : Type} {command : Command} {ask : Play → Reply Table α}
    (h : table.round.phase ≠ .playing) :
    (match table.round with
      | .playing play => ask play
      | round => .refuse (.notAllowed command round.phase) table) =
      .refuse (.notAllowed command table.round.phase) table := by
  cases hr : table.round with
  | playing play => exact absurd (by rw [hr]; rfl) h
  | initial => rfl
  | done outcome => rfl

theorem append_of_not_playing (h : table.round.phase ≠ .playing) (token : Token) :
    table.append token = .refuse (.notAllowed .appendToken table.round.phase) table :=
  ask_outside_play h

theorem appendTile_of_not_playing (h : table.round.phase ≠ .playing) (id : TileId) :
    table.appendTile id = .refuse (.notAllowed .appendToken table.round.phase) table :=
  ask_outside_play h

theorem removeLast_of_not_playing (h : table.round.phase ≠ .playing) :
    table.removeLast = .refuse (.notAllowed .removeLastToken table.round.phase) table :=
  ask_outside_play h

theorem commit_of_not_playing (h : table.round.phase ≠ .playing) :
    table.commit = .refuse (.notAllowed .commit table.round.phase) table :=
  ask_outside_play h

/-- A request that is granted in play and refused outside is granted exactly in play. -/
theorem granted_iff_playing {α : Type} {reply : Reply Table α} {error : RoundError}
    (hin : ∀ play, table.round = .playing play → ∃ answer, reply.result = .ok answer)
    (hout : table.round.phase ≠ .playing → reply = .refuse error table) :
    (∃ answer, reply.result = .ok answer) ↔ table.round.phase = .playing := by
  constructor
  · rintro ⟨answer, ha⟩
    by_contra h
    rw [hout h] at ha
    cases ha
  · intro h
    obtain ⟨play, hr⟩ := Round.phase_eq_playing_iff.mp h
    exact hin play hr

theorem removeLast_of_playing (hr : table.round = .playing play) :
    ∃ token, table.removeLast.result = .ok token := by
  cases hp : play.pop? with
  | none => exact ⟨none, by simp only [removeLast, hr, hp]⟩
  | some popped => exact ⟨some popped.1, by simp only [removeLast, hr, hp]⟩

theorem commit_of_playing (hr : table.round = .playing play) :
    table.commit.result = .ok ⟨play.setup.target, play.value.getD 0.0⟩ ∧
      table.commit.next.round = .done ⟨play.setup.target, play.value.getD 0.0⟩ := by
  simp only [commit, hr, and_self]

theorem removeLast_granted_iff :
    (∃ token, table.removeLast.result = .ok token) ↔ table.round.phase = .playing :=
  granted_iff_playing (fun _ => removeLast_of_playing) removeLast_of_not_playing

theorem answer_removeLast {taken : Option Token} (h : table.removeLast.result = .ok taken) :
    (table.answer .removeLast).result = .ok (.token taken) :=
  congrArg (Except.map Grant.token) h

theorem commit_granted_iff :
    (∃ outcome, table.commit.result = .ok outcome) ↔ table.round.phase = .playing :=
  granted_iff_playing (fun _ hr => ⟨_, (commit_of_playing hr).1⟩) commit_of_not_playing

theorem append_granted_iff :
    (∃ value, (table.append token).result = .ok value) ↔
      ∃ play, table.round = .playing play ∧ play.Admits token := by
  constructor
  · rintro ⟨value, hv⟩
    by_cases h : table.round.phase = .playing
    · obtain ⟨play, hr⟩ := Round.phase_eq_playing_iff.mp h
      refine ⟨play, hr, Play.permit_eq_ok_iff.mp ?_⟩
      cases hp : play.permit token with
      | ok => rfl
      | error error =>
        rw [append_of_permit_error hr hp] at hv
        cases hv
    · rw [append_of_not_playing h] at hv
      cases hv
  · rintro ⟨play, hr, hadmits⟩
    exact ⟨_, (append_of_permit hr (Play.permit_eq_ok_iff.mpr hadmits)).1⟩

/-- During play, what the table grants is what the round admits. -/
theorem append_granted_iff_admits (hr : table.round = .playing play) :
    (∃ value, (table.append token).result = .ok value) ↔ play.Admits token := by
  rw [append_granted_iff]
  constructor
  · rintro ⟨other, ho, hadmits⟩
    obtain rfl := Round.playing.inj (hr.symm.trans ho)
    exact hadmits
  · intro hadmits
    exact ⟨play, hr, hadmits⟩

/-- To enter the tile of a slot is to enter the tile that was dealt into it. -/
theorem appendTile_of_dealt {tile : Tile} (hr : table.round = .playing play)
    (h : tile ∈ play.setup.tiles) : table.appendTile tile.id = table.append (.tile tile) := by
  simp only [appendTile, hr, Setup.tile?_eq_some_iff.mpr ⟨h, rfl⟩]

theorem appendTile_of_no_slot {id : TileId} (hr : table.round = .playing play)
    (h : play.setup.tiles.length ≤ id.index) :
    table.appendTile id = .refuse (.unknownTile id) table := by
  simp only [appendTile, hr, Setup.tile?_eq_none_iff.mpr h]

/-! ## Requests that are heard in every phase -/

theorem start_granted_iff (valid : table.rules.validate = .ok ()) (large : Nat) :
    (∃ setup, (table.start large).result = .ok setup) ↔
      table.rules.minLarge ≤ large ∧ large ≤ table.rules.maxLarge := by
  rw [← Rules.checkLarge_eq_ok_iff]
  cases hc : table.rules.checkLarge large with
  | error error => simp [start, Rules.deal_of_checkLarge_error hc, Reply.refuse]
  | ok =>
    obtain ⟨-, setup, -, -, hd, -⟩ := Rules.deal_of_checkLarge_ok valid hc table.rng
    exact iff_of_true ⟨setup, by simp only [start, hd]⟩ rfl

theorem start_of_illegal {large : Nat}
    (h : large < table.rules.minLarge ∨ table.rules.maxLarge < large) :
    (table.start large).result = .error (.largeCount large table.rules.maxLarge) := by
  simp only [start, Rules.deal_of_checkLarge_error (Rules.checkLarge_eq_error h), Reply.refuse]

theorem startWith_result (table : Table) (setup : Setup) :
    (table.startWith setup).result = (table.rules.checkSetup setup).map fun _ => setup := by
  rw [startWith]
  cases table.rules.checkSetup setup <;> rfl

end

/-! ## Exactly when -/

/-- When a table grants each of its requests, and why it refuses them otherwise. -/
structure Decides (table : Table) : Prop where
  append_iff : ∀ token, (∃ value, (table.append token).result = .ok value) ↔
    ∃ play, table.round = .playing play ∧ play.Admits token
  /-- Whether or not the slot it claims is in use. -/
  append_not_dealt : ∀ play tile, table.round = .playing play → tile ∉ play.setup.tiles →
    (table.append (.tile tile)).result = .error (.unknownTile tile.id)
  append_used : ∀ play tile, table.round = .playing play → tile ∈ play.setup.tiles →
    tile.id ∈ play.used → (table.append (.tile tile)).result = .error (.tileUsed tile.id)
  appendTile_dealt : ∀ play tile, table.round = .playing play → tile ∈ play.setup.tiles →
    table.appendTile tile.id = table.append (.tile tile)
  /-- Every slot below the number of tiles holds such a tile. -/
  slots : ∀ play (id : TileId), table.round = .playing play →
    id.index < play.setup.tiles.length → ∃ tile ∈ play.setup.tiles, tile.id = id
  appendTile_no_slot : ∀ play (id : TileId), table.round = .playing play →
    play.setup.tiles.length ≤ id.index → (table.appendTile id).result = .error (.unknownTile id)
  removeLast_iff :
    (∃ token, table.removeLast.result = .ok token) ↔ table.round.phase = .playing
  commit_iff : (∃ outcome, table.commit.result = .ok outcome) ↔ table.round.phase = .playing
  not_playing : table.round.phase ≠ .playing →
    (∀ token, (table.append token).result =
      .error (.notAllowed .appendToken table.round.phase)) ∧
    (∀ id, (table.appendTile id).result =
      .error (.notAllowed .appendToken table.round.phase)) ∧
    table.removeLast.result = .error (.notAllowed .removeLastToken table.round.phase) ∧
    table.commit.result = .error (.notAllowed .commit table.round.phase)
  start_iff : ∀ large, (∃ setup, (table.start large).result = .ok setup) ↔
    table.rules.minLarge ≤ large ∧ large ≤ table.rules.maxLarge
  start_illegal : ∀ large, large < table.rules.minLarge ∨ table.rules.maxLarge < large →
    (table.start large).result = .error (.largeCount large table.rules.maxLarge)
  startWith_iff : ∀ setup, (∃ taken, (table.startWith setup).result = .ok taken) ↔
    table.rules.checkSetup setup = .ok ()
  startWith_fault : ∀ setup error, table.rules.checkSetup setup = .error error →
    (table.startWith setup).result = .error error

/-- A table that requests have led to grants a token exactly in play and if the round admits it,
the last token's removal and the commit exactly in play, and a start exactly if the rules allow it.
Each refusal names the first reason that applies: the phase, then that a tile was not dealt, then
that its slot is in use. -/
theorem decides_exactly {table : Table} (h : table.Reachable) : table.Decides where
  append_iff _ := append_granted_iff
  append_not_dealt play tile hr ht := append_of_permit_error hr (Play.permit_of_not_dealt ht)
  append_used play tile hr ht hu := append_of_permit_error hr (Play.permit_of_used ht hu)
  appendTile_dealt play tile := appendTile_of_dealt
  slots play id hr hi := by
    cases ht : play.setup.tile? id with
    | none => exact absurd hi (Nat.not_lt.mpr (Setup.tile?_eq_none_iff.mp ht))
    | some tile => exact ⟨tile, Setup.tile?_eq_some_iff.mp ht⟩
  appendTile_no_slot play id hr hi := by
    rw [appendTile_of_no_slot hr hi]
    rfl
  removeLast_iff := removeLast_granted_iff
  commit_iff := commit_granted_iff
  not_playing hp := by
    simp only [append_of_not_playing hp, appendTile_of_not_playing hp,
      removeLast_of_not_playing hp, commit_of_not_playing hp, Reply.refuse, implies_true, and_self]
  start_iff := start_granted_iff h.sound.valid
  start_illegal _ := start_of_illegal
  startWith_iff setup := by
    rw [startWith_result]
    cases table.rules.checkSetup setup <;> simp [Except.map]
  startWith_fault setup error he := by
    rw [startWith_result, he]
    rfl

/-- With the tile of slot 3 entered, a forged tile of that slot is unknown and the tile itself is
used; there is no slot 9; and nothing can be entered once the round is settled. -/
theorem decides_exactly_forged :
    ∃ table, table = (standard 42).after
        [.startWith ⟨532, Setup.inSlots [100, 10, 4, 3, 3, 7], Setup.inSlots_placed (by decide)⟩,
          .appendTile ⟨3⟩] ∧
      table.Reachable ∧ (table.answer .commit).next.Reachable ∧
      (table.append (.tile ⟨⟨3⟩, 100⟩)).result = .error (.unknownTile ⟨3⟩) ∧
      (table.append (.tile ⟨⟨3⟩, 3⟩)).result = .error (.tileUsed ⟨3⟩) ∧
      (table.appendTile ⟨9⟩).result = .error (.unknownTile ⟨9⟩) ∧
      (∃ value, (table.append (.tile ⟨⟨4⟩, 3⟩)).result = .ok value) ∧
      (table.start 5).result = .error (.largeCount 5 4) ∧
      ((table.answer .commit).next.append (.operator .add)).result =
        .error (.notAllowed .appendToken .done) := by
  have hplaying : Reachable ((standard 42).after
      [.startWith ⟨532, Setup.inSlots [100, 10, 4, 3, 3, 7], Setup.inSlots_placed (by decide)⟩,
        .appendTile ⟨3⟩]) := ⟨_, _, .standard 42, rfl⟩
  have hdone : Reachable ((standard 42).after
      [.startWith ⟨532, Setup.inSlots [100, 10, 4, 3, 3, 7], Setup.inSlots_placed (by decide)⟩,
        .appendTile ⟨3⟩, .commit]) := ⟨_, _, .standard 42, rfl⟩
  have h := decides_exactly hplaying
  exact ⟨_, rfl, hplaying, hdone, h.append_not_dealt _ _ rfl (by decide),
    h.append_used _ _ rfl (by decide) (by decide), h.appendTile_no_slot _ _ rfl (by decide),
    (h.append_iff _).mpr ⟨_, rfl, by decide, by decide⟩, h.start_illegal 5 (by decide),
    ((decides_exactly hdone).not_playing (by decide)).1 _⟩

end Table

end TargetTiles
