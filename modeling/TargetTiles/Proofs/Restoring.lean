import TargetTiles.Proofs.Playing
import TargetTiles.Table

/-!
# Restoring is replaying

A round in play is restored from its tokens at one go: one pass over the tiles, then one
evaluation. Entering the same tokens one after the other checks each of them against those before
it and evaluates every time. Both accept the same token lists, leave the same round, and refuse
the others for the same reason.
-/

namespace TargetTiles

/-! ## Entering several tokens -/

namespace Table

/-- The table at which tokens have been entered one after the other. The first refusal ends it. -/
def appendAll (table : Table) : List Token → Except RoundError Table
  | [] => .ok table
  | token :: rest =>
    match (table.append token).result with
    | .ok _ => (table.append token).next.appendAll rest
    | .error error => .error error

variable {table : Table} {play : Play} {token : Token} {error : RoundError}

theorem appendAll_cons_ok {value : Option Float} (h : (table.append token).result = .ok value)
    (rest : List Token) :
    table.appendAll (token :: rest) = (table.append token).next.appendAll rest := by
  rw [appendAll, h]

theorem appendAll_cons_error (h : (table.append token).result = .error error)
    (rest : List Token) : table.appendAll (token :: rest) = .error error := by
  rw [appendAll, h]

/-- Where entering several tokens is refused, all tokens before some one are entered and that one
is refused. -/
theorem appendAll_eq_error {tokens : List Token} (h : table.appendAll tokens = .error error) :
    ∃ before token after between, tokens = before ++ token :: after ∧
      table.appendAll before = .ok between ∧ (between.append token).result = .error error := by
  induction tokens generalizing table with
  | nil => cases h
  | cons token rest ih =>
    cases hr : (table.append token).result with
    | error e =>
      rw [appendAll_cons_error hr] at h
      cases h
      exact ⟨[], token, rest, table, rfl, rfl, hr⟩
    | ok value =>
      rw [appendAll_cons_ok hr] at h
      obtain ⟨before, refused, after, between, htokens, hbefore, hrefused⟩ := ih h
      refine ⟨token :: before, refused, after, between, ?_, ?_, hrefused⟩
      · rw [htokens, List.cons_append]
      · rw [appendAll_cons_ok hr, hbefore]

/-! ## Entering a token during play -/

theorem append_eq_of_permit (hr : table.round = .playing play) (hp : play.permit token = .ok ()) :
    table.append token =
      ⟨.ok (play.push token).value, { table with round := .playing (play.push token) },
        (play.push token).warnings ++ [.appended token (play.push token).value]⟩ := by
  simp only [append, hr, hp]

theorem append_of_permit (hr : table.round = .playing play) (hp : play.permit token = .ok ()) :
    (table.append token).result = .ok (play.push token).value ∧
      (table.append token).next = { table with round := .playing (play.push token) } := by
  rw [append_eq_of_permit hr hp]
  exact ⟨rfl, rfl⟩

theorem append_of_permit_error (hr : table.round = .playing play)
    (hp : play.permit token = .error error) :
    (table.append token).result = .error error := by
  simp only [append, hr, hp]
  rfl

end Table

/-! ## The two ways agree -/

namespace Play

variable {play : Play}

/-- The pass over the tiles treats the next token as the round does in which the tokens before it
have been entered, as long as the slots seen are the slots in use. -/
theorem checkTokens_cons {seen : List TileId} (hseen : ∀ id, id ∈ seen ↔ id ∈ play.used)
    (token : Token) (rest : List Token) :
    checkTokens play.setup seen (token :: rest) = (play.permit token).bind fun _ =>
      checkTokens play.setup (token.tileId?.toList ++ seen) rest := by
  cases token with
  | operator op => rfl
  | tile tile =>
    have hused : seen.contains tile.id = play.isUsed tile.id := by
      rw [Bool.eq_iff_iff, List.contains_iff_mem, hseen, isUsed_iff]
    rw [checkTokens, hused, permit]
    cases play.setup.contains tile <;> cases play.isUsed tile.id <;> rfl

theorem push_value (token : Token) :
    (play.push token).value =
      (Evaluation.ofTokens (play.push token).check (play.push token).tokens).value := rfl

theorem withTokens_self (h : play.value = (Evaluation.ofTokens play.check play.tokens).value) :
    play.withTokens play.tokens = play := by
  rw [withTokens, ← h]

/-- Entering tokens one by one is the pass over them, then one evaluation. -/
theorem appendAll_eq_checkTokens {table : Table} (seen : List TileId) (rest : List Token)
    (hr : table.round = .playing play)
    (hv : play.value = (Evaluation.ofTokens play.check play.tokens).value)
    (hseen : ∀ id, id ∈ seen ↔ id ∈ play.used) :
    table.appendAll rest = (checkTokens play.setup seen rest).map fun _ =>
      { table with round := .playing (play.withTokens (play.tokens ++ rest)) } := by
  induction rest generalizing table play seen with
  | nil =>
    rw [List.append_nil, withTokens_self hv, ← hr]
    rfl
  | cons token rest ih =>
    rw [checkTokens_cons hseen]
    cases hp : play.permit token with
    | error error =>
      rw [Table.appendAll_cons_error (Table.append_of_permit_error hr hp)]
      rfl
    | ok =>
      obtain ⟨hresult, hnext⟩ := Table.append_of_permit hr hp
      have hseen' : ∀ id, id ∈ token.tileId?.toList ++ seen ↔ id ∈ (play.push token).used := by
        intro id
        rw [used_push, List.mem_append, List.mem_append, hseen, or_comm]
      rw [Table.appendAll_cons_ok hresult, hnext, ih _ rfl (push_value token) hseen']
      simp only [push, withTokens, List.append_assoc, List.singleton_append]
      rfl

theorem restore_eq_map (setup : Setup) (tokens : List Token) (check : OperandCheck) :
    restore setup tokens check =
      (checkTokens setup [] tokens).map fun _ => (fresh setup check).withTokens tokens := by
  rw [restore]
  cases checkTokens setup [] tokens <;> rfl

theorem restore_eq_ok_iff {setup : Setup} {tokens : List Token} {check : OperandCheck} :
    restore setup tokens check = .ok play ↔
      checkTokens setup [] tokens = .ok () ∧ (fresh setup check).withTokens tokens = play := by
  rw [restore_eq_map]
  cases checkTokens setup [] tokens <;> simp [Except.map]

theorem appendAll_eq_restore (table : Table) (setup : Setup) (tokens : List Token)
    (check : OperandCheck) :
    Table.appendAll { table with round := .playing (fresh setup check) } tokens =
      (restore setup tokens check).map fun play => { table with round := .playing play } := by
  rw [restore_eq_map, appendAll_eq_checkTokens [] tokens rfl rfl fun _ => Iff.rfl]
  simp only [fresh]
  cases checkTokens setup [] tokens <;> rfl

/-- The pass accepts the tokens whose tiles were dealt, are different from each other, and were not
seen before. -/
theorem checkTokens_eq_ok_iff {setup : Setup} {seen : List TileId} {tokens : List Token} :
    checkTokens setup seen tokens = .ok () ↔
      (∀ tile, .tile tile ∈ tokens → tile ∈ setup.tiles) ∧
      (tokens.filterMap Token.tileId?).Nodup ∧
      ∀ id ∈ tokens.filterMap Token.tileId?, id ∉ seen := by
  induction tokens generalizing seen with
  | nil => simp [checkTokens]
  | cons token rest ih =>
    cases token with
    | operator op =>
      rw [checkTokens, ih, List.filterMap_cons_none rfl]
      simp
    | tile tile =>
      have hslots : (Token.tile tile :: rest).filterMap Token.tileId? =
          tile.id :: rest.filterMap Token.tileId? := List.filterMap_cons_some rfl
      have hdealt : (!setup.contains tile) = true ↔ tile ∉ setup.tiles := by
        rw [Bool.not_eq_true', ← Bool.not_eq_true, Setup.contains_iff_mem]
      simp only [checkTokens, hdealt, hslots, List.contains_iff_mem]
      split
      · next hforeign => simp [hforeign]
      · split
        · next hseen => simp [hseen]
        · rw [ih]
          grind

/-- The pass over the tiles refuses nothing but tiles. -/
theorem checkTokens_eq_error {setup : Setup} {seen : List TileId} {tokens : List Token}
    {error : RoundError} (h : checkTokens setup seen tokens = .error error) :
    ∃ tile, .tile tile ∈ tokens ∧ (error = .unknownTile tile.id ∨ error = .tileUsed tile.id) := by
  induction tokens generalizing seen with
  | nil => cases h
  | cons token rest ih =>
    cases token with
    | operator op =>
      obtain ⟨tile, ht, he⟩ := ih h
      exact ⟨tile, .tail _ ht, he⟩
    | tile tile =>
      rw [checkTokens] at h
      split at h
      · cases h
        exact ⟨tile, .head _, .inl rfl⟩
      · split at h
        · cases h
          exact ⟨tile, .head _, .inr rfl⟩
        · obtain ⟨other, ht, he⟩ := ih h
          exact ⟨other, .tail _ ht, he⟩

/-- A round is restored from tokens exactly if they can be entered one after the other in a fresh
round, at whatever table. The round restored is then the round so reached; and if none is restored,
the reason is a tile among the tokens, and it is the reason for which the first token that cannot be
entered is refused. -/
theorem restore_iff_appendAll (table : Table) (setup : Setup) (tokens : List Token)
    (check : OperandCheck) :
    let start : Table := { table with round := .playing (fresh setup check) }
    ((∃ play, restore setup tokens check = .ok play) ↔
      ∃ next, start.appendAll tokens = .ok next) ∧
    (∀ play, restore setup tokens check = .ok play →
      start.appendAll tokens = .ok { start with round := .playing play }) ∧
    (∀ error, restore setup tokens check = .error error →
      (∃ tile, .tile tile ∈ tokens ∧ (error = .unknownTile tile.id ∨ error = .tileUsed tile.id)) ∧
      ∃ before token after between, tokens = before ++ token :: after ∧
        start.appendAll before = .ok between ∧
        (between.append token).result = .error error) := by
  intro start
  have heq : start.appendAll tokens = _ := appendAll_eq_restore table setup tokens check
  refine ⟨?_, ?_, ?_⟩
  · rw [heq]
    cases restore setup tokens check <;> simp [Except.map]
  · intro play h
    rw [heq, h]
    rfl
  · intro error h
    refine ⟨?_, Table.appendAll_eq_error (by rw [heq, h]; rfl)⟩
    rw [restore_eq_map] at h
    cases hc : checkTokens setup [] tokens with
    | error e =>
      rw [hc] at h
      cases h
      exact checkTokens_eq_error hc
    | ok =>
      rw [hc] at h
      cases h

end Play

end TargetTiles
