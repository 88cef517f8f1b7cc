import TargetTiles.Proofs.NonFinite
import TargetTiles.Wire.Round

/-!
# Records are read back

Each value of the game is read back from its form on the wire. The fields of a record are read one
after the other into a draft, and the draft of a record just written is complete.
-/

namespace TargetTiles

namespace Wire

/-! ## Numbers and lists -/

theorem int64_ofInt64 (n : Int64) : (Wire.ofInt64 n).int64 = .ok n := by
  have hmin : Int64.minValue.toInt ≤ n.toInt := n.le_toInt
  have hmax : n.toInt ≤ Int64.maxValue.toInt := Int.le_of_lt_add_one n.toInt_lt
  rw [ofInt64, int64, if_pos ⟨hmin, hmax⟩, Int64.ofInt_toInt]

theorem natBelow_int {bits n : Nat} (h : n < 1 <<< bits) :
    (Wire.int n).natBelow bits = .ok n := by
  rw [natBelow, if_pos ⟨Int.natCast_nonneg n, h⟩]
  rfl

theorem listOf_map {α : Type} {read : Wire → Decoded α} {write : α → Wire}
    (h : ∀ a, read (write a) = .ok a) (items : List α) :
    Wire.listOf read (.list (items.map write)) = .ok items := by
  rw [listOf]
  induction items with
  | nil => rfl
  | cons item items ih =>
    rw [List.map_cons, List.mapM_cons, h, ih]
    rfl

/-! ## Records and choices -/

variable {δ α : Type}

@[simp] theorem readRecord_nil (fields : List (RecordField δ)) (draft : δ) :
    readRecord fields draft (.ofFields []) = .ok draft := rfl

/-- An entry goes into the draft if it belongs to a field that is still missing there. -/
theorem readRecord_cons_bind {fields : List (RecordField δ)} {name : String}
    {decode : Wire → Decoded α} {get : δ → Option α} {set : δ → α → δ} {draft : δ}
    (hf : fields.find? (·.name == name) = some (.of name decode get set))
    (hd : get draft = none) (item : Wire) (entries : List (String × Wire)) :
    readRecord fields draft (.ofFields ((name, item) :: entries)) =
      (decode item).bind fun a => readRecord fields (set draft a) (.ofFields entries) := by
  have hentry : readEntry fields draft (some name, item) = (decode item).map (set draft) := by
    simp only [readEntry, hf, RecordField.of, hd]
    rfl
  simp only [readRecord, ofFields, List.map_cons, List.foldlM_cons, hentry]
  cases decode item <;> rfl

theorem readRecord_cons {fields : List (RecordField δ)} {name : String}
    {decode : Wire → Decoded α} {get : δ → Option α} {set : δ → α → δ} {draft : δ} {item : Wire}
    {a : α} (hf : fields.find? (·.name == name) = some (.of name decode get set))
    (hd : get draft = none) (hr : decode item = .ok a) (entries : List (String × Wire)) :
    readRecord fields draft (.ofFields ((name, item) :: entries)) =
      readRecord fields (set draft a) (.ofFields entries) := by
  rw [readRecord_cons_bind hf hd, hr]
  rfl

theorem readChoice_holding {bare : String → Option α}
    {holding : String → Option (Wire → Decoded α)} {name : String} {read : Wire → Decoded α}
    (hb : bare name = none) (hh : holding name = some read) (content : Wire) :
    readChoice bare holding (.ofFields [(name, content)]) = read content := by
  simp only [ofFields, List.map_cons, List.map_nil, readChoice, hb, hh]
  cases read content <;> rfl

@[simp] theorem accepted_eq_ok_iff {result : Except RoundError α} {a : α} :
    accepted result = .ok a ↔ result = .ok a := by
  cases result <;> simp [accepted, Except.mapError]

theorem accepted_eq_error_iff {result : Except RoundError α} {error : DecodeError} :
    accepted result = .error error ↔
      ∃ refusal, result = .error refusal ∧ error = .refused refusal := by
  cases result <;> simp [accepted, Except.mapError, eq_comm]

end Wire

open Wire

/-! ## Tiles, operators and tokens -/

theorem TileId.ofWire_toWire (id : TileId) : TileId.ofWire id.toWire = .ok id := by
  rw [ofWire, toWire, natBelow_int id.slot.toNat_lt]
  simp only [Except.map, index, UInt8.ofNat_toNat]

theorem Tile.ofWire_toWire (tile : Tile) : Tile.ofWire tile.toWire = .ok tile := by
  rw [ofWire, toWire, readRecord_cons rfl rfl (TileId.ofWire_toWire tile.id),
    readRecord_cons rfl rfl (int64_ofInt64 tile.value), readRecord_nil]
  rfl

theorem Operator.ofWire_toWire (op : Operator) : Operator.ofWire op.toWire = .ok op := by
  cases op <;> rfl

theorem OperandCheck.ofWire_toWire (check : OperandCheck) :
    OperandCheck.ofWire check.toWire = .ok check := by
  cases check <;> rfl

theorem Token.ofWire_toWire (token : Token) : Token.ofWire token.toWire = .ok token := by
  cases token with
  | tile tile =>
    rw [ofWire, toWire, readChoice_holding rfl rfl, Tile.ofWire_toWire]
    rfl
  | operator op =>
    rw [ofWire, toWire, readChoice_holding rfl rfl, Operator.ofWire_toWire]
    rfl

/-! ## Setups -/

/-- There are no more slots than a tile can name. -/
theorem Setup.length_tiles_le (setup : Setup) : setup.tiles.length ≤ 256 := by
  refine Nat.le_of_not_lt fun hlt => ?_
  have hslot := setup.placed 256 _ (List.getElem?_eq_getElem hlt)
  have hid := (setup.tiles[256]).id.slot.toNat_lt
  rw [TileId.index] at hslot
  omega

theorem Setup.ofTiles_eq_ok_iff {target : Int64} {tiles : List Tile} {setup : Setup} :
    ofTiles target tiles = .ok setup ↔ setup.target = target ∧ setup.tiles = tiles := by
  constructor
  · intro h
    rw [ofTiles] at h
    split at h
    · cases h
    · split at h
      · cases h
      · cases h
        exact ⟨rfl, rfl⟩
  · rintro ⟨rfl, rfl⟩
    rw [ofTiles, if_neg (Nat.not_lt.mpr setup.length_tiles_le)]
    split
    · next h =>
      rw [firstMisplaced_eq_none_iff.mpr setup.placed] at h
      cases h
    · rfl

/-- The record of a target and tiles, which may be no setup. -/
def Setup.record (target : Int64) (tiles : List Tile) : Wire :=
  .ofFields [("target", .ofInt64 target), ("tiles", .list (tiles.map Tile.toWire))]

theorem Setup.ofWire_record (target : Int64) (tiles : List Tile) :
    Setup.ofWire (record target tiles) = accepted (ofTiles target tiles) := by
  rw [ofWire, record, readRecord_cons rfl rfl (int64_ofInt64 target),
    readRecord_cons rfl rfl (listOf_map Tile.ofWire_toWire tiles), readRecord_nil]
  rfl

/-! ## Rounds -/

theorem finalOfWire_finalToWire (final : Float) : finalOfWire (finalToWire final) = .ok final := by
  rw [finalToWire]
  split
  · rfl
  · next h =>
    rw [finalOfWire, Decimal.ofText?_write (Bool.eq_false_iff.mpr h)]
    rfl

theorem Outcome.ofWire_toWire (outcome : Outcome) :
    Outcome.ofWire outcome.toWire = .ok outcome := by
  rw [ofWire, toWire, readRecord_cons rfl rfl (int64_ofInt64 outcome.target),
    readRecord_cons rfl rfl (finalOfWire_finalToWire outcome.final), readRecord_nil]
  rfl

/-- The record of a setup and tokens, which may be no round in play. The operand check may be left
out. -/
def Play.record (target : Int64) (tiles : List Tile) (tokens : List Token)
    (check : Option OperandCheck) : Wire :=
  .ofFields (("setup", Setup.record target tiles) ::
    ("tokens", .list (tokens.map Token.toWire)) ::
    (check.map fun check => ("operand_check", check.toWire)).toList)

theorem Play.toWire_eq_record (play : Play) : play.toWire =
    record play.setup.target play.setup.tiles play.tokens (some play.check) := rfl

/-- Reading the record of a round in play is restoring the round from it. -/
theorem Play.ofWire_record (target : Int64) (tiles : List Tile) (tokens : List Token)
    (check : Option OperandCheck) :
    Play.ofWire (record target tiles tokens check) = accepted ((Setup.ofTiles target tiles).bind
      fun setup => restore setup tokens (check.getD .presence)) := by
  rw [ofWire, record, readRecord_cons_bind rfl rfl, Setup.ofWire_record]
  cases Setup.ofTiles target tiles with
  | error error => rfl
  | ok setup =>
    simp only [accepted, Except.mapError, Except.bind]
    rw [readRecord_cons rfl rfl (listOf_map Token.ofWire_toWire tokens)]
    cases check with
    | none => rfl
    | some check =>
      simp only [Option.map_some, Option.toList_some]
      rw [readRecord_cons rfl rfl (OperandCheck.ofWire_toWire check), readRecord_nil]
      rfl

/-- Whatever is read as a round in play gives a setup and tokens, from which the round is
restored. -/
theorem Play.ofWire_eq_ok {wire : Wire} {play : Play} (h : Play.ofWire wire = .ok play) :
    ∃ setup tokens check, readRecord Play.fields {} wire = .ok ⟨some setup, some tokens, check⟩ ∧
      restore setup tokens (check.getD .presence) = .ok play := by
  rw [ofWire] at h
  cases hr : readRecord Play.fields {} wire with
  | error error => simp [hr, bind, Except.bind] at h
  | ok draft =>
    obtain ⟨setup, tokens, check⟩ := draft
    rw [hr] at h
    cases setup with
    | none => cases h
    | some setup =>
      cases tokens with
      | none => cases h
      | some tokens => exact ⟨setup, tokens, check, rfl, accepted_eq_ok_iff.mp h⟩

theorem Round.ofWire_initial : Round.ofWire Round.initial.toWire = .ok .initial := rfl

theorem Round.ofWire_playing (play : Play) :
    Round.ofWire (Round.playing play).toWire = (Play.ofWire play.toWire).map .playing := by
  rw [ofWire, toWire, readChoice_holding rfl rfl]

theorem Round.ofWire_done (outcome : Outcome) :
    Round.ofWire (Round.done outcome).toWire = .ok (.done outcome) := by
  rw [ofWire, toWire, readChoice_holding rfl rfl, Outcome.ofWire_toWire]
  rfl

end TargetTiles
