import TargetTiles.Wire.Value

/-!
# Records and choices

How a record is read into the parts of a value, and how a choice between named cases is read.

A record comes as entries in any order, or as a list of its fields in their order. Entries with
other names are passed over; an entry that comes twice is an error. Entries are taken in the order
of the text, so the first fault in that order is the one reported. While it is read a record is a
draft, in which fields may still be missing.
-/

namespace TargetTiles.Wire

/-- A field of a record that is read into drafts of the type `δ`. -/
structure RecordField (δ : Type) where
  name : String
  isSet : δ → Bool
  read : Wire → δ → Decoded δ

/-- A field whose value is kept in one place of the draft. -/
def RecordField.of {δ α : Type} (name : String) (decode : Wire → Decoded α)
    (get : δ → Option α) (set : δ → α → δ) : RecordField δ where
  name := name
  isSet draft := (get draft).isSome
  read wire draft := (decode wire).map (set draft)

variable {δ : Type}

/-- Takes one entry into the draft. -/
def readEntry (fields : List (RecordField δ)) (draft : δ) : Option String × Wire → Decoded δ
  | (none, _) => .error .malformed
  | (some name, value) =>
    match fields.find? (·.name == name) with
    | some field => if field.isSet draft then .error .malformed else field.read value draft
    | none => if value.isSkippable then .ok draft else .error .malformed

/-- Takes items into the draft, one for each field in turn. -/
def readItems : List (RecordField δ) → δ → List Wire → Decoded δ
  | _, draft, [] => .ok draft
  | [], _, _ :: _ => .error .malformed
  | field :: fields, draft, item :: items => do
    let draft ← field.read item draft
    readItems fields draft items

/-- Reads a record into a draft. -/
def readRecord (fields : List (RecordField δ)) (draft : δ) : Wire → Decoded δ
  | .record entries => entries.foldlM (readEntry fields) draft
  | .list items => readItems fields draft items
  | _ => .error .malformed

/-- A field that a finished record has to have. -/
def required {α : Type} : Option α → Decoded α
  | some value => .ok value
  | none => .error .malformed

/-- Reads a choice. A case without content is its name, or a record that gives the name nothing;
a case with content is a record of one entry. -/
def readChoice {α : Type} (bare : String → Option α)
    (holding : String → Option (Wire → Decoded α)) : Wire → Decoded α
  | .text name => required (bare name)
  | .record ((some name, content) :: others) => do
    let value ← match bare name, holding name, content with
      | some value, _, .null => .ok value
      | none, some read, content => read content
      | _, _, _ => .error .malformed
    if others.isEmpty then return value else .error .malformed
  | _ => .error .malformed

/-- Reads a choice between cases without content. -/
def readName {α : Type} (bare : String → Option α) : Wire → Decoded α :=
  readChoice bare fun _ => none

/-- Passes a refusal on as the reason why the value cannot be read. -/
def accepted {α : Type} : Except RoundError α → Decoded α :=
  Except.mapError .refused

end TargetTiles.Wire
