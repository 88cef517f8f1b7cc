import TargetTiles.Decimal.Style
import TargetTiles.Wire.Value

/-!
# Compact documents

A wire value as JSON text without blanks.
-/

namespace TargetTiles.Wire

/-- A character as it stands in a text literal. A quote, a backslash and the control characters are
escaped, each in its shortest form. -/
def quotedChar (c : Char) : List Char :=
  if c = '"' then ['\\', '"']
  else if c = '\\' then ['\\', '\\']
  else if c = '\x08' then ['\\', 'b']
  else if c = '\x0c' then ['\\', 'f']
  else if c = '\n' then ['\\', 'n']
  else if c = '\r' then ['\\', 'r']
  else if c = '\t' then ['\\', 't']
  else if c.toNat < 0x20 then
    ['\\', 'u', '0', '0', Nat.digitChar (c.toNat / 16), Nat.digitChar (c.toNat % 16)]
  else [c]

/-- A text as a literal with its quotes. -/
def quoted (text : String) : String :=
  String.ofList ('"' :: (text.toList.flatMap quotedChar ++ ['"']))

mutual

/-- The value as a document. What has no number or text of its own is written as `null`. -/
def compact : Wire → String
  | .null => "null"
  | .bool value => if value then "true" else "false"
  | .int value => toString value
  | .float value => if value.isFinite then Decimal.Style.document.write value else "null"
  | .text value => quoted value
  | .list items => "[" ++ String.intercalate "," (compactItems items) ++ "]"
  | .record entries => "\x7b" ++ String.intercalate "," (compactEntries entries) ++ "\x7d"
  | .unreadable => "null"
  | .malformed => "null"

/-- The items of a list as documents. -/
def compactItems : List Wire → List String
  | [] => []
  | item :: items => compact item :: compactItems items

/-- The entries of a record as documents behind their names. -/
def compactEntries : List (Option String × Wire) → List String
  | [] => []
  | (name, value) :: entries =>
    (quoted (name.getD "") ++ ":" ++ compact value) :: compactEntries entries

end

end TargetTiles.Wire
