import TargetTiles.Decimal.Reading
import TargetTiles.Wire.Value

/-!
# Documents

The JSON text of a wire value. Reading goes on as far as the text makes sense and marks the place
where it stops, so that every text gives a tree.
-/

namespace TargetTiles.Wire.Document

/-- What is left of the text, or nothing if the text has stopped making sense. -/
abbrev Rest := Option (List Char)

/-- Passes over the blanks that may stand between the parts of a document. -/
def skipBlanks (cs : List Char) : List Char :=
  cs.dropWhile fun c => c == ' ' || c == '\t' || c == '\n' || c == '\r'

/-! ## Texts -/

/-- The number that a hexadecimal digit of either case stands for. -/
def hexDigit? (c : Char) : Option Nat :=
  if '0' ≤ c ∧ c ≤ '9' then some (c.toNat - '0'.toNat)
  else if 'a' ≤ c ∧ c ≤ 'f' then some (c.toNat - 'a'.toNat + 10)
  else if 'A' ≤ c ∧ c ≤ 'F' then some (c.toNat - 'A'.toNat + 10)
  else none

/-- The number that four hexadecimal digits stand for. -/
def hexUnit? (a b c d : Char) : Option Nat := do
  return (← hexDigit? a) * 4096 + (← hexDigit? b) * 256 + (← hexDigit? c) * 16 + (← hexDigit? d)

/-- The character that a letter behind a backslash stands for. -/
def escaped? : Char → Option Char
  | '"' => some '"'
  | '\\' => some '\\'
  | '/' => some '/'
  | 'b' => some '\x08'
  | 'f' => some '\x0c'
  | 'n' => some '\n'
  | 'r' => some '\r'
  | 't' => some '\t'
  | _ => none

/-- Reads a text literal behind its opening quote, as a row of numbers: the code points of its
characters, an escape of four digits giving the number it states. -/
def units? : List Char → Option (List Nat × List Char)
  | [] => none
  | '"' :: rest => some ([], rest)
  | '\\' :: 'u' :: a :: b :: c :: d :: rest => do
    let unit ← hexUnit? a b c d
    let (units, rest) ← units? rest
    return (unit :: units, rest)
  | '\\' :: c :: rest => do
    let c ← escaped? c
    let (units, rest) ← units? rest
    return (c.toNat :: units, rest)
  | c :: rest =>
    if c.toNat < 0x20 || c == '\\' then none
    else do
      let (units, rest) ← units? rest
      return (c.toNat :: units, rest)

/-- Whether a number is the first half of a surrogate pair. -/
def isHighSurrogate (unit : Nat) : Bool := 0xD800 ≤ unit && unit ≤ 0xDBFF

/-- Whether a number is the second half of a surrogate pair. -/
def isLowSurrogate (unit : Nat) : Bool := 0xDC00 ≤ unit && unit ≤ 0xDFFF

/-- The characters that a row of numbers stands for, unless half a surrogate pair is among them. -/
def characters? : List Nat → Option (List Char)
  | [] => some []
  | [unit] => if isHighSurrogate unit || isLowSurrogate unit then none else some [Char.ofNat unit]
  | first :: second :: rest =>
    if isHighSurrogate first then
      if isLowSurrogate second then
        (characters? rest).map
          (Char.ofNat (0x10000 + (first - 0xD800) * 0x400 + (second - 0xDC00)) :: ·)
      else none
    else if isLowSurrogate first then none
    else (characters? (second :: rest)).map (Char.ofNat first :: ·)

/-- Reads a text literal behind its opening quote. -/
def text? (cs : List Char) : Option (Option String × List Char) := do
  let (units, rest) ← units? cs
  return ((characters? units).map String.ofList, rest)

/-! ## Numbers -/

/-- Reads the digits before the point: a zero alone, or digits that do not begin with zero. -/
def wholePart? (cs : List Char) : Option (List Char × List Char) :=
  match cs.span Char.isDigit with
  | ([], _) => none
  | (['0'], rest) => some (['0'], rest)
  | ('0' :: _, _) => none
  | (digits, rest) => some (digits, rest)

/-- Reads a point and the digits behind it, if there is a point. -/
def fraction? : List Char → Option (List Char × List Char)
  | '.' :: rest =>
    match rest.span Char.isDigit with
    | ([], _) => none
    | (digits, rest) => some (digits, rest)
  | rest => some ([], rest)

/-- Reads a power of ten, if there is one. -/
def power? : List Char → Option (Option Int × List Char)
  | [] => some (none, [])
  | mark :: rest =>
    if mark == 'e' || mark == 'E' then
      let (negative, rest) := Decimal.signed rest
      match rest.span Char.isDigit with
      | ([], _) => none
      | (digits, rest) =>
        let power : Int := Decimal.natOfDigits digits
        some (some (if negative then -power else power), rest)
    else some (none, mark :: rest)

/-- Reads a number. Without a point and a power of ten it is a whole number, except that the
negative zero is a float. -/
def number? (cs : List Char) : Option (Wire × List Char) := do
  let (negative, cs) := match cs with
    | '-' :: cs => (true, cs)
    | cs => (false, cs)
  let (whole, cs) ← wholePart? cs
  let (behind, cs) ← fraction? cs
  let (power, rest) ← power? cs
  let size := Decimal.natOfDigits whole
  -- a whole number has no negative zero
  if behind.isEmpty && power.isNone && !(negative && size == 0) then
    return (.int (if negative then -size else size), rest)
  else
    let value := (Decimal.Numeral.ofParts negative whole behind (power.getD 0)).toFloat
    return (if value.isInf then .unreadable else .float value, rest)

/-! ## Values -/

mutual

/-- Reads a value. The fuel bounds how deep and how long it may be. -/
def value : (fuel : Nat) → List Char → Wire × Rest
  | 0, _ => (.malformed, none)
  | fuel + 1, cs =>
    match skipBlanks cs with
    | 'n' :: 'u' :: 'l' :: 'l' :: rest => (.null, some rest)
    | 't' :: 'r' :: 'u' :: 'e' :: rest => (.bool true, some rest)
    | 'f' :: 'a' :: 'l' :: 's' :: 'e' :: rest => (.bool false, some rest)
    | '"' :: rest =>
      match text? rest with
      | some (some word, rest) => (.text word, some rest)
      | some (none, rest) => (.unreadable, some rest)
      | none => (.malformed, none)
    | '[' :: rest =>
      match skipBlanks rest with
      | ']' :: rest => (.list [], some rest)
      | rest =>
        let (items, rest) := items fuel rest
        (.list items, rest)
    | '\x7b' :: rest =>
      match skipBlanks rest with
      | '\x7d' :: rest => (.record [], some rest)
      | rest =>
        let (entries, rest) := entries fuel rest
        (.record entries, rest)
    | cs =>
      match number? cs with
      | some (number, rest) => (number, some rest)
      | none => (.malformed, none)

/-- Reads the items of a list that is not empty, and its closing bracket. -/
def items : (fuel : Nat) → List Char → List Wire × Rest
  | 0, _ => ([.malformed], none)
  | fuel + 1, cs =>
    match value fuel cs with
    | (item, none) => ([item], none)
    | (item, some rest) =>
      match skipBlanks rest with
      | ',' :: rest =>
        let (others, rest) := items fuel rest
        (item :: others, rest)
      | ']' :: rest => ([item], some rest)
      | _ => ([item, .malformed], none)

/-- Reads the entries of a record that is not empty, and its closing brace. -/
def entries : (fuel : Nat) → List Char → List (Option String × Wire) × Rest
  | 0, _ => ([(none, .malformed)], none)
  | fuel + 1, cs =>
    match skipBlanks cs with
    | '"' :: rest =>
      match text? rest with
      | none => ([(none, .malformed)], none)
      | some (name, rest) =>
        match skipBlanks rest with
        | ':' :: rest =>
          match value fuel rest with
          | (content, none) => ([(name, content)], none)
          | (content, some rest) =>
            match skipBlanks rest with
            | ',' :: rest =>
              let (others, rest) := entries fuel rest
              ((name, content) :: others, rest)
            | '\x7d' :: rest => ([(name, content)], some rest)
            | _ => ([(name, content), (none, .malformed)], none)
        | _ => ([(name, .malformed)], none)
    | _ => ([(none, .malformed)], none)

end

/-- Reads the value a text begins with. Every two steps take at least one character. -/
def parse (text : String) : Wire × Rest :=
  let cs := text.toList
  value (2 * cs.length + 2) cs

/-- Reads a document as a value of some type. Behind the value only blanks may follow. -/
def decode {α : Type} (read : Wire → Decoded α) (text : String) : Decoded α := do
  let (wire, rest) := parse text
  let value ← read wire
  match rest.map skipBlanks with
  | some [] => return value
  | _ => .error .malformed

end TargetTiles.Wire.Document
