/-!
# Floats from decimal text

A decimal numeral stands for the float nearest to it, an exact half going to the even neighbour.
The free-standing form read here has an optional sign and is `inf`, `infinity` or `nan` in letters
of either case, or digits with an optional point and an optional power of ten.
-/

namespace TargetTiles.Decimal

/-- A decimal numeral: `digits * 10 ^ place`, with its sign. -/
structure Numeral where
  negative : Bool
  digits : Nat
  place : Int
deriving DecidableEq, Repr

/-- The float without a size. -/
def infinity : Float := 1.0 / 0.0

/-- The float nearest to `digits * 10 ^ place`. Sizes far beyond the floats are settled without
computing the power. -/
def nearestSize (digits : Nat) (place : Int) : Float :=
  if digits = 0 then 0.0
  else if 400 < place then infinity
  else if place + digits.log2 + 1 < -400 then 0.0
  else if place < 0 then Float.ofScientific digits true (-place).toNat
  else Float.ofScientific digits false place.toNat

/-- The float that a numeral stands for. -/
def Numeral.toFloat (numeral : Numeral) : Float :=
  let size := nearestSize numeral.digits numeral.place
  if numeral.negative then -size else size

/-- The number that a row of decimal digits stands for. -/
def natOfDigits (digits : List Char) : Nat :=
  digits.foldl (fun n digit => 10 * n + (digit.toNat - '0'.toNat)) 0

/-- The numeral with these digits before and behind the point and this power of ten. -/
def Numeral.ofParts (negative : Bool) (whole behind : List Char) (power : Int) : Numeral :=
  ⟨negative, natOfDigits (whole ++ behind), power - behind.length⟩

/-- Splits off a sign; without one the text is positive. -/
def signed : List Char → Bool × List Char
  | '-' :: rest => (true, rest)
  | '+' :: rest => (false, rest)
  | rest => (false, rest)

/-- Reads a power of ten that ends the text. -/
def power? : List Char → Option Int
  | [] => some 0
  | mark :: rest =>
    let (negative, digits) := signed rest
    if (mark == 'e' || mark == 'E') && !digits.isEmpty && digits.all Char.isDigit then
      some (if negative then -(natOfDigits digits : Int) else natOfDigits digits)
    else none

/-- Splits off the digits behind a point, if there is one. -/
def behindPoint : List Char → List Char × List Char
  | '.' :: rest => rest.span Char.isDigit
  | rest => ([], rest)

/-- Reads a float in its free-standing form. -/
def ofText? (text : String) : Option Float :=
  let (negative, body) := signed text.toList
  let word := String.ofList (body.map Char.toLower)
  if word = "nan" then some (0.0 / 0.0)
  else if word = "inf" ∨ word = "infinity" then
    some (if negative then -infinity else infinity)
  else
    let (whole, rest) := body.span Char.isDigit
    let (behind, rest) := behindPoint rest
    if whole.isEmpty && behind.isEmpty then none
    else (power? rest).map fun power => (Numeral.ofParts negative whole behind power).toFloat

end TargetTiles.Decimal
