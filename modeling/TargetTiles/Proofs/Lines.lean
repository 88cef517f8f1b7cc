import Mathlib.Data.List.Forall2
import Std.Data.String.ToInt
import TargetTiles.Token

/-!
# Lines of tokens are read back

A line of tokens tells the tokens apart again. No token is written with a blank in it, so a line is
cut at its spaces into what the tokens are written as. An operator is read from its own symbol and
from no number: every number has a digit in it, even one whose sign looks like an operator. So two
lines are the same only if their tokens show the same, one after the other.
-/

namespace TargetTiles

/-- The decimal digits of a whole number, behind a sign if it is below zero. -/
def Decimal.ofWhole (value : Int64) : List Char :=
  (if value < 0 then ['-'] else []) ++ Nat.toDigits 10 value.toInt.natAbs

/-! ## Blanks -/

namespace Text

theorem isBlank_of_isDigit {c : Char} (h : c.isDigit = true) : isBlank c = false := by
  rw [Char.isDigit_iff_toNat] at h
  obtain ⟨hlow, hhigh⟩ := h
  simp [isBlank, blankRanges] at hlow hhigh ⊢
  omega

theorem dropWhile_isBlank {cs : List Char} (h : ∀ c ∈ cs, isBlank c = false) :
    cs.dropWhile isBlank = cs := by
  cases cs with
  | nil => rfl
  | cons c rest => simp [h c List.mem_cons_self]

theorem trim_of_not_blank {text : String} (h : ∀ c ∈ text.toList, isBlank c = false) :
    trim text = text := by
  have hback : ∀ c ∈ text.toList.reverse, isBlank c = false := by
    intro c hc
    exact h c (List.mem_reverse.mp hc)
  rw [trim, trimmed, dropWhile_isBlank h, dropWhile_isBlank hback, List.reverse_reverse,
    String.ofList_toList]

end Text

namespace Token

/-! ## One token -/

theorem toList_text_tile (t : Tile) : (text (.tile t)).toList = Decimal.ofWhole t.value := by
  have hneg : t.value < 0 ↔ t.value.toInt < 0 := Int64.lt_iff_toInt_lt
  rw [text, Int.toString_eq_repr, Int.repr_eq_if, Decimal.ofWhole]
  by_cases h : t.value.toInt < 0
  · have habs : (-t.value.toInt).toNat = t.value.toInt.natAbs := by omega
    rw [if_neg (Int.not_le.mpr h), if_pos (hneg.mpr h), habs, String.toList_append,
      Nat.toList_repr]
    rfl
  · have habs : t.value.toInt.toNat = t.value.toInt.natAbs := by omega
    rw [if_pos (Int.not_lt.mp h), if_neg (fun hv => h (hneg.mp hv)), habs, Nat.toList_repr]
    rfl

theorem exists_digit_mem_text_tile (t : Tile) :
    ∃ c ∈ (text (.tile t)).toList, c.isDigit = true := by
  have hne : Nat.toDigits 10 t.value.toInt.natAbs ≠ [] := Nat.toDigits_ne_nil
  obtain ⟨c, hc⟩ := List.exists_mem_of_ne_nil _ hne
  rw [toList_text_tile]
  exact ⟨c, List.mem_append_right _ hc, Nat.isDigit_of_mem_toDigits (by decide) (by decide) hc⟩

theorem isBlank_of_mem_text {token : Token} {c : Char} (h : c ∈ token.text.toList) :
    Text.isBlank c = false := by
  cases token with
  | operator op =>
    cases op <;> (obtain rfl := List.mem_singleton.mp h; decide)
  | tile t =>
    rw [toList_text_tile, Decimal.ofWhole, List.mem_append] at h
    rcases h with h | h
    · split at h
      · obtain rfl := List.mem_singleton.mp h
        decide
      · cases h
    · exact Text.isBlank_of_isDigit (Nat.isDigit_of_mem_toDigits (by decide) (by decide) h)

theorem text_ne_empty (token : Token) : token.text ≠ "" := by
  cases token with
  | operator op => cases op <;> decide
  | tile t =>
    intro h
    obtain ⟨c, hc, -⟩ := exists_digit_mem_text_tile t
    rw [h] at hc
    cases hc

theorem parse_text_operator (op : Operator) : Operator.parse (text (.operator op)) = .ok op := by
  cases op <;> decide

theorem not_isDigit_of_mem_spellings {op : Operator} {spelling : String} {c : Char}
    (h : spelling ∈ op.spellings) (hc : c ∈ spelling.toList) : c.isDigit = false := by
  have hnone : op.spellings.all (·.toList.all (!·.isDigit)) = true := by cases op <;> rfl
  have hnot := List.all_eq_true.mp (List.all_eq_true.mp hnone spelling h) c hc
  simpa using hnot

/-- A number is no operator, and the refusal shows it as it is written. -/
theorem parse_text_tile (t : Tile) :
    Operator.parse (text (.tile t)) = .error (.unrecognised (text (.tile t))) := by
  have hnone : Operator.all.find? (·.spellings.contains (text (.tile t))) = none := by
    rw [List.find?_eq_none]
    intro op _ hmem
    obtain ⟨c, hc, hdigit⟩ := exists_digit_mem_text_tile t
    rw [not_isDigit_of_mem_spellings (List.contains_iff_mem.mp hmem) hc] at hdigit
    cases hdigit
  rw [Operator.parse, Text.trim_of_not_blank fun _ => isBlank_of_mem_text]
  simp only [hnone]

theorem parse_text_eq_ok_iff {token : Token} {op : Operator} :
    Operator.parse token.text = .ok op ↔ token = .operator op := by
  cases token with
  | operator other =>
    rw [parse_text_operator]
    simp
  | tile t =>
    rw [parse_text_tile]
    simp

/-- The digits of a tile are read as its value. -/
theorem toInt?_text_tile (t : Tile) : (text (.tile t)).toInt? = some t.value.toInt := by
  rw [text, Int.toString_eq_repr, Int.toInt?_repr]

/-! ## Tokens that show the same -/

/-- Two tokens show the same: tiles of one value, whatever their slots, or one operator. -/
inductive Alike : Token → Token → Prop
  | tile {t t' : Tile} (h : t.value = t'.value) : Alike (.tile t) (.tile t')
  | operator (op : Operator) : Alike (.operator op) (.operator op)

theorem text_eq_text_iff {token token' : Token} :
    token.text = token'.text ↔ token.Alike token' := by
  constructor
  · intro h
    cases token with
    | operator op =>
      have hread : Operator.parse token'.text = .ok op := h ▸ parse_text_operator op
      rw [parse_text_eq_ok_iff.mp hread]
      exact .operator op
    | tile t =>
      cases token' with
      | operator op =>
        -- one text would read as an operator and be refused
        have hop := parse_text_operator op
        rw [← h, parse_text_tile] at hop
        cases hop
      | tile t' =>
        have hvalue := toInt?_text_tile t
        rw [h, toInt?_text_tile] at hvalue
        exact .tile (Int64.toInt_inj.mp (Option.some.inj hvalue).symm)
  · intro h
    cases h with
    | tile h => rw [text, text, h]
    | operator op => rfl

/-! ## Lines -/

/-- The pieces of a text between its spaces. -/
def pieces (line : String) : List String := (line.split ' ').toList.map (·.copy)

theorem pieces_line (tokens : List Token) :
    pieces (line tokens) = if tokens = [] then [""] else tokens.map text := by
  have hspace : ∀ piece ∈ tokens.map text, ' ' ∉ piece.toList := by
    intro piece hp hc
    obtain ⟨token, -, rfl⟩ := List.mem_map.mp hp
    have hblank := isBlank_of_mem_text hc
    exact absurd hblank (by decide)
  have hsplit := String.toList_split_intercalate hspace
  by_cases h : tokens = []
  · subst h
    exact hsplit
  · rw [if_neg (List.map_eq_nil_iff.not.mpr h)] at hsplit
    rw [if_neg h]
    exact hsplit

theorem pieces_line_of_ne_nil {tokens : List Token} (h : tokens ≠ []) :
    pieces (line tokens) = tokens.map text := by
  rw [pieces_line, if_neg h]

theorem line_eq_empty_iff (tokens : List Token) : line tokens = "" ↔ tokens = [] := by
  constructor
  · intro hline
    by_contra h
    -- the empty text is one empty piece, and no token is written as an empty text
    have hpieces : tokens.map text = [""] := by
      rw [← pieces_line_of_ne_nil h, hline]
      exact pieces_line []
    have hempty : "" ∈ tokens.map text := hpieces ▸ List.mem_singleton_self ""
    obtain ⟨token, -, htext⟩ := List.mem_map.mp hempty
    exact text_ne_empty token htext
  · rintro rfl
    rfl

theorem line_eq_line_iff_map_text {tokens tokens' : List Token} :
    line tokens = line tokens' ↔ tokens.map text = tokens'.map text := by
  constructor
  · intro hline
    by_cases h : tokens = []
    · have h' := (line_eq_empty_iff tokens').mp (hline ▸ (line_eq_empty_iff tokens).mpr h)
      rw [h, h']
    · have h' : tokens' ≠ [] := by
        intro h'
        exact h ((line_eq_empty_iff tokens).mp (hline ▸ (line_eq_empty_iff tokens').mpr h'))
      rw [← pieces_line_of_ne_nil h, ← pieces_line_of_ne_nil h', hline]
  · intro htexts
    rw [line, line, htexts]

theorem line_eq_line_iff {tokens tokens' : List Token} :
    line tokens = line tokens' ↔ List.Forall₂ Alike tokens tokens' := by
  -- equality of lists, taken place by place and back from the texts to the tokens
  rw [line_eq_line_iff_map_text, ← List.forall₂_eq_eq_eq, List.forall₂_map_left_iff,
    List.forall₂_map_right_iff]
  simp only [text_eq_text_iff]

/-- A line tells its tokens apart, up to the slots of the tiles. Cut at its spaces it gives one
piece for each token; the pieces that read as an operator are those of operators, each read as the
one that was written, and the others are the decimal digits of the tiles. Only the line of no token
is empty. -/
theorem line_tells_tokens :
    (∀ tokens tokens' : List Token,
      line tokens = line tokens' ↔ List.Forall₂ Alike tokens tokens') ∧
    (∀ tokens : List Token, tokens ≠ [] → pieces (line tokens) = tokens.map text) ∧
    (∀ (token : Token) (op : Operator),
      Operator.parse token.text = .ok op ↔ token = .operator op) ∧
    (∀ t : Tile, (text (.tile t)).toList = Decimal.ofWhole t.value ∧
      (text (.tile t)).toInt? = some t.value.toInt) ∧
    (∀ tokens : List Token, line tokens = "" ↔ tokens = []) := by
  refine ⟨?alike, ?pieces, ?operator, ?tile, line_eq_empty_iff⟩
  case alike => exact fun _ _ => line_eq_line_iff
  case pieces => exact fun _ => pieces_line_of_ne_nil
  case operator => exact fun _ _ => parse_text_eq_ok_iff
  case tile => exact fun t => ⟨toList_text_tile t, toInt?_text_tile t⟩

/-- A tile of `-7` beside the operator whose symbol is its sign. -/
theorem line_tells_tokens_minus :
    pieces (line [.tile ⟨⟨0⟩, 100⟩, .tile ⟨⟨1⟩, -7⟩, .operator .subtract]) = ["100", "-7", "-"] ∧
      Operator.parse "-" = .ok .subtract ∧ Operator.parse "-7" ≠ .ok .subtract := by
  obtain ⟨-, hpieces, hparse, -, -⟩ := line_tells_tokens
  refine ⟨?_, (hparse (.operator .subtract) .subtract).mpr rfl, fun h => ?_⟩
  · have h := hpieces [.tile ⟨⟨0⟩, 100⟩, .tile ⟨⟨1⟩, -7⟩, .operator .subtract] (by decide)
    have htexts : [Token.tile ⟨⟨0⟩, 100⟩, .tile ⟨⟨1⟩, -7⟩, .operator .subtract].map text =
        ["100", "-7", "-"] := by decide
    rw [h, htexts]
  · cases (hparse (.tile ⟨⟨1⟩, -7⟩) .subtract).mp h

end Token

end TargetTiles
