import Mathlib.Algebra.Group.Nat.Defs
import TargetTiles.Rng.Basic

/-!
# What can be drawn

The bounds of what a random source gives: a fair choice lies below its range, a number lies
between its bounds, and a shuffle holds the same items as before. None of this looks at the word
stream, so it is true of every source in every state.
-/

namespace TargetTiles

/-! ## Choices below a range -/

theorem Fair.eq_of_choose? {bits range word choice : Nat}
    (h : Fair.choose? bits range word = some choice) : choice = word * range / 2 ^ bits := by
  rw [Fair.choose?, Nat.shiftRight_eq_div_pow] at h
  split at h
  · cases h
    rfl
  · cases h

theorem Fair.choose?_lt {bits range word choice : Nat} (hr : 0 < range) (hw : word < 2 ^ bits)
    (h : Fair.choose? bits range word = some choice) : choice < range := by
  rw [Fair.eq_of_choose? h]
  exact Nat.div_lt_of_lt_mul (Nat.mul_lt_mul_of_pos_right hw hr)

namespace Rng

theorem word32_lt (rng : Rng) : rng.word32.1 < 2 ^ 32 := UInt32.toNat_lt _

theorem word64_lt (rng : Rng) : rng.word64.1 < 2 ^ 64 := by
  have hl := rng.word32_lt
  have hh := rng.word32.2.word32_lt
  simp only [word64]
  omega

theorem firstFair_lt {next : Rng → Nat × Rng} {bits range : Nat} (hr : 0 < range)
    (hw : ∀ rng, (next rng).1 < 2 ^ bits) (tries : Nat) (rng : Rng) :
    (firstFair next bits range tries rng).1 < range := by
  induction tries generalizing rng with
  | zero => exact hr
  | succ tries ih =>
    simp only [firstFair]
    cases hc : Fair.choose? bits range (next rng).1 with
    | none => exact ih _
    | some choice => exact Fair.choose?_lt hr (hw rng) hc

/-! ## Numbers between bounds -/

/-- How many numbers there are from `low` to `high`, both included. -/
def span (low high : Int64) : Nat := (high.toInt - low.toInt + 1).toNat

variable {low high : Int64}

theorem span_pos (h : low ≤ high) : 0 < span low high := by
  have hle := Int64.le_iff_toInt_le.mp h
  rw [span]
  omega

/-- Adding to the low bound less than the size of the range does not overflow. -/
theorem toInt_offset {offset : Nat} (h : offset < span low high) :
    (Int64.ofInt (low.toInt + offset)).toInt = low.toInt + offset := by
  have hlow := low.le_toInt
  have hhigh := high.toInt_lt
  rw [span] at h
  exact Int64.toInt_ofInt_of_le (by omega) (by omega)

/-- A number that exceeds the low bound by less than the size of the range is within bounds. -/
theorem offset_within {offset : Nat} (h : offset < span low high) :
    low ≤ Int64.ofInt (low.toInt + offset) ∧ Int64.ofInt (low.toInt + offset) ≤ high := by
  simp only [Int64.le_iff_toInt_le, toInt_offset h]
  rw [span] at h
  omega

/-- Where the range is all of the 64-bit numbers, its bounds are the extreme ones. -/
theorem within_of_full_span (h : span low high = 2 ^ 64) (number : Int64) :
    low ≤ number ∧ number ≤ high := by
  have hlow := low.le_toInt
  have hhigh := high.toInt_lt
  have hn := number.le_toInt
  have hn' := number.toInt_lt
  rw [span] at h
  simp only [Int64.le_iff_toInt_le]
  omega

/-- A draw between bounds in order takes a word as it is, or an offset from the low bound. -/
theorem between_of_le (h : low ≤ high) (rng : Rng) : rng.between low high =
    if span low high = 2 ^ 64 then .ok (.ofNat rng.word64.1, rng.word64.2)
    else
      let drawn := firstFair word64 64 (span low high) (1 <<< 67) rng
      .ok (.ofInt (low.toInt + drawn.1), drawn.2) := by
  have hle := Int64.le_iff_toInt_le.mp h
  rw [between, if_neg (by rw [Int64.lt_iff_toInt_lt]; omega), ← span, Nat.one_shiftLeft]

theorem between_within (h : low ≤ high) (rng : Rng) :
    ∃ number next, rng.between low high = .ok (number, next) ∧ low ≤ number ∧ number ≤ high := by
  rw [between_of_le h]
  split
  · next hfull => exact ⟨_, _, rfl, within_of_full_span hfull _⟩
  · have hoffset := firstFair_lt (span_pos h) word64_lt (1 <<< 67) rng
    exact ⟨_, _, rfl, offset_within hoffset⟩

/-! ## Shuffles -/

/-- The swap of the last place is drawn first, and the others from the source that this leaves. -/
theorem swaps_succ (rng : Rng) (last : Nat) : rng.swaps (last + 1) =
    ((rng.index (last + 2)).1 :: ((rng.index (last + 2)).2.swaps last).1,
      ((rng.index (last + 2)).2.swaps last).2) := by
  -- the draw gets a name before it is taken apart: unfolding it would run through its tries
  obtain ⟨⟨partner, next⟩, hdraw⟩ : ∃ drawn, rng.index (last + 2) = drawn := ⟨_, rfl⟩
  rw [swaps, hdraw]

variable {α : Type}

theorem swapIfInBounds_perm (items : Array α) (i j : Nat) :
    (items.swapIfInBounds i j).Perm items := by
  rw [Array.swapIfInBounds_def]
  split
  · split
    · exact Array.swap_perm _ _
    · exact .rfl
  · exact .rfl

theorem permute_perm (last : Nat) (partners : List Nat) (items : Array α) :
    (permute last partners items).Perm items := by
  induction last generalizing partners items with
  | zero => exact .rfl
  | succ last ih =>
    cases partners with
    | nil => exact .rfl
    | cons partner partners => exact (ih partners _).trans (swapIfInBounds_perm items _ _)

theorem shuffle_perm (rng : Rng) (items : List α) : (rng.shuffle items).1.Perm items :=
  (permute_perm _ _ items.toArray).toList

end Rng

end TargetTiles
