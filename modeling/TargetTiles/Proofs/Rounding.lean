import TargetTiles.Proofs.Floats

/-!
# Rounding

A result of the arithmetic of floats that is too long is rounded to the nearest multiple of the last
digit there is room for, and to the even one of two that are equally near. The digits go one at a
time, and of what has gone two bits are kept, which are enough to tell on which side of the middle
it was. No float is nearer to the result than the one it is rounded to, and nothing but zero is
rounded to zero. So two floats have the difference zero if and only if they are one number.
-/

namespace TargetTiles.Binary

open Float.Model Float.Model.UnpackedFloat

variable {s : Sign} {m n r k : ℕ} {e t : ℤ} {u v : UnpackedFloat} {x y : Float} {step p q : ℚ}

/-! ## The nearest multiple -/

/-- So many steps are as near to the number as steps can be, and it is an even number of them if one
more or less would do as well. -/
structure NearestMultiple (step q : ℚ) (r : ℕ) : Prop where
  near : |r * step - q| ≤ step / 2
  even : |r * step - q| = step / 2 → Even r

namespace NearestMultiple

theorem of_nat {step : ℕ} (below : 2 * (r * step) ≤ 2 * n + step)
    (above : 2 * n ≤ 2 * (r * step) + step)
    (even : 2 * (r * step) = 2 * n + step ∨ 2 * n = 2 * (r * step) + step → Even r) :
    NearestMultiple step n r := by
  have hbelow : (2 : ℚ) * (r * step) ≤ 2 * n + step := by exact_mod_cast below
  have habove : (2 : ℚ) * n ≤ 2 * (r * step) + step := by exact_mod_cast above
  constructor
  · rw [abs_le]
    constructor <;> linarith
  · intro h
    refine even ?_
    rcases eq_or_eq_neg_of_abs_eq h with h | h
    · have hmiddle : (2 : ℚ) * (r * step) = 2 * n + step := by linarith
      exact .inl (by exact_mod_cast hmiddle)
    · have hmiddle : (2 : ℚ) * n = 2 * (r * step) + step := by linarith
      exact .inr (by exact_mod_cast hmiddle)

theorem scale (h : NearestMultiple step q r) {c : ℚ} (hc : 0 < c) :
    NearestMultiple (step * c) (q * c) r := by
  have hdistance : |r * (step * c) - q * c| = |r * step - q| * c := by
    rw [← mul_assoc, ← sub_mul, abs_mul, abs_of_pos hc]
  constructor
  · rw [hdistance, mul_div_right_comm]
    exact mul_le_mul_of_nonneg_right h.near hc.le
  · rw [hdistance, mul_div_right_comm, mul_left_inj' hc.ne']
    exact h.even

theorem le_multiple (h : NearestMultiple step q r) (hstep : 0 < step) (z : ℤ) :
    |r * step - q| ≤ |z * step - q| := by
  rcases eq_or_ne z r with rfl | hne
  · rfl
  · -- the other multiples are a whole step away
    have hone : (1 : ℚ) ≤ |(z : ℚ) - r| := by
      exact_mod_cast Int.one_le_abs (sub_ne_zero.mpr hne)
    have hapart : step ≤ |z * step - r * step| := by
      rw [← sub_mul, abs_mul, abs_of_pos hstep]
      exact le_mul_of_one_le_left hstep.le hone
    have htriangle := abs_sub_le (z * step) q (r * step)
    rw [abs_sub_comm q] at htriangle
    linarith [h.near]

end NearestMultiple

/-! ## Digits that go -/

/-- What is kept of `n` after its last `k` binary digits have gone: whether they made half a step or
more, and whether anything else but the half of a step. -/
structure Keeps (n k : ℕ) (shifted : ExtendedMantissa) : Prop where
  mantissa : shifted.mantissa = n / 2 ^ k
  half : shifted.roundBit = true ↔ 2 ^ k ≤ 2 * (n % 2 ^ k)
  other : shifted.stickyBit = true ↔ n % 2 ^ k ≠ 0 ∧ 2 * (n % 2 ^ k) ≠ 2 ^ k

theorem Keeps.shiftRightOne {shifted : ExtendedMantissa} (h : Keeps n k shifted) :
    Keeps n (k + 1) shifted.shiftRightOne := by
  have hrest : n % 2 ^ k < 2 ^ k := Nat.mod_lt _ (Nat.two_pow_pos k)
  have hmod : n % 2 ^ (k + 1) = n % 2 ^ k + 2 ^ k * (n / 2 ^ k % 2) := by rw [pow_succ, Nat.mod_mul]
  have hpow : 2 ^ (k + 1) = 2 * 2 ^ k := pow_succ' 2 k
  have hdigit : n / 2 ^ k % 2 = 0 ∨ n / 2 ^ k % 2 = 1 := Nat.mod_two_eq_zero_or_one _
  constructor
  · rw [ExtendedMantissa.shiftRightOne, h.mantissa, Nat.div_div_eq_div_mul, pow_succ]
  · simp only [ExtendedMantissa.shiftRightOne, h.mantissa, bne_iff_ne]
    rcases hdigit with hd | hd <;> rw [hd] at hmod ⊢ <;> omega
  · simp only [ExtendedMantissa.shiftRightOne, Bool.or_eq_true, h.half, h.other]
    rcases hdigit with hd | hd <;> rw [hd] at hmod <;> omega

theorem keeps (n k : ℕ) : Keeps n k (ExtendedMantissa.ofMantissaAndAccuracy n .exact >>> k) := by
  change Keeps n k (k.repeat ExtendedMantissa.shiftRightOne _)
  induction k with
  | zero => constructor <;> simp [Nat.repeat, ExtendedMantissa.ofMantissaAndAccuracy, Nat.mod_one]
  | succ k ih => exact ih.shiftRightOne

theorem Keeps.nearest {shifted : ExtendedMantissa} (h : Keeps n k shifted) :
    NearestMultiple (2 ^ k) n shifted.roundedMantissa := by
  obtain ⟨mantissa, half, other⟩ := shifted
  obtain ⟨hmantissa, hhalf, hother⟩ := h
  simp only at hmantissa hhalf hother
  have hrest : n % 2 ^ k < 2 ^ k := Nat.mod_lt _ (Nat.two_pow_pos k)
  have hn : mantissa * 2 ^ k + n % 2 ^ k = n := by rw [hmantissa, mul_comm, Nat.div_add_mod]
  have hnext : (mantissa + 1) * 2 ^ k = mantissa * 2 ^ k + 2 ^ k := Nat.succ_mul _ _
  have hcast : (2 : ℚ) ^ k = (2 ^ k : ℕ) := by push_cast; rfl
  rw [hcast]
  generalize 2 ^ k = step at *
  match half, other with
  | false, other =>
    -- less than half a step has gone
    have hr : (ExtendedMantissa.mk mantissa false other).roundedMantissa = mantissa := by
      cases other <;> rfl
    have hless : ¬step ≤ 2 * (n % step) := by simpa using hhalf
    rw [hr]
    exact .of_nat (by omega) (by omega) (by omega)
  | true, true =>
    have hr : (ExtendedMantissa.mk mantissa true true).roundedMantissa = mantissa + 1 := rfl
    have hmore := hhalf.mp rfl
    have hne := hother.mp rfl
    rw [hr]
    exact .of_nat (by omega) (by omega) (by omega)
  | true, false =>
    -- just half a step has gone, and the even neighbour is taken
    have hr : (ExtendedMantissa.mk mantissa true false).roundedMantissa =
        mantissa + mantissa % 2 := rfl
    have hmore := hhalf.mp rfl
    have hmiddle : 2 * (n % step) = step := by
      by_contra hne
      exact Bool.false_ne_true (hother.mpr ⟨by omega, hne⟩)
    rw [hr]
    rcases Nat.mod_two_eq_zero_or_one mantissa with heven | hodd
    · rw [heven, Nat.add_zero]
      exact .of_nat (by omega) (by omega) fun _ => Nat.even_iff.mpr heven
    · rw [hodd]
      exact .of_nat (by omega) (by omega) fun _ => Nat.even_iff.mpr (by omega)

theorem mantissa_le_roundedMantissa (em : ExtendedMantissa) :
    em.mantissa ≤ em.roundedMantissa ∧ em.roundedMantissa ≤ em.mantissa + 1 := by
  obtain ⟨mantissa, half, other⟩ := em
  have hmod := Nat.mod_lt mantissa two_pos
  cases half <;> cases other <;>
    simp only [ExtendedMantissa.roundedMantissa, ExtendedMantissa.accuracy,
      Accuracy.roundToNearestEven] <;> omega

/-! ## The form of a float -/

/-- The exponent of the last digit that there is room for in a float of the size of `m * 2 ^ e`. -/
def grid (m : ℕ) (e : ℤ) : ℤ := max (m.log2 + e - 52) (-1074)

theorem targetExponent_eq (m : ℕ) (e : ℤ) :
    Format.binary64.targetExponent (totalExponent m e) = grid m e := by
  rw [Format.targetExponent, totalExponent, grid]
  congr 1
  change (m.log2 + 1 + e - 53 : ℤ) = m.log2 + e - 52
  omega

theorem shiftToTargetExponent_eq (m : ℕ) (e : ℤ) :
    shiftToTargetExponent Format.binary64 m e .exact =
      (ExtendedMantissa.ofMantissaAndAccuracy m .exact >>> (grid m e - e).toNat,
        e + (grid m e - e).toNat) := by
  rw [shiftToTargetExponent, targetExponent_eq]
  rfl

theorem log2_shiftLeft (hpos : 0 < m) (k : ℕ) : (m <<< k).log2 = m.log2 + k := by
  rw [Nat.shiftLeft_eq, Nat.log2_eq_iff (by positivity)]
  constructor
  · rw [pow_add]
    exact Nat.mul_le_mul_right _ (Nat.log2_self_le hpos.ne')
  · rw [add_right_comm, pow_add]
    exact (Nat.mul_lt_mul_right (Nat.two_pow_pos k)).mpr Nat.lt_log2_self

theorem grid_shiftLeft (hpos : 0 < m) (k : ℕ) (e : ℤ) : grid (m <<< k) (e - k) = grid m e := by
  rw [grid, grid, log2_shiftLeft hpos]
  congr 1
  push_cast
  ring

theorem shiftLeft_mul_zpow (m k : ℕ) (e : ℤ) : ((m <<< k : ℕ) : ℚ) * 2 ^ (e - k) = m * 2 ^ e := by
  rw [Nat.shiftLeft_eq, Nat.cast_mul, Nat.cast_pow, Nat.cast_ofNat, mul_assoc, ← zpow_natCast,
    ← zpow_add₀ two_ne_zero, add_sub_cancel]

theorem signed_shiftLeft (s : Sign) (m k : ℕ) (e : ℤ) :
    signed s (m <<< k) (e - k) = signed s m e := by
  cases s with
  | positive => exact shiftLeft_mul_zpow m k e
  | negative => rw [signed_negative, signed_negative, shiftLeft_mul_zpow]

/-- The float with a significand that has just been rounded. If this has made it longer than there
is room for, the last digit is a zero, and goes. -/
def settle (s : Sign) (r : ℕ) (t : ℤ) : UnpackedFloat :=
  let (em, e) := shiftToTargetExponent Format.binary64 r t .exact
  if h : em.mantissa = 0 then .zero s else .finite s em.mantissa e (Nat.pos_of_ne_zero h)

theorem settle_of_short (s : Sign) (hlt : r < 2 ^ 53) (habove : -1074 ≤ t)
    (hfull : 2 ^ 52 ≤ r ∨ t = -1074) :
    Canonical (settle s r t) ∧ value? (settle s r t) = some (signed s r t) := by
  have hgrid : grid r t - t ≤ 0 := by
    rcases Nat.eq_zero_or_pos r with rfl | hpos
    · rw [grid, Nat.log2_zero]
      omega
    · have hlog : r.log2 < 53 := (Nat.log2_lt hpos.ne').mpr hlt
      rw [grid]
      omega
  have hshift : shiftToTargetExponent Format.binary64 r t .exact = (⟨r, false, false⟩, t) := by
    rw [shiftToTargetExponent_eq, Int.toNat_of_nonpos hgrid, Nat.cast_zero, add_zero]
    rfl
  rw [settle, hshift]
  rcases Nat.eq_zero_or_pos r with rfl | hpos
  · exact ⟨.zero s, congrArg some (signed_eq_zero_iff.mpr rfl).symm⟩
  · simp only [dif_neg hpos.ne']
    exact ⟨.finite s hpos ⟨hlt, habove, hfull⟩, rfl⟩

/-- One digit too many is there only if rounding has carried to the front. -/
theorem settle_of_carry (s : Sign) (habove : -1074 ≤ t) :
    Canonical (settle s (2 ^ 53) t) ∧ value? (settle s (2 ^ 53) t) = some (signed s (2 ^ 53) t) := by
  have hgrid : grid (2 ^ 53) t - t = 1 := by
    rw [grid, Nat.log2_two_pow]
    omega
  have hshift : shiftToTargetExponent Format.binary64 (2 ^ 53) t .exact =
      (⟨2 ^ 52, false, false⟩, t + 1) := by
    rw [shiftToTargetExponent_eq, hgrid]
    rfl
  have hsigned := signed_shiftLeft s (2 ^ 52) 1 (t + 1)
  rw [Nat.cast_one, add_sub_cancel_right] at hsigned
  rw [settle, hshift]
  exact ⟨.finite s (Nat.two_pow_pos 52) ⟨by decide, by omega, .inl le_rfl⟩,
    congrArg some hsigned.symm⟩

theorem settle_spec (s : Sign) (hle : r ≤ 2 ^ 53) (habove : -1074 ≤ t)
    (hfull : 2 ^ 52 ≤ r ∨ t = -1074) :
    Canonical (settle s r t) ∧ value? (settle s r t) = some (signed s r t) := by
  rcases hle.lt_or_eq with hlt | rfl
  · exact settle_of_short s hlt habove hfull
  · exact settle_of_carry s habove

/-! ## The nearest float -/

/-- The unpacked float is the number `m * 2 ^ e` with the sign, rounded to the digits that there is
room for. -/
structure Rounds (s : Sign) (m : ℕ) (e : ℤ) (u : UnpackedFloat) : Prop where
  canonical : Canonical u
  exists_nearest : ∃ r : ℕ, NearestMultiple (2 ^ grid m e) (m * 2 ^ e) r ∧
    value? u = some (signed s r (grid m e))

theorem rounds_roundWithAccuracy (s : Sign) (hpos : 0 < m) (he : e ≤ grid m e) :
    Rounds s m e (roundWithAccuracy Format.binary64 s m e .exact) := by
  obtain ⟨k, hk⟩ : ∃ k : ℕ, grid m e = e + k := ⟨(grid m e - e).toNat, by omega⟩
  have hround : roundWithAccuracy Format.binary64 s m e .exact =
      settle s (ExtendedMantissa.ofMantissaAndAccuracy m .exact >>> k).roundedMantissa (e + k) := by
    have hshift : (grid m e - e).toNat = k := by omega
    rw [← hshift, roundWithAccuracy, shiftToTargetExponent_eq]
    rfl
  have hkeeps := keeps m k
  obtain ⟨hdown, hup⟩ :=
    mantissa_le_roundedMantissa (ExtendedMantissa.ofMantissaAndAccuracy m .exact >>> k)
  have hgrid : (m.log2 : ℤ) - 52 ≤ k ∧ (m.log2 - 52 = (k : ℤ) ∨ grid m e = -1074) := by
    rw [grid] at hk ⊢
    omega
  have hshort : m / 2 ^ k < 2 ^ 53 := by
    rw [Nat.div_lt_iff_lt_mul (Nat.two_pow_pos k), ← pow_add]
    exact Nat.lt_log2_self.trans_le (Nat.pow_le_pow_right two_pos (by omega))
  have hfull : 2 ^ 52 ≤ m / 2 ^ k ∨ grid m e = -1074 := by
    refine hgrid.2.imp_left fun hlog => ?_
    rw [Nat.le_div_iff_mul_le (Nat.two_pow_pos k), ← pow_add, show 52 + k = m.log2 by omega]
    exact Nat.log2_self_le hpos.ne'
  rw [hkeeps.mantissa] at hdown hup
  have hnear := hkeeps.nearest.scale (zpow_pos (two_pos : (0 : ℚ) < 2) e)
  rw [← zpow_natCast, ← zpow_add₀ two_ne_zero, add_comm (k : ℤ), ← hk] at hnear
  have hsettle := settle_spec s (t := e + k) (hup.trans hshort) (hk ▸ le_max_right _ _)
    (hk ▸ hfull.imp_left hdown.trans')
  rw [← hround, ← hk] at hsettle
  exact ⟨hsettle.1, _, hnear, hsettle.2⟩

/-- Rounding does not depend on how many zeros the number is written with. -/
theorem Rounds.of_shiftLeft (hpos : 0 < m) (h : Rounds s (m <<< k) (e - k) u) : Rounds s m e u := by
  obtain ⟨hcanonical, r, hnear, hvalue⟩ := h
  rw [grid_shiftLeft hpos, shiftLeft_mul_zpow] at hnear
  rw [grid_shiftLeft hpos] at hvalue
  exact ⟨hcanonical, r, hnear, hvalue⟩

theorem rounds_shiftLeft (s : Sign) (hpos : 0 < m) (he : e - k ≤ grid m e) :
    Rounds s m e (roundWithAccuracy Format.binary64 s (m <<< k) (e - k) .exact) := by
  refine .of_shiftLeft hpos (rounds_roundWithAccuracy s ?_ ?_)
  · rw [Nat.shiftLeft_eq]
    positivity
  · rwa [grid_shiftLeft hpos]

theorem rounds_round (s : Sign) (hpos : 0 < m) (e : ℤ) :
    Rounds s m e (round Format.binary64 s m e) := by
  obtain ⟨k, hk⟩ : ∃ k : ℕ, (e - grid m e).toNat = k := ⟨_, rfl⟩
  have hround : round Format.binary64 s m e =
      roundWithAccuracy Format.binary64 s (m <<< k) (e - k) .exact := by
    rw [← hk, UnpackedFloat.round, targetExponent_eq]
    rfl
  rw [hround]
  exact rounds_shiftLeft s hpos (by omega)

theorem two_pow_log2_mul_le (hpos : 0 < m) (e : ℤ) : (2 : ℚ) ^ (m.log2 + e) ≤ m * 2 ^ e := by
  have hlog : (2 : ℚ) ^ m.log2 ≤ m := by exact_mod_cast Nat.log2_self_le hpos.ne'
  rw [zpow_add₀ two_ne_zero, zpow_natCast]
  gcongr

/-- Nothing but zero is rounded to zero. -/
theorem Rounds.value?_ne_zero (h : Rounds s m e u) (hpos : 0 < m) (he : -1074 ≤ e) :
    value? u ≠ some 0 := by
  obtain ⟨-, r, hnear, hvalue⟩ := h
  have hstep : (0 : ℚ) < 2 ^ grid m e := zpow_pos two_pos _
  have hgrid : (2 : ℚ) ^ grid m e ≤ m * 2 ^ e := by
    refine le_trans (zpow_le_zpow_right₀ one_le_two ?_) (two_pow_log2_mul_le hpos e)
    rw [grid]
    omega
  intro hzero
  have hr : r = 0 := signed_eq_zero_iff.mp (Option.some_inj.mp (hvalue.symm.trans hzero))
  have hfar := (abs_le.mp hnear.near).1
  rw [hr, Nat.cast_zero, zero_mul] at hfar
  linarith

/-- A short number is a multiple of the last digit of another, or it lies below everything that is
as long as that one. -/
theorem Short.multiple_or_below (hpos : 0 < m) (hshort : Short p) :
    (∃ z : ℤ, p = z * 2 ^ grid m e) ∨
      |p| ≤ 2 ^ 52 * 2 ^ grid m e ∧ (2 : ℚ) ^ 52 * 2 ^ grid m e ≤ m * 2 ^ e := by
  obtain ⟨c, f, hc, habove, hp⟩ := hshort
  rcases le_or_gt (grid m e) f with hf | hf
  · left
    obtain ⟨k, hk⟩ := Int.le.dest hf
    have hmultiple : |p| = ((c * 2 ^ k : ℕ) : ℤ) * 2 ^ grid m e := by
      rw [hp, ← hk, zpow_add₀ two_ne_zero, zpow_natCast]
      push_cast
      ring
    rcases abs_choice p with hsign | hsign
    · exact ⟨(c * 2 ^ k : ℕ), by rw [← hmultiple, hsign]⟩
    · exact ⟨-(c * 2 ^ k : ℕ), by rw [Int.cast_neg, neg_mul, ← hmultiple, hsign, neg_neg]⟩
  · right
    have hdigits : grid m e = m.log2 + e - 52 := by
      rw [grid] at hf ⊢
      omega
    constructor
    · calc |p| = c * 2 ^ f := hp
        _ ≤ 2 ^ 53 * 2 ^ (grid m e - 1) := by
          gcongr
          · exact_mod_cast hc.le
          · exact one_le_two
          · omega
        _ = 2 ^ 52 * 2 ^ grid m e := by rw [zpow_sub_one₀ two_ne_zero]; ring
    · refine le_trans (le_of_eq ?_) (two_pow_log2_mul_le hpos e)
      rw [hdigits, ← zpow_natCast, ← zpow_add₀ two_ne_zero]
      congr 1
      push_cast
      ring

/-- No short number is nearer to a number than the nearest multiple of its last digit. -/
theorem NearestMultiple.le_short (h : NearestMultiple (2 ^ grid m e) (m * 2 ^ e) r) (hpos : 0 < m)
    (hshort : Short p) : |(r : ℚ) * 2 ^ grid m e - m * 2 ^ e| ≤ |p - m * 2 ^ e| := by
  have hstep : (0 : ℚ) < 2 ^ grid m e := zpow_pos two_pos _
  rcases hshort.multiple_or_below (e := e) hpos with ⟨z, rfl⟩ | ⟨hbelow, hfull⟩
  · exact h.le_multiple hstep z
  · -- between the two lies a multiple
    calc |(r : ℚ) * 2 ^ grid m e - m * 2 ^ e|
        ≤ |((2 ^ 52 : ℤ) : ℚ) * 2 ^ grid m e - m * 2 ^ e| := h.le_multiple hstep _
      _ = m * 2 ^ e - 2 ^ 52 * 2 ^ grid m e := by
        rw [abs_sub_comm, abs_of_nonneg] <;> push_cast <;> linarith
      _ ≤ m * 2 ^ e - p := by linarith [le_abs_self p]
      _ ≤ |p - m * 2 ^ e| := by rw [abs_sub_comm]; exact le_abs_self _

/-- No short number is nearer to a number than the one it is rounded to. -/
theorem Rounds.nearest (h : Rounds s m e u) (hpos : 0 < m) (hu : value? u = some q)
    (hshort : Short p) : |q - signed s m e| ≤ |p - signed s m e| := by
  obtain ⟨-, r, hnear, hvalue⟩ := h
  rw [← Option.some_inj.mp (hvalue.symm.trans hu), abs_signed_sub_signed]
  cases s with
  | positive => exact hnear.le_short hpos hshort
  | negative =>
    have hle := hnear.le_short hpos hshort.neg
    rwa [← neg_add', abs_neg, ← sub_neg_eq_add, ← signed_negative] at hle

/-- A short number is not changed. -/
theorem Rounds.value?_of_short (h : Rounds s m e u) (hpos : 0 < m)
    (hshort : Short (signed s m e)) : value? u = some (signed s m e) := by
  obtain ⟨r, -, hvalue⟩ := h.exists_nearest
  have hexact := h.nearest hpos hvalue hshort
  rw [sub_self, abs_zero, abs_nonpos_iff, sub_eq_zero] at hexact
  rw [hvalue, hexact]

theorem Rounds.neg (h : Rounds s m e u) : Rounds (-s) m e u.neg := by
  obtain ⟨hcanonical, r, hnear, hvalue⟩ := h
  refine ⟨hcanonical.neg, r, hnear, ?_⟩
  rw [value?_neg, hvalue, Option.map_some, signed_neg]

/-- Of two that are equally near, the one with an even last digit is taken. -/
theorem Rounds.even (h : Rounds s m e u) (hu : value? u = some q)
    (hmiddle : |q - signed s m e| = 2 ^ grid m e / 2) :
    ∃ z : ℤ, q = z * (2 * 2 ^ grid m e) := by
  obtain ⟨-, r, hnear, hvalue⟩ := h
  rw [← Option.some_inj.mp (hvalue.symm.trans hu)] at hmiddle ⊢
  rw [abs_signed_sub_signed] at hmiddle
  obtain ⟨c, rfl⟩ := hnear.even hmiddle
  refine ⟨s.apply c, ?_⟩
  cases s <;> simp only [signed, Sign.apply] <;> push_cast <;> ring

/-! ## Differences -/

theorem normalize_spec (d : ℤ) (he : -1074 ≤ e) :
    Canonical (UnpackedFloat.normalize Format.binary64 d e s) ∧
      (value? (UnpackedFloat.normalize Format.binary64 d e s) = some 0 ↔ d = 0) := by
  rcases lt_trichotomy d 0 with hd | rfl | hd
  · have hrounds := rounds_round .negative (m := (-d).toNat) (by omega) e
    rw [UnpackedFloat.normalize, Int.compare_eq_lt.mpr hd]
    exact ⟨hrounds.canonical, iff_of_false (hrounds.value?_ne_zero (by omega) he) hd.ne⟩
  · exact ⟨.zero s, iff_of_true rfl rfl⟩
  · have hrounds := rounds_round .positive (m := d.toNat) (by omega) e
    rw [UnpackedFloat.normalize, Int.compare_eq_gt.mpr hd]
    exact ⟨hrounds.canonical, iff_of_false (hrounds.value?_ne_zero (by omega) he) hd.ne'⟩

/-- The unpacked float tells whether the two others are one number. -/
structure Tells (u v w : UnpackedFloat) : Prop where
  canonical : Canonical w
  eq_zero_iff : value? w = some 0 ↔ ∃ q, value? u = some q ∧ value? v = some q

/-- The difference of two numbers is taken at the smaller of the exponents, where it is exact. -/
theorem tells_sub_finite {s₁ s₂ : Sign} {m₁ m₂ : ℕ} {e₁ e₂ : ℤ} (hpos₁ : 0 < m₁) (hpos₂ : 0 < m₂)
    (h₁ : Regular m₁ e₁) (h₂ : Regular m₂ e₂) :
    Tells (.finite s₁ m₁ e₁ hpos₁) (.finite s₂ m₂ e₂ hpos₂)
      (UnpackedFloat.sub Format.binary64 (.finite s₁ m₁ e₁ hpos₁) (.finite s₂ m₂ e₂ hpos₂)) := by
  have hlow : -1074 ≤ min e₁ e₂ := le_min h₁.above h₂.above
  obtain ⟨k₁, hk₁⟩ : ∃ k : ℕ, (e₁ - min e₁ e₂).toNat = k := ⟨_, rfl⟩
  obtain ⟨k₂, hk₂⟩ : ∃ k : ℕ, (e₂ - min e₁ e₂).toNat = k := ⟨_, rfl⟩
  have hsub : UnpackedFloat.sub Format.binary64 (.finite s₁ m₁ e₁ hpos₁) (.finite s₂ m₂ e₂ hpos₂) =
      UnpackedFloat.normalize Format.binary64
        (s₁.apply (m₁ <<< k₁ : ℕ) - s₂.apply (m₂ <<< k₂ : ℕ)) (min e₁ e₂) .positive := by
    rw [← hk₁, ← hk₂]
    rfl
  have hshift₁ := signed_shiftLeft s₁ m₁ k₁ e₁
  have hshift₂ := signed_shiftLeft s₂ m₂ k₂ e₂
  rw [show e₁ - k₁ = min e₁ e₂ by omega] at hshift₁
  rw [show e₂ - k₂ = min e₁ e₂ by omega] at hshift₂
  have hsame : s₁.apply (m₁ <<< k₁ : ℕ) - s₂.apply (m₂ <<< k₂ : ℕ) = 0 ↔
      signed s₁ m₁ e₁ = signed s₂ m₂ e₂ := by
    rw [← hshift₁, ← hshift₂, signed, signed, mul_left_inj' (zpow_ne_zero _ two_ne_zero),
      Int.cast_inj, sub_eq_zero]
  obtain ⟨hcanonical, hzero⟩ := normalize_spec (s := .positive)
    (s₁.apply (m₁ <<< k₁ : ℕ) - s₂.apply (m₂ <<< k₂ : ℕ)) hlow
  rw [hsub]
  refine ⟨hcanonical, hzero.trans (hsame.trans ⟨fun h => ⟨_, rfl, congrArg some h.symm⟩, ?_⟩)⟩
  rintro ⟨q, hq, hq'⟩
  exact Option.some_inj.mp (hq.trans hq'.symm)

theorem Canonical.tells_sub (hu : Canonical u) (hv : Canonical v) :
    Tells u v (UnpackedFloat.sub Format.binary64 u v) := by
  cases hu with
  | notANumber => exact ⟨.notANumber, by simp [UnpackedFloat.sub, value?]⟩
  | infinity s₁ =>
    cases hv with
    | notANumber => exact ⟨.notANumber, by simp [UnpackedFloat.sub, value?]⟩
    | infinity s₂ =>
      simp only [UnpackedFloat.sub]
      split
      · exact ⟨.infinity _, by simp [value?]⟩
      · exact ⟨.notANumber, by simp [value?]⟩
    | zero s₂ => exact ⟨.infinity s₁, by simp [UnpackedFloat.sub, value?]⟩
    | finite s₂ hpos₂ h₂ => exact ⟨.infinity s₁, by simp [UnpackedFloat.sub, value?]⟩
  | zero s₁ =>
    cases hv with
    | notANumber => exact ⟨.notANumber, by simp [UnpackedFloat.sub, value?]⟩
    | infinity s₂ => exact ⟨.infinity _, by simp [UnpackedFloat.sub, value?]⟩
    | zero s₂ =>
      simp only [UnpackedFloat.sub]
      split
      · exact ⟨.zero _, iff_of_true rfl ⟨0, rfl, rfl⟩⟩
      · exact ⟨.zero _, iff_of_true rfl ⟨0, rfl, rfl⟩⟩
    | finite s₂ hpos₂ h₂ =>
      refine ⟨.finite _ hpos₂ h₂, iff_of_false value?_finite_ne_zero ?_⟩
      rintro ⟨q, hq, hq'⟩
      exact value?_finite_ne_zero (hq'.trans hq.symm)
  | finite s₁ hpos₁ h₁ =>
    cases hv with
    | notANumber => exact ⟨.notANumber, by simp [UnpackedFloat.sub, value?]⟩
    | infinity s₂ => exact ⟨.infinity _, by simp [UnpackedFloat.sub, value?]⟩
    | zero s₂ =>
      refine ⟨.finite _ hpos₁ h₁, iff_of_false value?_finite_ne_zero ?_⟩
      rintro ⟨q, hq, hq'⟩
      exact value?_finite_ne_zero (hq.trans hq'.symm)
    | finite s₂ hpos₂ h₂ => exact tells_sub_finite hpos₁ hpos₂ h₁ h₂

/-- Two floats have the difference zero just if they are one number. -/
theorem number?_sub_eq_zero_iff (x y : Float) :
    number? (x - y) = some 0 ↔ ∃ q, number? x = some q ∧ number? y = some q := by
  have hsub := (canonical_unpack x).tells_sub (canonical_unpack y)
  rw [← value?_unpack x, ← value?_unpack y, ← hsub.eq_zero_iff]
  exact hsub.canonical.number?_pack_eq_zero_iff

end TargetTiles.Binary
