import Mathlib.Algebra.BigOperators.Option
import Mathlib.Algebra.BigOperators.Ring.Finset
import Mathlib.Algebra.Order.Floor.Div
import Mathlib.Order.Interval.Set.Nat
import TargetTiles.Proofs.Drawing

/-!
# Fair draws

A word that counts settles a draw. Of the words that there are, each number between the bounds is
settled on by equally many, and the words left over settle nothing: the draw reads on until it
meets one that counts. The words that settle on a number are those whose products with the size of
the range fall into a window, and a window so many times as long as the size holds just so many
products, wherever it begins. Numbers are drawn from words of 64 bits and indices from words of 32,
both in this way.
-/

namespace TargetTiles

namespace Fair

/-- The number of zeros before the first one of a range, written with so many bits. -/
def leadingZeros (bits range : Nat) : Nat := (BitVec.ofNat bits range).clz.toNat

variable {bits range choice word : Nat}

theorem leadingZeros_eq (hr : 0 < range) (hb : range < 2 ^ bits) :
    leadingZeros bits range = bits - (range.log2 + 1) := by
  have hbits : 0 < bits := by
    rcases Nat.eq_zero_or_pos bits with rfl | h
    · omega
    · exact h
  have hval : (BitVec.ofNat bits range).toNat = range := by
    rw [BitVec.toNat_ofNat, Nat.mod_eq_of_lt hb]
  have hne : BitVec.ofNat bits range ≠ BitVec.ofNat bits 0 := by
    intro h
    rw [h, BitVec.toNat_ofNat, Nat.zero_mod] at hval
    omega
  have hlow := BitVec.two_pow_sub_clz_le_toNat_of_ne_zero hbits hne
  have hhigh := (BitVec.ofNat bits range).toNat_lt_two_pow_sub_clz
  rw [hval, ← leadingZeros] at hlow hhigh
  have hlt : leadingZeros bits range < bits := by
    refine Nat.lt_of_not_le fun hle => ?_
    rw [Nat.sub_eq_zero_of_le hle] at hhigh
    omega
  have hlog : range.log2 = bits - 1 - leadingZeros bits range := by
    rw [Nat.log2_eq_iff (by omega)]
    refine ⟨hlow, ?_⟩
    rwa [show bits - 1 - leadingZeros bits range + 1 = bits - leadingZeros bits range by omega]
  omega

/-- A range filled up with zeros still fits the word. -/
theorem mul_two_pow_leadingZeros_le (hr : 0 < range) (hb : range < 2 ^ bits) :
    range * 2 ^ leadingZeros bits range ≤ 2 ^ bits := by
  have hlog : range.log2 < bits := (Nat.log2_lt (by omega)).mpr hb
  have hfull : range.log2 + 1 + (bits - (range.log2 + 1)) = bits := by omega
  calc range * 2 ^ leadingZeros bits range
      ≤ 2 ^ (range.log2 + 1) * 2 ^ leadingZeros bits range :=
        Nat.mul_le_mul_right _ (Nat.le_of_lt Nat.lt_log2_self)
    _ = 2 ^ bits := by rw [leadingZeros_eq hr hb, ← Nat.pow_add, hfull]

theorem zone_eq (hr : 0 < range) (hb : range < 2 ^ bits) :
    zone bits range = range * 2 ^ leadingZeros bits range - 1 := by
  rw [zone, leadingZeros_eq hr hb, Nat.shiftLeft_eq]

/-! ## The words that choose a number -/

/-- A word chooses a number if its product with the range lies in the window of that number. -/
theorem choose?_eq_some_iff (hr : 0 < range) (hb : range < 2 ^ bits) :
    choose? bits range word = some choice ↔ choice * 2 ^ bits ≤ word * range ∧
      word * range < choice * 2 ^ bits + range * 2 ^ leadingZeros bits range := by
  have hwindow := mul_two_pow_leadingZeros_le hr hb
  have hpos : 0 < range * 2 ^ leadingZeros bits range :=
    Nat.mul_pos hr (Nat.two_pow_pos _)
  have hsplit := Nat.div_add_mod (word * range) (2 ^ bits)
  have hmod := Nat.mod_lt (word * range) (Nat.two_pow_pos bits)
  rw [choose?, zone_eq hr hb, Nat.one_shiftLeft, Nat.shiftRight_eq_div_pow]
  generalize word * range = product at *
  generalize range * 2 ^ leadingZeros bits range = window at *
  constructor
  · intro h
    split at h
    · next hcounts =>
      cases h
      rw [Nat.mul_comm] at hsplit
      omega
    · cases h
  · rintro ⟨hlow, hhigh⟩
    have hchoice : product / 2 ^ bits = choice := by
      rw [Nat.div_eq_iff (Nat.two_pow_pos bits)]
      omega
    rw [Nat.mul_comm, hchoice] at hsplit
    rw [if_pos (by omega), hchoice]

/-- The multiples of a range that lie in a window of so many ranges, told by their factors. -/
theorem window_eq_Ico (hr : 0 < range) (start count : Nat) :
    {word | start ≤ word * range ∧ word * range < start + range * count} =
      Set.Ico (start ⌈/⌉ range) (start ⌈/⌉ range + count) := by
  have hend : (start + range * count) ⌈/⌉ range = start ⌈/⌉ range + count := by
    rw [Nat.ceilDiv_eq_add_pred_div, Nat.ceilDiv_eq_add_pred_div, ← Nat.add_mul_div_left _ _ hr]
    congr 1
    omega
  ext word
  rw [Set.mem_Ico, ← hend, ceilDiv_le_iff_le_mul hr, ← Nat.not_le, ceilDiv_le_iff_le_mul hr,
    Nat.not_le, Nat.mul_comm range word]
  rfl

/-- A word that chooses a number below the range is small enough to be one. -/
theorem lt_of_choose? (hr : 0 < range) (hb : range < 2 ^ bits) (hc : choice < range)
    (h : choose? bits range word = some choice) : word < 2 ^ bits := by
  have hhigh := ((choose?_eq_some_iff hr hb).mp h).2
  refine Nat.lt_of_mul_lt_mul_right (a := range) ?_
  calc word * range
      < choice * 2 ^ bits + range * 2 ^ leadingZeros bits range := hhigh
    _ ≤ choice * 2 ^ bits + 2 ^ bits :=
        Nat.add_le_add_left (mul_two_pow_leadingZeros_le hr hb) _
    _ = (choice + 1) * 2 ^ bits := (Nat.succ_mul _ _).symm
    _ ≤ range * 2 ^ bits := Nat.mul_le_mul_right _ hc
    _ = 2 ^ bits * range := Nat.mul_comm _ _

/-- Each number below the range is chosen by equally many words. -/
theorem ncard_choose? (hr : 0 < range) (hb : range < 2 ^ bits) (hc : choice < range) :
    {word | word < 2 ^ bits ∧ choose? bits range word = some choice}.ncard =
      2 ^ leadingZeros bits range := by
  have hwords : {word | word < 2 ^ bits ∧ choose? bits range word = some choice} =
      {word | choice * 2 ^ bits ≤ word * range ∧
        word * range < choice * 2 ^ bits + range * 2 ^ leadingZeros bits range} := by
    ext word
    constructor
    · rintro ⟨-, hchosen⟩
      exact (choose?_eq_some_iff hr hb).mp hchosen
    · intro hwindow
      have hchosen := (choose?_eq_some_iff hr hb).mpr hwindow
      exact ⟨lt_of_choose? hr hb hc hchosen, hchosen⟩
  rw [hwords, window_eq_Ico hr, Set.ncard_Ico_nat, Nat.add_sub_cancel_left]

theorem ncard_words (bits : Nat) (p : Nat → Prop) [DecidablePred p] :
    {word | word < 2 ^ bits ∧ p word}.ncard = ((Finset.range (2 ^ bits)).filter p).card := by
  rw [← Set.ncard_coe_finset]
  congr 1
  ext word
  simp

/-- The words that choose nothing are those left over when each number has had its share. -/
theorem ncard_choose?_none (hr : 0 < range) (hb : range < 2 ^ bits) :
    {word | word < 2 ^ bits ∧ choose? bits range word = none}.ncard =
      2 ^ bits - range * 2 ^ leadingZeros bits range := by
  have hall : ∀ word ∈ Finset.range (2 ^ bits),
      choose? bits range word ∈ (Finset.range range).insertNone := by
    intro word hw
    rw [Finset.mem_insertNone]
    intro choice hchosen
    exact Finset.mem_range.mpr (choose?_lt hr (Finset.mem_range.mp hw) hchosen)
  have hshare : ∀ choice ∈ Finset.range range, ((Finset.range (2 ^ bits)).filter
      fun word => choose? bits range word = some choice).card = 2 ^ leadingZeros bits range := by
    intro choice hc
    rw [← ncard_words, ncard_choose? hr hb (Finset.mem_range.mp hc)]
  have htotal := Finset.card_eq_sum_card_fiberwise hall
  rw [Finset.card_range, Finset.sum_insertNone, Finset.sum_congr rfl hshare, Finset.sum_const,
    Finset.card_range, smul_eq_mul] at htotal
  rw [ncard_words]
  omega

end Fair

namespace Rng

/-! ## Words further on in the stream -/

/-- The source so many words of 32 bits further on. -/
def ahead (rng : Rng) (count : Nat) : Rng := { rng with position := rng.position + .ofNat 68 count }

/-- The word of 32 bits that comes after so many others. -/
def wordAhead (rng : Rng) (count : Nat) : Nat :=
  (Stream.word rng.key (rng.position + .ofNat 68 count)).toNat

/-- The source after so many words of 64 bits have been read. -/
def past (rng : Rng) : Nat → Rng
  | 0 => rng
  | count + 1 => rng.word64.2.past count

@[simp] theorem ahead_zero (rng : Rng) : rng.ahead 0 = rng := by simp [ahead]

@[simp] theorem ahead_ahead (rng : Rng) (first later : Nat) :
    (rng.ahead first).ahead later = rng.ahead (first + later) := by
  simp [ahead, BitVec.add_assoc, BitVec.ofNat_add]

/-- Behind the last word comes the first one again. -/
theorem ahead_full_turn (rng : Rng) (count : Nat) :
    rng.ahead (2 ^ 68 + count) = rng.ahead count := by
  have hposition : BitVec.ofNat 68 (2 ^ 68 + count) = .ofNat 68 count := by
    apply BitVec.eq_of_toNat_eq
    simp only [BitVec.toNat_ofNat]
    omega
  rw [ahead, hposition, ahead]

theorem word32_ahead (rng : Rng) (count : Nat) :
    (rng.ahead count).word32 = (rng.wordAhead count, rng.ahead (count + 1)) :=
  congrArg (rng.wordAhead count, ·) (rng.ahead_ahead count 1)

theorem word64_next (rng : Rng) : rng.word64.2 = rng.ahead 2 := rng.ahead_ahead 1 1

theorem past_eq (rng : Rng) (count : Nat) : rng.past count = rng.ahead (2 * count) := by
  induction count generalizing rng with
  | zero => exact rng.ahead_zero.symm
  | succ count ih => rw [past, ih, word64_next, ahead_ahead, Nat.mul_succ, Nat.add_comm]

theorem word64_past (rng : Rng) (count : Nat) :
    (rng.past count).word64.2 = rng.past (count + 1) := by
  rw [word64_next, past_eq, past_eq, ahead_ahead, Nat.mul_succ]

/-- Reading a full turn of the stream leads back to where it began. -/
theorem past_full_turn (rng : Rng) (count : Nat) : rng.past (2 ^ 67 + count) = rng.past count := by
  rw [past_eq, past_eq, Nat.mul_add, ← Nat.pow_succ', ahead_full_turn]

/-! ## The first word that counts -/

section

variable {next : Rng → Nat × Rng} {sources : Nat → Rng} {bits range tries count choice : Nat}

/-- The first word that counts makes the choice, if it is among those that are looked at. Each word
is read of the source that the word before it has left. -/
theorem firstFair_eq (hnext : ∀ count, (next (sources count)).2 = sources (count + 1))
    (hcount : count < tries)
    (hbefore : ∀ earlier < count, Fair.choose? bits range (next (sources earlier)).1 = none)
    (h : Fair.choose? bits range (next (sources count)).1 = some choice) :
    firstFair next bits range tries (sources 0) = (choice, sources (count + 1)) := by
  induction count generalizing sources tries with
  | zero =>
    obtain ⟨tries, rfl⟩ := Nat.exists_eq_succ_of_ne_zero (by omega : tries ≠ 0)
    simp only [firstFair, h, hnext]
  | succ count ih =>
    obtain ⟨tries, rfl⟩ := Nat.exists_eq_succ_of_ne_zero (by omega : tries ≠ 0)
    have hfirst : Fair.choose? bits range (next (sources 0)).1 = none := hbefore 0 (by omega)
    simp only [firstFair, hfirst, hnext]
    -- the first word counts for nothing, so the draw goes on as one that begins behind it
    refine @ih (fun count => sources (count + 1)) tries (fun count => hnext (count + 1)) (by omega)
      (fun earlier hlt => ?_) h
    exact hbefore (earlier + 1) (by omega)

/-- If a full turn of the stream is looked at, the first word that counts makes the choice wherever
it stands. -/
theorem firstFair_eq_of_turn (hnext : ∀ count, (next (sources count)).2 = sources (count + 1))
    (hturn : ∀ count, sources (tries + count) = sources count) (htries : 0 < tries)
    (hbefore : ∀ earlier < count, Fair.choose? bits range (next (sources earlier)).1 = none)
    (h : Fair.choose? bits range (next (sources count)).1 = some choice) :
    firstFair next bits range tries (sources 0) = (choice, sources (count + 1)) := by
  refine firstFair_eq hnext (Nat.lt_of_not_le fun hle => ?_) hbefore h
  -- a word that counts for nothing does so again whenever the stream comes round to it
  obtain ⟨earlier, rfl⟩ := Nat.exists_eq_add_of_le hle
  rw [hturn, hbefore earlier (by omega)] at h
  cases h

end

/-! ## The words that settle a draw -/

/-- The number that a word settles a draw on, if the word counts. -/
def settle? (low high : Int64) (word : Nat) : Option Int64 :=
  if span low high = 2 ^ 64 then some (.ofNat word)
  else (Fair.choose? 64 (span low high) word).map fun offset : Nat => .ofInt (low.toInt + offset)

variable {low high number : Int64}

/-- A draw is settled by the first word that counts, wherever in the stream it stands, and leaves
the source behind that word. -/
theorem between_eq (h : low ≤ high) {rng : Rng} {count : Nat}
    (hbefore : ∀ earlier < count, settle? low high (rng.past earlier).word64.1 = none)
    (hsettled : settle? low high (rng.past count).word64.1 = some number) :
    rng.between low high = .ok (number, rng.past (count + 1)) := by
  rw [between_of_le h]
  by_cases hfull : span low high = 2 ^ 64
  · simp only [settle?, if_pos hfull, reduceCtorEq] at hbefore hsettled
    obtain rfl : count = 0 := by
      refine Nat.eq_zero_of_not_pos fun hpos => ?_
      exact hbefore 0 hpos
    cases hsettled
    rw [if_pos hfull]
    rfl
  · simp only [settle?, if_neg hfull, Option.map_eq_none_iff, Option.map_eq_some_iff]
      at hbefore hsettled
    obtain ⟨offset, hchosen, rfl⟩ := hsettled
    have hdraw := firstFair_eq_of_turn rng.word64_past rng.past_full_turn (Nat.two_pow_pos 67)
      hbefore hchosen
    rw [past] at hdraw
    rw [if_neg hfull, Nat.one_shiftLeft, hdraw]

/-! ## The numbers that are drawn -/

theorem within_of_settle? (h : low ≤ high) {word : Nat} (hw : word < 2 ^ 64)
    (hs : settle? low high word = some number) : low ≤ number ∧ number ≤ high := by
  rw [settle?] at hs
  split at hs
  · next hfull => exact within_of_full_span hfull number
  · obtain ⟨offset, hchosen, rfl⟩ := Option.map_eq_some_iff.mp hs
    exact offset_within (Fair.choose?_lt (span_pos h) hw hchosen)

/-- Nothing wraps around: the high half of the product is added to the low bound as it is. -/
theorem toInt_of_settle? (h : low ≤ high) {word : Nat} (hw : word < 2 ^ 64)
    (hspan : span low high < 2 ^ 64) (hs : settle? low high word = some number) :
    number.toInt = low.toInt + (word * span low high / 2 ^ 64 : Nat) := by
  rw [settle?, if_neg (Nat.ne_of_lt hspan)] at hs
  obtain ⟨offset, hchosen, rfl⟩ := Option.map_eq_some_iff.mp hs
  rw [toInt_offset (Fair.choose?_lt (span_pos h) hw hchosen), Fair.eq_of_choose? hchosen]

/-- The words that settle a draw on a number are those that choose its distance from the low
bound. -/
theorem settle?_eq_some_iff (h : low ≤ high) (hspan : span low high < 2 ^ 64)
    (hn : low ≤ number) {word : Nat} (hw : word < 2 ^ 64) :
    settle? low high word = some number ↔
      Fair.choose? 64 (span low high) word = some (number.toInt - low.toInt).toNat := by
  have hle := Int64.le_iff_toInt_le.mp hn
  constructor
  · intro hs
    have hnumber := toInt_of_settle? h hw hspan hs
    rw [settle?, if_neg (Nat.ne_of_lt hspan)] at hs
    obtain ⟨offset, hchosen, -⟩ := Option.map_eq_some_iff.mp hs
    rw [hchosen, hnumber, Fair.eq_of_choose? hchosen]
    congr 1
    omega
  · intro hchosen
    rw [settle?, if_neg (Nat.ne_of_lt hspan), hchosen, Option.map_some,
      Int.toNat_of_nonneg (by omega),
      show low.toInt + (number.toInt - low.toInt) = number.toInt by omega, Int64.ofInt_toInt]

theorem ncard_settle? (h : low ≤ high) (hspan : span low high < 2 ^ 64) (hn : low ≤ number)
    (hn' : number ≤ high) : {word | word < 2 ^ 64 ∧ settle? low high word = some number}.ncard =
      2 ^ Fair.leadingZeros 64 (span low high) := by
  have hoffset : (number.toInt - low.toInt).toNat < span low high := by
    have hle := Int64.le_iff_toInt_le.mp hn'
    have hpos := span_pos h
    rw [span] at hpos ⊢
    omega
  rw [← Fair.ncard_choose? (span_pos h) hspan hoffset]
  congr 1
  ext word
  constructor
  · rintro ⟨hw, hs⟩
    exact ⟨hw, (settle?_eq_some_iff h hspan hn hw).mp hs⟩
  · rintro ⟨hw, hchosen⟩
    exact ⟨hw, (settle?_eq_some_iff h hspan hn hw).mpr hchosen⟩

theorem ncard_settle?_none (h : low ≤ high) (hspan : span low high < 2 ^ 64) :
    {word | word < 2 ^ 64 ∧ settle? low high word = none}.ncard =
      2 ^ 64 - span low high * 2 ^ Fair.leadingZeros 64 (span low high) := by
  rw [← Fair.ncard_choose?_none (span_pos h) hspan]
  simp only [settle?, if_neg (Nat.ne_of_lt hspan), Option.map_eq_none_iff]

theorem settle?_full (word : Nat) : settle? .minValue .maxValue word = some (.ofNat word) :=
  if_pos (by decide)

/-- Where every number may be drawn, a word settles the draw on the number that it is. -/
theorem ncard_settle?_full (number : Int64) :
    {word | word < 2 ^ 64 ∧ settle? .minValue .maxValue word = some number}.ncard = 1 := by
  refine Set.ncard_eq_one.mpr ⟨number.toBitVec.toNat, ?_⟩
  ext word
  simp only [settle?_full, Option.some_inj, Set.mem_singleton_iff]
  constructor
  · rintro ⟨hw, rfl⟩
    rw [Int64.toBitVec_ofNat', BitVec.toNat_ofNat, Nat.mod_eq_of_lt hw]
  · rintro rfl
    exact ⟨number.toBitVec.isLt, by rw [Int64.ofNat_bitVecToNat, Int64.ofBitVec_toBitVec]⟩

/-- A draw between two bounds favours no number. It is settled by the first word that counts, on a
number within bounds: the low bound and the high half of the product, added without overflow. Unless
the bounds are the extreme ones, each number between them is settled on by `2 ^ z` of the words, `z`
being the number of leading zeros of the range, and all other words count for nothing. With the
extreme bounds each number is settled on by one word. -/
theorem between_favours_none {low high : Int64} (h : low ≤ high) :
    (∀ (rng : Rng) (count : Nat) (number : Int64),
      (∀ earlier < count, settle? low high (rng.past earlier).word64.1 = none) →
      settle? low high (rng.past count).word64.1 = some number →
      rng.between low high = .ok (number, rng.past (count + 1))) ∧
    (∀ word < 2 ^ 64, ∀ number, settle? low high word = some number →
      (low ≤ number ∧ number ≤ high) ∧ (span low high < 2 ^ 64 →
        number.toInt = low.toInt + (word * span low high / 2 ^ 64 : Nat))) ∧
    (span low high < 2 ^ 64 →
      (∀ number, low ≤ number → number ≤ high →
        {word | word < 2 ^ 64 ∧ settle? low high word = some number}.ncard =
          2 ^ Fair.leadingZeros 64 (span low high)) ∧
      {word | word < 2 ^ 64 ∧ settle? low high word = none}.ncard =
        2 ^ 64 - span low high * 2 ^ Fair.leadingZeros 64 (span low high)) ∧
    (low = .minValue → high = .maxValue → ∀ number,
      {word | word < 2 ^ 64 ∧ settle? low high word = some number}.ncard = 1) := by
  refine ⟨?_, ?_, ?_, ?_⟩
  · intro rng count number hbefore hsettled
    exact between_eq h hbefore hsettled
  · intro word hw number hs
    exact ⟨within_of_settle? h hw hs, fun hspan => toInt_of_settle? h hw hspan hs⟩
  · intro hspan
    exact ⟨fun number hn hn' => ncard_settle? h hspan hn hn', ncard_settle?_none h hspan⟩
  · rintro rfl rfl number
    exact ncard_settle?_full number

/-- Each side of a die has `2 ^ 61` words, and twice as many count for nothing. The least number of
all has one word when every number may be drawn. From seed 2, the first word counts for nothing in a
draw up to five, and the second settles it. -/
theorem between_favours_none_die :
    (1 : Int64) ≤ 6 ∧ span 1 6 < 2 ^ 64 ∧
    {word | word < 2 ^ 64 ∧ settle? 1 6 word = some 4}.ncard = 2 ^ 61 ∧
    {word | word < 2 ^ 64 ∧ settle? 1 6 word = none}.ncard = 2 * 2 ^ 61 ∧
    {word | word < 2 ^ 64 ∧ settle? .minValue .maxValue word = some .minValue}.ncard = 1 ∧
    (ofSeed 2).between .minValue 5 = .ok (-4164989195668278629, (ofSeed 2).past 2) := by
  have hdie : (1 : Int64) ≤ 6 := by decide
  have hspan : span 1 6 < 2 ^ 64 := by decide
  obtain ⟨-, -, hshares, -⟩ := between_favours_none hdie
  obtain ⟨hshare, hrest⟩ := hshares hspan
  obtain ⟨-, -, -, hfull⟩ := between_favours_none (by decide : Int64.minValue ≤ .maxValue)
  obtain ⟨hdraw, -⟩ := between_favours_none (by decide : Int64.minValue ≤ 5)
  exact ⟨hdie, hspan, hshare 4 (by decide) (by decide), hrest, hfull rfl rfl _,
    hdraw (ofSeed 2) 1 _ (by decide +kernel) (by decide +kernel)⟩

/-! ## Indices -/

/-- An index below the range is drawn without favour. -/
structure FairIndex (range : Nat) : Prop where
  /-- The first word that counts settles the index, and the source is left behind that word. -/
  settled : ∀ (rng : Rng) (count choice : Nat),
    (∀ earlier < count, Fair.choose? 32 range (rng.wordAhead earlier) = none) →
    Fair.choose? 32 range (rng.wordAhead count) = some choice →
    rng.index range = (choice, rng.ahead (count + 1))
  /-- No word settles on a number past the range. -/
  below : ∀ word < 2 ^ 32, ∀ choice, Fair.choose? 32 range word = some choice → choice < range
  /-- Of the words that there are, equally many settle on each index. -/
  shares : ∀ choice < range,
    {word | word < 2 ^ 32 ∧ Fair.choose? 32 range word = some choice}.ncard =
      2 ^ Fair.leadingZeros 32 range

theorem index_eq {rng : Rng} {range count choice : Nat}
    (hbefore : ∀ earlier < count, Fair.choose? 32 range (rng.wordAhead earlier) = none)
    (h : Fair.choose? 32 range (rng.wordAhead count) = some choice) :
    rng.index range = (choice, rng.ahead (count + 1)) := by
  have hnext (count : Nat) : (rng.ahead count).word32.2 = rng.ahead (count + 1) := by
    rw [word32_ahead]
  have hdraw := firstFair_eq_of_turn hnext rng.ahead_full_turn (Nat.two_pow_pos 68) hbefore h
  rwa [ahead_zero, ← Nat.one_shiftLeft] at hdraw

theorem fairIndex {range : Nat} (hr : 0 < range) (hb : range < 2 ^ 32) : FairIndex range where
  settled _ _ _ := index_eq
  below _ hw _ := Fair.choose?_lt hr hw
  shares _ hc := Fair.ncard_choose? hr hb hc

end Rng

end TargetTiles
