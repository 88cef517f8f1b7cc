import TargetTiles.Proofs.Skipping

/-!
# Streams read on top of others

A stream that never lacks operands keeps to what it brings itself. Read behind another stream it
leaves that one's operands where they are, puts its own on top of them, and skips what it would
have skipped alone; a pair it drops is a pair of its own. A stream that does lack operands takes
them from the one before it as soon as that one has enough, so no other stream can be read behind
every stream in this way.
-/

namespace TargetTiles.Evaluation

/-- Two evaluations as one, the operands of the first lying on those of the second. -/
def above (evaluation below : Evaluation) : Evaluation :=
  ⟨evaluation.operands ++ below.operands, below.skipped + evaluation.skipped⟩

variable {check : OperandCheck} {evaluation next : Evaluation} {token : Token} {fate : Fate}
  {tokens front back : List Token}

theorem stack_above (evaluation below : Evaluation) :
    (evaluation.above below).stack = below.stack ++ evaluation.stack :=
  List.reverse_append

theorem value_above {below : Evaluation} {lowest : Float} (h : below.value = some lowest) :
    (evaluation.above below).value = some lowest :=
  List.getLast?_append.trans (by rw [← value, h, Option.some_or])

/-! ## One token -/

/-- A token that does not lack operands is read in the same way wherever its operands lie. -/
theorem Reads.above (h : Reads check token fate evaluation next) (hf : fate ≠ .missing)
    (below : Evaluation) :
    Reads check token fate (evaluation.above below) (next.above below) := by
  cases h with
  | entered => exact .entered
  | applied hr hl => exact .applied hr hl
  | missing => exact absurd rfl hf
  | dropped h => exact .dropped h

theorem Reads.length_le (h : Reads check token fate evaluation next) :
    evaluation.operands.length ≤ next.operands.length + 2 := by
  cases h with
  | entered => exact Nat.le_add_right_of_le (Nat.le_succ _)
  | applied => exact Nat.le_succ _
  | missing => exact Nat.le_add_right _ _
  | dropped => exact Nat.le_refl _

theorem Reads.few_of_missing (h : Reads check token .missing evaluation next) :
    evaluation.operands.length < 2 := by
  cases h with
  | missing h => exact h

/-! ## Streams that lack no operands -/

theorem ofTokens_append_of_supplied (h : tally check .missing back = 0) :
    ofTokens check (front ++ back) = (ofTokens check back).above (ofTokens check front) := by
  induction back using List.reverseRecOn with
  | nil => simp [above, ofTokens, empty]
  | append_singleton back token ih =>
    obtain ⟨hbefore, hf⟩ := tally_concat_eq_zero_iff.mp h
    have habove := (read_reads check (ofTokens check back) token).above hf (ofTokens check front)
    rw [← List.append_assoc, ofTokens_concat, ofTokens_concat, ih hbefore]
    exact habove.read_eq

/-! ## Streams that lack operands -/

/-- No token takes more than two operands away, so with two for each token none is missing. -/
theorem fate_ne_missing_of_many (h : 2 * tokens.length ≤ evaluation.operands.length) :
    ∀ labelled ∈ fatesFrom check evaluation tokens, labelled.2 ≠ .missing := by
  induction tokens generalizing evaluation with
  | nil => exact fun labelled hmem => absurd hmem List.not_mem_nil
  | cons token rest ih =>
    rw [List.length_cons] at h
    have hreads := read_reads check evaluation token
    rw [fatesFrom, List.forall_mem_cons]
    constructor
    · intro (hf : evaluation.fate check token = .missing)
      rw [hf] at hreads
      have hfew := hreads.few_of_missing
      omega
    · have hleft := hreads.length_le
      exact ih (by omega)

theorem fatesFrom_tiles (t : Tile) (count : Nat) (evaluation : Evaluation) :
    fatesFrom check evaluation (List.replicate count (.tile t)) =
      List.replicate count (.tile t, .entered) := by
  induction count generalizing evaluation with
  | zero => rfl
  | succ count ih => rw [List.replicate_succ, fatesFrom, ih]; rfl

theorem length_operands_tiles (t : Tile) (count : Nat) :
    (ofTokens check (List.replicate count (.tile t))).operands.length = count := by
  induction count with
  | zero => rfl
  | succ count ih =>
    rw [List.replicate_succ', ofTokens_concat, read_tile, List.length_cons, ih]

/-- Behind enough tiles no stream lacks operands. -/
theorem tally_missing_behind_tiles (t : Tile) (tokens : List Token) :
    tally check .missing (List.replicate (2 * tokens.length) (.tile t) ++ tokens) = 0 := by
  have hlength : (ofTokens check (List.replicate (2 * tokens.length) (.tile t))).operands.length =
      2 * tokens.length := length_operands_tiles t _
  rw [tally, List.countP_eq_zero, fates, fatesFrom_append]
  intro labelled hmem
  rw [decide_eq_true_eq]
  rcases List.mem_append.mp hmem with hmem | hmem
  · rw [fatesFrom_tiles] at hmem
    rw [List.eq_of_mem_replicate hmem]
    exact Fate.noConfusion
  · exact fate_ne_missing_of_many (Nat.le_of_eq hlength.symm) labelled hmem

/-- Where a stream behind another leaves its operands on top of the other's and adds to what is
skipped just what it skips alone, it lacks operands as often as alone. -/
theorem tally_missing_append_of_length
    (hlen : (ofTokens check (front ++ back)).operands.length =
      (ofTokens check front).operands.length + (ofTokens check back).operands.length)
    (hskip : (ofTokens check (front ++ back)).skipped =
      (ofTokens check front).skipped + (ofTokens check back).skipped) :
    tally check .missing (front ++ back) =
      tally check .missing front + tally check .missing back := by
  -- the balances tell the pairs dropped, and what else is skipped lacks operands
  have hfront := balance check front
  have hback := balance check back
  have hboth := balance check (front ++ back)
  rw [List.countP_append, List.length_append] at hboth
  have hskipFront := skipped_eq_tally check front
  have hskipBack := skipped_eq_tally check back
  have hskipBoth := skipped_eq_tally check (front ++ back)
  omega

/-- The streams that never lack operands are those that keep to their own operands, whatever they
are read behind: the operands of the stream in front stay where they are below those of the stream
itself, and what the two skip adds up. So a value that is there already is never changed. -/
theorem keeps_to_own_operands_iff (check : OperandCheck) (back : List Token) :
    tally check .missing back = 0 ↔
      ∀ front : List Token,
        (ofTokens check (front ++ back)).stack =
          (ofTokens check front).stack ++ (ofTokens check back).stack ∧
        (ofTokens check (front ++ back)).skipped =
          (ofTokens check front).skipped + (ofTokens check back).skipped ∧
        ∀ value, (ofTokens check front).value = some value →
          (ofTokens check (front ++ back)).value = some value := by
  constructor
  · intro h front
    rw [ofTokens_append_of_supplied h]
    exact ⟨stack_above _ _, rfl, fun value hvalue => value_above hvalue⟩
  · intro h
    let tiles := List.replicate (2 * back.length) (Token.tile ⟨⟨0⟩, 0⟩)
    obtain ⟨hstack, hskip, -⟩ := h tiles
    have hlen := congrArg List.length hstack
    simp only [stack, List.length_append, List.length_reverse] at hlen
    have hnone : tally check .missing (tiles ++ back) = 0 := tally_missing_behind_tiles _ back
    have htally := tally_missing_append_of_length hlen hskip
    omega

/-- A dropped pair leaves what lies below it; an operator that lacks operands takes them from the
stream in front. -/
example (front dropping lacking : List Token) (hf : front = [.tile ⟨⟨0⟩, 9⟩, .tile ⟨⟨1⟩, 2⟩])
    (hd : dropping = [.tile ⟨⟨2⟩, 4⟩, .tile ⟨⟨3⟩, 0⟩, .operator .divide, .tile ⟨⟨4⟩, 6⟩])
    (hl : lacking = [.operator .subtract, .tile ⟨⟨4⟩, 6⟩]) :
    (ofTokens .truthy (front ++ dropping)).stack = [9.0, 2.0, 6.0] ∧
      (ofTokens .truthy lacking).stack = [6.0] ∧
      (ofTokens .truthy (front ++ lacking)).stack = [7.0, 6.0] := by
  subst hf hd hl
  decide +kernel

end TargetTiles.Evaluation
