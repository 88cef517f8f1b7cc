import TargetTiles.Proofs.Expressions
import TargetTiles.Proofs.Fates

/-!
# Skipping leaves nothing behind

An operator that does not find two operands might as well not stand in the stream. Without all
such operators the stream is read to the same operands, and all that is missing is that they were
skipped. If operands only have to be there, what remains is a row of expressions, and the operands
left are their values.
-/

namespace TargetTiles

/-- No expression is without a tile. -/
theorem Expression.exists_tile_mem_written (expression : Expression) :
    ∃ t : Tile, .tile t ∈ expression.written := by
  induction expression with
  | tile t => exact ⟨t, List.mem_singleton_self _⟩
  | node op left right ihl ihr =>
    obtain ⟨t, ht⟩ := ihl
    exact ⟨t, List.mem_append_left _ (List.mem_append_left _ ht)⟩

namespace Evaluation

/-- The tokens of a stream without the operators that do not find two operands in it. -/
def supplied (check : OperandCheck) (tokens : List Token) : List Token :=
  ((fates check tokens).filter (·.2 ≠ .missing)).map (·.1)

variable {check : OperandCheck} {evaluation next : Evaluation} {token : Token} {fate : Fate}
  {tokens : List Token}

/-! ## One token -/

theorem Reads.of_missing (h : Reads check token .missing evaluation next) :
    next = ⟨evaluation.operands, evaluation.skipped + 1⟩ := by
  cases h with
  | missing => rfl

/-- A token is skipped if it finds no two operands or drops a pair, and not otherwise. -/
theorem Reads.skipped_eq (h : Reads check token fate evaluation next) :
    next.skipped = evaluation.skipped +
      ((if fate = .missing then 1 else 0) + if fate = .dropped then 1 else 0) := by
  cases h <;> rfl

/-- What was skipped before plays no part in how a token is read. -/
theorem Reads.after_skips (h : Reads check token fate evaluation next) (skips : Nat) :
    Reads check token fate ⟨evaluation.operands, evaluation.skipped + skips⟩
      ⟨next.operands, next.skipped + skips⟩ := by
  cases h with
  | entered => exact .entered
  | applied hr hl => exact .applied hr hl
  | missing h =>
    rw [Nat.add_right_comm]
    exact .missing h
  | dropped h =>
    rw [Nat.add_right_comm]
    exact .dropped h

/-! ## What is deleted -/

theorem map_fst_fatesFrom (check : OperandCheck) (evaluation : Evaluation)
    (tokens : List Token) : (fatesFrom check evaluation tokens).map (·.1) = tokens := by
  induction tokens generalizing evaluation with
  | nil => rfl
  | cons token rest ih => rw [fatesFrom, List.map_cons, ih]

theorem supplied_sublist (check : OperandCheck) (tokens : List Token) :
    (supplied check tokens).Sublist tokens := by
  have hsub : (supplied check tokens).Sublist ((fates check tokens).map (·.1)) :=
    List.filter_sublist.map _
  rwa [fates, map_fst_fatesFrom] at hsub

theorem length_supplied (check : OperandCheck) (tokens : List Token) :
    (supplied check tokens).length + tally check .missing tokens = tokens.length := by
  have htokens : (fates check tokens).length = tokens.length := by
    rw [← List.length_map, fates, map_fst_fatesFrom]
  rw [supplied, List.length_map, ← List.countP_eq_length_filter, tally, ← htokens, Nat.add_comm,
    List.length_eq_countP_add_countP (·.2 = .missing)]
  simp only [decide_eq_true_eq, ne_eq]

theorem supplied_concat_of_missing
    (h : (ofTokens check tokens).fate check token = .missing) :
    supplied check (tokens ++ [token]) = supplied check tokens := by
  simp [supplied, fates_concat, h]

theorem supplied_concat_of_ne_missing
    (h : (ofTokens check tokens).fate check token ≠ .missing) :
    supplied check (tokens ++ [token]) = supplied check tokens ++ [token] := by
  simp [supplied, fates_concat, h]

/-- Tiles are never deleted. -/
theorem tile_mem_supplied {t : Tile} (h : .tile t ∈ tokens) :
    .tile t ∈ supplied check tokens := by
  induction tokens using List.reverseRecOn with
  | nil => cases h
  | append_singleton tokens token ih =>
    have hbefore : supplied check tokens ⊆ supplied check (tokens ++ [token]) := by
      simp [supplied, fates_concat]
    rcases List.mem_append.mp h with h | h
    · exact hbefore (ih h)
    · obtain rfl := List.mem_singleton.mp h
      rw [supplied_concat_of_ne_missing (fun hf => by cases hf)]
      exact List.mem_append_right _ h

/-! ## What is left -/

/-- A stream and the stream without the operators that do not find two operands are read to the
same operands, and differ by just those operators in what is skipped. -/
theorem ofTokens_eq_supplied (check : OperandCheck) (tokens : List Token) :
    ofTokens check tokens =
      ⟨(ofTokens check (supplied check tokens)).operands,
        (ofTokens check (supplied check tokens)).skipped + tally check .missing tokens⟩ := by
  induction tokens using List.reverseRecOn with
  | nil => rfl
  | append_singleton tokens token ih =>
    have hreads := read_reads check (ofTokens check tokens) token
    rw [ofTokens_concat, tally_concat]
    by_cases hf : (ofTokens check tokens).fate check token = .missing
    · -- the token is deleted, and all it did was to be skipped
      rw [hf] at hreads
      rw [supplied_concat_of_missing hf, if_pos hf, hreads.of_missing, ih]
      rfl
    · -- the token is kept, and finds the operands that it found in the whole stream
      have hkept := read_reads check (ofTokens check (supplied check tokens)) token
      rw [supplied_concat_of_ne_missing hf, if_neg hf, ofTokens_concat, Nat.add_zero]
      conv_lhs => rw [ih]
      exact (hkept.after_skips _).read_eq

theorem skipped_eq_tally (check : OperandCheck) (tokens : List Token) :
    (ofTokens check tokens).skipped =
      tally check .missing tokens + tally check .dropped tokens := by
  induction tokens using List.reverseRecOn with
  | nil => rfl
  | append_singleton tokens token ih =>
    have hstep := (read_reads check (ofTokens check tokens) token).skipped_eq
    rw [ofTokens_concat, tally_concat, tally_concat, hstep, ih]
    omega

/-- If operands only have to be there, no operator of what is left is skipped. -/
theorem skipped_supplied_presence (tokens : List Token) :
    (ofTokens .presence (supplied .presence tokens)).skipped = 0 := by
  have hskipped := congrArg skipped (ofTokens_eq_supplied .presence tokens)
  rw [skipped_eq_tally .presence tokens, tally_dropped_presence] at hskipped
  simp only at hskipped
  omega

/-- What is left if operands only have to be there: expressions in a row, whose values are the
operands that the whole stream leaves. -/
theorem exists_forest_supplied (tokens : List Token) :
    ∃ forest : List Expression, supplied .presence tokens = forest.flatMap Expression.written ∧
      (ofTokens .presence tokens).stack = forest.map Expression.value := by
  obtain ⟨forest, hwritten, hoperands, -⟩ :=
    Expression.exists_forest (skipped_supplied_presence tokens)
  refine ⟨forest.reverse, hwritten, ?_⟩
  rw [ofTokens_eq_supplied, stack, hoperands, List.map_reverse]

/-- If operands only have to be there, only a stream without tiles has no value. -/
theorem value_presence_eq_none_iff (tokens : List Token) :
    (ofTokens .presence tokens).value = none ↔ ∀ t : Tile, .tile t ∉ tokens := by
  obtain ⟨forest, hwritten, hstack⟩ := exists_forest_supplied tokens
  have hvalue : (ofTokens .presence tokens).value = none ↔ forest = [] := by
    rw [value, List.getLast?_eq_none_iff, ← List.reverse_eq_nil_iff, ← stack, hstack,
      List.map_eq_nil_iff]
  rw [hvalue]
  constructor
  · rintro rfl t ht
    have hkept : .tile t ∈ supplied .presence tokens := tile_mem_supplied ht
    rw [hwritten] at hkept
    cases hkept
  · intro hnone
    cases forest with
    | nil => rfl
    | cons e rest =>
      -- every expression has a tile, and whatever is left stands in the whole stream
      obtain ⟨t, ht⟩ := e.exists_tile_mem_written
      have hkept : .tile t ∈ supplied .presence tokens := by
        rw [hwritten, List.flatMap_cons]
        exact List.mem_append_left _ ht
      exact absurd ((supplied_sublist _ _).subset hkept) (hnone t)

/-- Whatever is asked of operands, the operators that do not find two of them can be deleted from
a stream: the operands left stay the same, and as many operators fewer are skipped as were deleted.
If operands only have to be there, none is skipped any more: what is left writes down one expression
after the other, one for each operand left, which is its value. So there is no value exactly if
there is no tile. -/
theorem skipping_leaves_no_trace (tokens : List Token) :
    (∀ check : OperandCheck,
      (supplied check tokens).Sublist tokens ∧
      (supplied check tokens).length + tally check .missing tokens = tokens.length ∧
      (ofTokens check (supplied check tokens)).stack = (ofTokens check tokens).stack ∧
      (ofTokens check (supplied check tokens)).skipped + tally check .missing tokens =
        (ofTokens check tokens).skipped) ∧
    (ofTokens .presence (supplied .presence tokens)).skipped = 0 ∧
    (∃ forest : List Expression, supplied .presence tokens = forest.flatMap Expression.written ∧
      (ofTokens .presence tokens).stack = forest.map Expression.value) ∧
    ((ofTokens .presence tokens).value = none ↔ ∀ t : Tile, .tile t ∉ tokens) := by
  refine ⟨fun check => ?_, skipped_supplied_presence tokens, exists_forest_supplied tokens,
    value_presence_eq_none_iff tokens⟩
  have hread := ofTokens_eq_supplied check tokens
  refine ⟨supplied_sublist check tokens, length_supplied check tokens, ?_, ?_⟩
  · exact (congrArg stack hread).symm
  · exact (congrArg skipped hread).symm

/-- Of three operators the first two are deleted. -/
example : supplied .truthy [.operator .add, .tile ⟨⟨0⟩, 8⟩, .operator .divide, .tile ⟨⟨1⟩, 2⟩,
    .operator .divide] = [.tile ⟨⟨0⟩, 8⟩, .tile ⟨⟨1⟩, 2⟩, .operator .divide] := by
  decide +kernel

end Evaluation

end TargetTiles
