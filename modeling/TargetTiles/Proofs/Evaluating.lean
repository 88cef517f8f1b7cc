import TargetTiles.Evaluation

/-!
# Reading a token stream

What reading one token does. A tile has one outcome and an operator three, which
`Evaluation.read_operator_cases` tells apart once and for all. A stream is read from its beginning,
so facts about streams are proved from the last token backwards.
-/

namespace TargetTiles

/-- The outcomes of reading an operator. -/
inductive Evaluation.Operates (check : OperandCheck) (op : Operator) :
    Evaluation → Evaluation → Prop
  /-- There are not two operands. -/
  | missing {operands skipped} (h : operands.length < 2) :
      Operates check op ⟨operands, skipped⟩ ⟨operands, skipped + 1⟩
  /-- One of the two topmost operands is turned down. -/
  | rejected {rhs lhs below skipped} (h : check.rejects rhs = true ∨ check.rejects lhs = true) :
      Operates check op ⟨rhs :: lhs :: below, skipped⟩ ⟨below, skipped + 1⟩
  /-- The operator is carried out. -/
  | applied {rhs lhs below skipped} (hr : check.rejects rhs = false)
      (hl : check.rejects lhs = false) :
      Operates check op ⟨rhs :: lhs :: below, skipped⟩ ⟨op.apply lhs rhs :: below, skipped⟩

namespace Evaluation

variable {check : OperandCheck} {evaluation : Evaluation}

/-! ## One token -/

@[simp] theorem read_tile (t : Tile) :
    evaluation.read check (.tile t) =
      ⟨t.operand :: evaluation.operands, evaluation.skipped⟩ := rfl

theorem read_operator_applied {rhs lhs : Float} (hr : check.rejects rhs = false)
    (hl : check.rejects lhs = false) (op : Operator) (below : List Float) (skipped : Nat) :
    read check ⟨rhs :: lhs :: below, skipped⟩ (.operator op) =
      ⟨op.apply lhs rhs :: below, skipped⟩ := by
  simp [read, OperandCheck.reduce, hr, hl]

theorem read_operator_rejected {rhs lhs : Float}
    (h : check.rejects rhs = true ∨ check.rejects lhs = true) (op : Operator)
    (below : List Float) (skipped : Nat) :
    read check ⟨rhs :: lhs :: below, skipped⟩ (.operator op) = ⟨below, skipped + 1⟩ := by
  simp [read, OperandCheck.reduce, h]

theorem reduce_missing {operands : List Float} (h : operands.length < 2) (op : Operator) :
    check.reduce op operands = (operands, false) := by
  match operands with
  | [] => rfl
  | [operand] => rfl

theorem read_operator_missing {operands : List Float} (h : operands.length < 2) (op : Operator)
    (skipped : Nat) : read check ⟨operands, skipped⟩ (.operator op) = ⟨operands, skipped + 1⟩ := by
  simp only [read, reduce_missing h]

/-- Reading an operator has one of the outcomes listed. -/
theorem read_operator_cases (check : OperandCheck) (evaluation : Evaluation) (op : Operator) :
    Operates check op evaluation (evaluation.read check (.operator op)) := by
  obtain ⟨operands, skipped⟩ := evaluation
  match operands with
  | [] => exact .missing (by decide)
  | [operand] => exact .missing (by simp)
  | rhs :: lhs :: below =>
    by_cases h : check.rejects rhs = true ∨ check.rejects lhs = true
    · rw [read_operator_rejected h]
      exact .rejected h
    · simp only [not_or, Bool.not_eq_true] at h
      rw [read_operator_applied h.1 h.2]
      exact .applied h.1 h.2

/-- An operator read without being skipped has been carried out. -/
theorem read_operator_of_skipped_eq_zero {op : Operator}
    (h : (evaluation.read check (.operator op)).skipped = 0) :
    ∃ rhs lhs below, evaluation = ⟨rhs :: lhs :: below, 0⟩ ∧
      check.rejects rhs = false ∧ check.rejects lhs = false := by
  have hcases := read_operator_cases check evaluation op
  generalize evaluation.read check (.operator op) = next at h hcases
  cases hcases with
  | missing => cases h
  | rejected => cases h
  | applied hr hl =>
    cases h
    exact ⟨_, _, _, rfl, hr, hl⟩

/-! ## Streams -/

theorem ofTokens_append (check : OperandCheck) (front back : List Token) :
    ofTokens check (front ++ back) = back.foldl (read check) (ofTokens check front) :=
  List.foldl_append

theorem ofTokens_concat (check : OperandCheck) (tokens : List Token) (token : Token) :
    ofTokens check (tokens ++ [token]) = (ofTokens check tokens).read check token :=
  ofTokens_append check tokens [token]

end Evaluation

end TargetTiles
