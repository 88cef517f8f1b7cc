import Mathlib.Data.List.Induction
import TargetTiles.Proofs.Evaluating

/-!
# Streams and expressions

A token stream that is read to the end without skipping an operator, and leaves one operand,
writes down an arithmetic expression, and the operand left is its value. Every expression is
written by one stream, and every stream writes at most one expression.
-/

namespace TargetTiles

/-- An arithmetic expression over tiles. -/
inductive Expression where
  | tile (t : Tile)
  | node (op : Operator) (left right : Expression)

namespace Expression

/-- The expression in postfix notation. -/
def written : Expression → List Token
  | .tile t => [.tile t]
  | .node op left right => left.written ++ right.written ++ [.operator op]

/-- The value of the expression. -/
def value : Expression → Float
  | .tile t => t.operand
  | .node op left right => op.apply left.value right.value

/-- The operands of all operators in the expression. -/
def operands : Expression → List Expression
  | .tile _ => []
  | .node _ left right => left :: right :: (left.operands ++ right.operands)

/-- No operator turns an operand down. -/
def AcceptedBy (check : OperandCheck) (expression : Expression) : Prop :=
  ∀ operand ∈ expression.operands, check.rejects operand.value = false

section

variable {check : OperandCheck} {op : Operator} {left right : Expression}

theorem acceptedBy_tile (t : Tile) : (tile t).AcceptedBy check :=
  fun _ h => absurd h List.not_mem_nil

theorem acceptedBy_node :
    (node op left right).AcceptedBy check ↔
      (check.rejects left.value = false ∧ check.rejects right.value = false) ∧
        left.AcceptedBy check ∧ right.AcceptedBy check := by
  simp only [AcceptedBy, operands, List.forall_mem_cons, List.forall_mem_append, and_assoc]

theorem acceptedBy_presence (expression : Expression) : expression.AcceptedBy .presence :=
  fun _ _ => rfl

theorem acceptedBy_truthy {expression : Expression} :
    expression.AcceptedBy .truthy ↔
      ∀ operand ∈ expression.operands, ¬(operand.value == 0.0) ∧ ¬operand.value.isNaN := by
  simp only [AcceptedBy, OperandCheck.rejects, Bool.or_eq_false_iff, Bool.not_eq_true]

end

/-! ## Expressions are read back -/

/-- Reading an accepted expression puts its value on top. -/
theorem read_written {check : OperandCheck} {expression : Expression}
    (h : expression.AcceptedBy check) (evaluation : Evaluation) :
    expression.written.foldl (Evaluation.read check) evaluation =
      ⟨expression.value :: evaluation.operands, evaluation.skipped⟩ := by
  induction expression generalizing evaluation with
  | tile t => rfl
  | node op left right ihl ihr =>
    obtain ⟨⟨hlv, hrv⟩, hl, hr⟩ := acceptedBy_node.mp h
    rw [written, List.foldl_append, List.foldl_append, ihl hl, ihr hr]
    exact Evaluation.read_operator_applied hrv hlv op _ _

theorem ofTokens_written {check : OperandCheck} {expression : Expression}
    (h : expression.AcceptedBy check) :
    Evaluation.ofTokens check expression.written = ⟨[expression.value], 0⟩ :=
  read_written h Evaluation.empty

/-! ## A stream writes at most one expression -/

/-- Where two streams end in expressions and are equal, the expressions are the same and so is what
stands before them. -/
theorem written_append_inj {e e' : Expression} {front front' : List Token}
    (h : front ++ e.written = front' ++ e'.written) : front = front' ∧ e = e' := by
  induction e generalizing e' front front' with
  | tile t =>
    cases e' with
    | tile t' =>
      obtain ⟨hfront, htile⟩ := List.append_inj' h rfl
      cases htile
      exact ⟨hfront, rfl⟩
    | node op' left' right' =>
      rw [written, written, ← List.append_assoc] at h
      obtain ⟨-, hlast⟩ := List.append_inj' h rfl
      cases hlast
  | node op left right ihl ihr =>
    cases e' with
    | tile t' =>
      rw [written, written, ← List.append_assoc] at h
      obtain ⟨-, hlast⟩ := List.append_inj' h rfl
      cases hlast
    | node op' left' right' =>
      simp only [written, ← List.append_assoc] at h
      obtain ⟨hoperands, hlast⟩ := List.append_inj' h rfl
      cases hlast
      -- The right operands end where the streams now end, the left ones before them.
      obtain ⟨hleft, rfl⟩ := ihr hoperands
      obtain ⟨hfront, rfl⟩ := ihl hleft
      exact ⟨hfront, rfl⟩

theorem written_injective : Function.Injective written := by
  intro e e' h
  have hnil : [] ++ e.written = [] ++ e'.written := h
  exact (written_append_inj hnil).2

/-! ## A stream read without skipping is a forest -/

/-- A stream of which no operator is skipped writes expressions one after the other, and the
operands left are their values. -/
theorem exists_forest {check : OperandCheck} {tokens : List Token}
    (h : (Evaluation.ofTokens check tokens).skipped = 0) :
    ∃ forest : List Expression, tokens = forest.reverse.flatMap written ∧
      (Evaluation.ofTokens check tokens).operands = forest.map value ∧
      ∀ e ∈ forest, e.AcceptedBy check := by
  induction tokens using List.reverseRecOn with
  | nil => exact ⟨[], rfl, rfl, by simp⟩
  | append_singleton tokens token ih =>
    rw [Evaluation.ofTokens_concat] at h ⊢
    cases token with
    | tile t =>
      obtain ⟨forest, htokens, hoperands, haccepted⟩ := ih h
      refine ⟨.tile t :: forest, ?_, ?_, ?_⟩
      · simp [← htokens, written]
      · simp [hoperands, value]
      · exact List.forall_mem_cons.mpr ⟨acceptedBy_tile t, haccepted⟩
    | operator op =>
      obtain ⟨rhs, lhs, below, heval, hr, hl⟩ := Evaluation.read_operator_of_skipped_eq_zero h
      obtain ⟨forest, htokens, hoperands, haccepted⟩ := ih (by rw [heval])
      rw [heval] at hoperands ⊢
      -- The two topmost operands are values of expressions, which the operator joins.
      match forest, hoperands with
      | right :: left :: forest, hoperands =>
        simp only [List.map_cons, List.cons.injEq] at hoperands
        obtain ⟨rfl, rfl, rfl⟩ := hoperands
        simp only [List.forall_mem_cons] at haccepted
        obtain ⟨hright, hleft, hforest⟩ := haccepted
        refine ⟨.node op left right :: forest, ?_, ?_, ?_⟩
        · simp [htokens, written]
        · rw [Evaluation.read_operator_applied hr hl]
          rfl
        · exact List.forall_mem_cons.mpr ⟨acceptedBy_node.mpr ⟨⟨hl, hr⟩, hleft, hright⟩, hforest⟩

/-- A stream is read to one operand without skipping exactly if it writes an expression no operator
of which turns an operand down. -/
theorem isComplete_iff_written (check : OperandCheck) (tokens : List Token) :
    (Evaluation.ofTokens check tokens).isComplete = true ∧
        (Evaluation.ofTokens check tokens).skipped = 0 ↔
      ∃ e : Expression, e.written = tokens ∧ e.AcceptedBy check := by
  constructor
  · rintro ⟨hcomplete, hskipped⟩
    obtain ⟨forest, htokens, hoperands, haccepted⟩ := exists_forest hskipped
    have hlength : forest.length = 1 := by
      rw [← List.length_map value, ← hoperands]
      exact beq_iff_eq.mp hcomplete
    obtain ⟨e, rfl⟩ := List.length_eq_one_iff.mp hlength
    exact ⟨e, by simp [htokens], haccepted e List.mem_cons_self⟩
  · rintro ⟨e, rfl, haccepted⟩
    rw [ofTokens_written haccepted]
    exact ⟨rfl, rfl⟩

/-- If operands only have to be there, the streams read to one operand without skipping are those
that write an expression. If they also have to be numbers other than zero, only those expressions
remain in which every operand is one. The expression is unique and its value is the value read. -/
theorem evaluates_exactly_written (tokens : List Token) :
    ((Evaluation.ofTokens .presence tokens).isComplete = true ∧
        (Evaluation.ofTokens .presence tokens).skipped = 0 ↔
      ∃ e : Expression, e.written = tokens) ∧
    ((Evaluation.ofTokens .truthy tokens).isComplete = true ∧
        (Evaluation.ofTokens .truthy tokens).skipped = 0 ↔
      ∃ e : Expression, e.written = tokens ∧
        ∀ operand ∈ e.operands, ¬(operand.value == 0.0) ∧ ¬operand.value.isNaN) ∧
    (∀ e : Expression, e.written = tokens →
      (∀ e' : Expression, e'.written = tokens → e' = e) ∧
      (Evaluation.ofTokens .presence tokens).value = some e.value ∧
      ((∀ operand ∈ e.operands, ¬(operand.value == 0.0) ∧ ¬operand.value.isNaN) →
        (Evaluation.ofTokens .truthy tokens).value = some e.value)) := by
  refine ⟨?_, ?_, ?_⟩
  · simp only [isComplete_iff_written, acceptedBy_presence, and_true]
  · simp only [isComplete_iff_written, acceptedBy_truthy]
  · rintro e rfl
    refine ⟨fun e' h => written_injective h, ?_, ?_⟩
    · rw [ofTokens_written (acceptedBy_presence e)]
      rfl
    · intro h
      rw [ofTokens_written (acceptedBy_truthy.mpr h)]
      rfl

/-- The operand entered first is the left one. -/
example : (Evaluation.ofTokens .truthy
    [.tile ⟨⟨1⟩, 10⟩, .tile ⟨⟨2⟩, 4⟩, .operator .subtract]).value = some 6.0 := by decide +kernel

end Expression

end TargetTiles
