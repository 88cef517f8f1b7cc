import Mathlib.Data.List.Induction
import TargetTiles.Proofs.Evaluating

/-!
# What becomes of a token

Reading a stream tells how many operators were skipped. The fate of an operator also tells why: it
did not find two operands, or one of the two was turned down and both are gone. Whatever is asked
of operands, the tokens of a stream, the operands left, the operators skipped and the pairs gone
are bound by one equation. So where two checks leave equally many operands and skip equally many
operators, they have lost equally many pairs.
-/

namespace TargetTiles

/-- What becomes of a token when it is read. -/
inductive Fate where
  /-- A tile is put on top. -/
  | entered
  /-- An operator is carried out. -/
  | applied
  /-- An operator is skipped that does not find two operands. -/
  | missing
  /-- An operator is skipped that finds two operands, and they are gone. -/
  | dropped
deriving DecidableEq, Repr

namespace Evaluation

def fate (check : OperandCheck) (evaluation : Evaluation) : Token → Fate
  | .tile _ => .entered
  | .operator op =>
    if (check.reduce op evaluation.operands).2 then .applied
    else if evaluation.operands.length < 2 then .missing
    else .dropped

/-- The tokens of the rest of a stream, each with its fate. -/
def fatesFrom (check : OperandCheck) (evaluation : Evaluation) : List Token → List (Token × Fate)
  | [] => []
  | token :: rest =>
    (token, evaluation.fate check token) :: fatesFrom check (evaluation.read check token) rest

/-- The tokens of a stream, each with its fate. -/
def fates (check : OperandCheck) (tokens : List Token) : List (Token × Fate) :=
  fatesFrom check empty tokens

/-- How many tokens of a stream meet a fate. -/
def tally (check : OperandCheck) (fate : Fate) (tokens : List Token) : Nat :=
  (fates check tokens).countP (·.2 = fate)

/-- The ways in which a token is read, each with the fate of the token. -/
inductive Reads (check : OperandCheck) : Token → Fate → Evaluation → Evaluation → Prop
  | entered {t operands skipped} :
      Reads check (.tile t) .entered ⟨operands, skipped⟩ ⟨t.operand :: operands, skipped⟩
  | applied {op rhs lhs below skipped} (hr : check.rejects rhs = false)
      (hl : check.rejects lhs = false) :
      Reads check (.operator op) .applied ⟨rhs :: lhs :: below, skipped⟩
        ⟨op.apply lhs rhs :: below, skipped⟩
  | missing {op operands skipped} (h : operands.length < 2) :
      Reads check (.operator op) .missing ⟨operands, skipped⟩ ⟨operands, skipped + 1⟩
  | dropped {op rhs lhs below skipped}
      (h : check.rejects rhs = true ∨ check.rejects lhs = true) :
      Reads check (.operator op) .dropped ⟨rhs :: lhs :: below, skipped⟩ ⟨below, skipped + 1⟩

variable {check : OperandCheck} {evaluation next : Evaluation} {token : Token} {fate : Fate}
  {tokens : List Token}

/-! ## One token -/

theorem Reads.read_eq (h : Reads check token fate evaluation next) :
    evaluation.read check token = next := by
  cases h with
  | entered => rfl
  | applied hr hl => exact read_operator_applied hr hl _ _ _
  | missing hfew => exact read_operator_missing hfew _ _
  | dropped hno => exact read_operator_rejected hno _ _ _

theorem Reads.fate_eq (h : Reads check token fate evaluation next) :
    evaluation.fate check token = fate := by
  cases h with
  | entered => rfl
  | applied hr hl => simp [Evaluation.fate, OperandCheck.reduce, hr, hl]
  | missing hfew => simp [Evaluation.fate, reduce_missing hfew, hfew]
  | dropped hno => simp [Evaluation.fate, OperandCheck.reduce, hno]

/-- There is no other way to read a token than those listed. -/
theorem read_reads (check : OperandCheck) (evaluation : Evaluation) (token : Token) :
    Reads check token (evaluation.fate check token) evaluation (evaluation.read check token) := by
  suffices h : ∃ fate next, Reads check token fate evaluation next by
    obtain ⟨fate, next, h⟩ := h
    rwa [h.read_eq, h.fate_eq]
  cases token with
  | tile t => exact ⟨_, _, .entered⟩
  | operator op =>
    have hcases := read_operator_cases check evaluation op
    generalize evaluation.read check (.operator op) = next at hcases
    cases hcases with
    | missing h => exact ⟨_, _, .missing h⟩
    | rejected h => exact ⟨_, _, .dropped h⟩
    | applied hr hl => exact ⟨_, _, .applied hr hl⟩

/-- A token that drops no pair is read as if operands only had to be there. -/
theorem Reads.presence (h : Reads check token fate evaluation next) (hf : fate ≠ .dropped) :
    Reads .presence token fate evaluation next := by
  cases h with
  | entered => exact .entered
  | applied => exact .applied rfl rfl
  | missing h => exact .missing h
  | dropped => exact absurd rfl hf

/-- If operands only have to be there, no pair is dropped. -/
theorem fate_presence_ne_dropped (evaluation : Evaluation) (token : Token) :
    evaluation.fate .presence token ≠ .dropped := by
  intro hf
  have hreads := read_reads .presence evaluation token
  rw [hf] at hreads
  generalize evaluation.read .presence token = next at hreads
  cases hreads with
  | dropped h => simp [OperandCheck.rejects] at h

/-- What one token adds to the two sides of the balance. -/
theorem Reads.balance (h : Reads check token fate evaluation next) :
    next.skipped + evaluation.operands.length + 2 * (if token.tileId?.isSome then 1 else 0) =
      evaluation.skipped + 1 + next.operands.length + 2 * (if fate = .dropped then 1 else 0) := by
  cases h <;> simp [Token.tileId?] <;> omega

/-! ## Streams -/

theorem fatesFrom_append (check : OperandCheck) (evaluation : Evaluation)
    (front back : List Token) :
    fatesFrom check evaluation (front ++ back) =
      fatesFrom check evaluation front ++
        fatesFrom check (front.foldl (read check) evaluation) back := by
  induction front generalizing evaluation with
  | nil => rfl
  | cons token front ih => simp only [List.cons_append, fatesFrom, ih, List.foldl_cons]

theorem fates_concat (check : OperandCheck) (tokens : List Token) (token : Token) :
    fates check (tokens ++ [token]) =
      fates check tokens ++ [(token, (ofTokens check tokens).fate check token)] :=
  fatesFrom_append check empty tokens [token]

theorem tally_concat (check : OperandCheck) (fate : Fate) (tokens : List Token) (token : Token) :
    tally check fate (tokens ++ [token]) = tally check fate tokens +
      if (ofTokens check tokens).fate check token = fate then 1 else 0 := by
  simp [tally, fates_concat, List.countP_append, List.countP_singleton]

theorem tally_concat_eq_zero_iff :
    tally check fate (tokens ++ [token]) = 0 ↔
      tally check fate tokens = 0 ∧ (ofTokens check tokens).fate check token ≠ fate := by
  rw [tally_concat, Nat.add_eq_zero_iff]
  exact and_congr_right fun _ => ite_eq_right_iff.trans (by simp)

theorem tally_dropped_presence (tokens : List Token) : tally .presence .dropped tokens = 0 := by
  induction tokens using List.reverseRecOn with
  | nil => rfl
  | append_singleton tokens token ih =>
    rw [tally_concat, ih, if_neg (fate_presence_ne_dropped _ token)]

/-- The balance of a stream. A tile brings an operand. An operator takes one away, or is skipped
and takes none, or is skipped and takes two. -/
theorem balance (check : OperandCheck) (tokens : List Token) :
    (ofTokens check tokens).skipped + 2 * tokens.countP (·.tileId?.isSome) =
      tokens.length + (ofTokens check tokens).operands.length +
        2 * tally check .dropped tokens := by
  induction tokens using List.reverseRecOn with
  | nil => rfl
  | append_singleton tokens token ih =>
    have hstep := (read_reads check (ofTokens check tokens) token).balance
    rw [ofTokens_concat, tally_concat, List.countP_append, List.countP_singleton,
      List.length_append, List.length_singleton]
    omega

/-- As long as no pair is dropped, it plays no part what is asked of operands. -/
theorem ofTokens_presence_of_tally_eq_zero (h : tally check .dropped tokens = 0) :
    ofTokens .presence tokens = ofTokens check tokens := by
  induction tokens using List.reverseRecOn with
  | nil => rfl
  | append_singleton tokens token ih =>
    obtain ⟨hbefore, hf⟩ := tally_concat_eq_zero_iff.mp h
    rw [ofTokens_concat, ofTokens_concat, ih hbefore]
    exact ((read_reads check _ token).presence hf).read_eq

/-- Whether operands only have to be there or have to be numbers other than zero, a stream is read
to the same end exactly if the stricter check drops no pair. However many it drops, they account
for all that the two readings differ by in operators skipped and in operands left. -/
theorem checks_agree_iff (tokens : List Token) :
    (ofTokens .presence tokens = ofTokens .truthy tokens ↔
      tally .truthy .dropped tokens = 0) ∧
    (ofTokens .truthy tokens).skipped + (ofTokens .presence tokens).stack.length =
      (ofTokens .presence tokens).skipped + (ofTokens .truthy tokens).stack.length +
        2 * tally .truthy .dropped tokens := by
  have hpresence := balance .presence tokens
  have htruthy := balance .truthy tokens
  rw [tally_dropped_presence] at hpresence
  refine ⟨⟨fun h => ?_, ofTokens_presence_of_tally_eq_zero⟩, ?_⟩
  · rw [h] at hpresence
    omega
  · simp only [stack, List.length_reverse]
    omega

/-- After a pair is dropped the two readings may well leave equally many operands again; then the
one that dropped it has skipped two operators more. -/
example (tokens : List Token) (h : tokens = [.tile ⟨⟨0⟩, 4⟩, .tile ⟨⟨1⟩, 4⟩, .operator .subtract,
      .tile ⟨⟨2⟩, 6⟩, .operator .add, .tile ⟨⟨3⟩, 3⟩, .operator .add]) :
    (ofTokens .presence tokens).stack = [9.0] ∧ (ofTokens .presence tokens).skipped = 0 ∧
      (ofTokens .truthy tokens).stack = [3.0] ∧ (ofTokens .truthy tokens).skipped = 2 := by
  subst h
  decide +kernel

end Evaluation

end TargetTiles
