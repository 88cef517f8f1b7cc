import Mathlib.Data.List.Induction
import TargetTiles.Proofs.Evaluating
import TargetTiles.Proofs.TakingBack

/-!
# Warnings of skipped operators

Reading a stream warns of each operator that it skips, in the order of the stream, by the operator
and its position. Reading on adds warnings behind those given before. At a table the whole stream
is read again whenever a token is entered or taken back, so each time all of its warnings are
reported, and behind them what has happened. Where nothing happens nothing is reported.
-/

namespace TargetTiles

namespace Evaluation

/-- There are not two operands, or one of the two topmost is turned down. -/
def Unusable (check : OperandCheck) (operands : List Float) : Prop :=
  operands.length < 2 ∨ ∃ rhs lhs below, operands = rhs :: lhs :: below ∧
    (check.rejects rhs = true ∨ check.rejects lhs = true)

/-- The operator at a position of a stream, if reading it adds to the operators skipped. -/
def skippedAt? (check : OperandCheck) (tokens : List Token) (position : Nat) : Option Operator :=
  match tokens[position]? with
  | some (.operator op) =>
    if (ofTokens check (tokens.take position)).skipped <
      (ofTokens check (tokens.take (position + 1))).skipped then some op else none
  | _ => none

/-- The warning that reading one token gives. -/
def warning? (check : OperandCheck) (evaluation : Evaluation) (position : Nat) :
    Token → Option Event
  | .tile _ => none
  | .operator op =>
    if (check.reduce op evaluation.operands).2 then none else some (.skipped op position)

variable {check : OperandCheck} {evaluation : Evaluation} {tokens : List Token}

/-! ## One token -/

theorem warningsFrom_cons (check : OperandCheck) (evaluation : Evaluation) (position : Nat)
    (token : Token) (rest : List Token) :
    warningsFrom check evaluation position (token :: rest) =
      (evaluation.warning? check position token).toList ++
        warningsFrom check (evaluation.read check token) (position + 1) rest := by
  cases token with
  | tile t => rfl
  | operator op =>
    rw [warningsFrom, warning?]
    split <;> rfl

/-- A token adds to what is skipped exactly if it is warned of. -/
theorem skipped_read (check : OperandCheck) (evaluation : Evaluation) (position : Nat)
    (token : Token) : (evaluation.read check token).skipped =
      evaluation.skipped + (evaluation.warning? check position token).toList.length := by
  cases token with
  | tile t => rfl
  | operator op =>
    cases hr : check.reduce op evaluation.operands with
    | mk operands done => cases done <;> simp [read, warning?, hr]

theorem skipped_lt_read_iff (op : Operator) :
    evaluation.skipped < (evaluation.read check (.operator op)).skipped ↔
      Unusable check evaluation.operands := by
  have hcases := read_operator_cases check evaluation op
  generalize evaluation.read check (.operator op) = next at hcases
  cases hcases with
  | missing h => exact iff_of_true (Nat.lt_succ_self _) (.inl h)
  | rejected h => exact iff_of_true (Nat.lt_succ_self _) (.inr ⟨_, _, _, rfl, h⟩)
  | applied hr hl =>
    refine iff_of_false (Nat.lt_irrefl _) ?_
    rintro (hfew | ⟨_, _, _, heq, hno⟩)
    · exact absurd hfew (by simp)
    · cases heq
      simp [hr, hl] at hno

/-! ## Streams -/

theorem warningsFrom_append (check : OperandCheck) (evaluation : Evaluation) (position : Nat)
    (front back : List Token) :
    warningsFrom check evaluation position (front ++ back) =
      warningsFrom check evaluation position front ++
        warningsFrom check (front.foldl (read check) evaluation) (position + front.length)
          back := by
  induction front generalizing evaluation position with
  | nil => rfl
  | cons token front ih =>
    rw [List.cons_append, warningsFrom_cons, warningsFrom_cons, ih, List.append_assoc,
      List.length_cons, Nat.add_right_comm, ← Nat.add_assoc]
    rfl

theorem warnings_prefix_append (check : OperandCheck) (front back : List Token) :
    warnings check front <+: warnings check (front ++ back) := by
  rw [warnings, warnings, warningsFrom_append]
  exact List.prefix_append _ _

theorem warnings_concat (check : OperandCheck) (tokens : List Token) (token : Token) :
    warnings check (tokens ++ [token]) =
      warnings check tokens ++
        ((ofTokens check tokens).warning? check tokens.length token).toList := by
  rw [warnings, warningsFrom_append, warningsFrom_cons, Nat.zero_add]
  simp only [warningsFrom, List.append_nil]
  rfl

/-- There are as many warnings as operators skipped. -/
theorem length_warnings (check : OperandCheck) (tokens : List Token) :
    (warnings check tokens).length = (ofTokens check tokens).skipped := by
  induction tokens using List.reverseRecOn with
  | nil => rfl
  | append_singleton tokens token ih =>
    rw [warnings_concat, List.length_append, ih, ofTokens_concat, ← skipped_read]

/-! ## The operators skipped -/

theorem skippedAt?_append {position : Nat} (h : position < tokens.length) (back : List Token) :
    skippedAt? check (tokens ++ back) position = skippedAt? check tokens position := by
  rw [skippedAt?, skippedAt?, List.getElem?_append_left h, List.take_append_of_le_length h,
    List.take_append_of_le_length (Nat.le_of_lt h)]

theorem skippedAt?_concat (check : OperandCheck) (tokens : List Token) (token : Token) :
    (skippedAt? check (tokens ++ [token]) tokens.length).map (.skipped · tokens.length) =
      (ofTokens check tokens).warning? check tokens.length token := by
  have hfront : (tokens ++ [token]).take tokens.length = tokens := List.take_left
  have hall : (tokens ++ [token]).take (tokens.length + 1) = tokens ++ [token] :=
    List.take_of_length_le (by simp)
  have hskipped := skipped_read check (ofTokens check tokens) tokens.length token
  rw [skippedAt?, List.getElem?_concat_length, hfront, hall, ofTokens_concat, hskipped]
  cases token with
  | tile t => rfl
  | operator op =>
    simp only [warning?]
    split <;> simp

/-- The warnings are those of the operators skipped, position after position. -/
theorem warnings_eq (check : OperandCheck) (tokens : List Token) :
    warnings check tokens = (List.range tokens.length).filterMap fun position =>
      (skippedAt? check tokens position).map (.skipped · position) := by
  induction tokens using List.reverseRecOn with
  | nil => rfl
  | append_singleton tokens token ih =>
    -- whether an operator is skipped is told by what stands before it
    have hbefore : (List.range tokens.length).filterMap (fun position =>
        (skippedAt? check (tokens ++ [token]) position).map (Event.skipped · position)) =
        warnings check tokens := by
      rw [ih]
      refine List.filterMap_congr fun position hp => ?_
      rw [skippedAt?_append (List.mem_range.mp hp)]
    rw [warnings_concat, List.length_append, List.length_singleton, List.range_succ,
      List.filterMap_append, hbefore, List.filterMap_cons, List.filterMap_nil, skippedAt?_concat]
    cases (ofTokens check tokens).warning? check tokens.length token <;> rfl

theorem skippedAt?_eq_some_iff {position : Nat} {op : Operator} :
    skippedAt? check tokens position = some op ↔ tokens[position]? = some (.operator op) ∧
      Unusable check (ofTokens check (tokens.take position)).operands := by
  rw [skippedAt?]
  cases ht : tokens[position]? with
  | none => simp
  | some token =>
    have hnext : tokens.take (position + 1) = tokens.take position ++ [token] := by
      rw [List.take_add_one, ht, Option.toList_some]
    cases token with
    | tile t => simp
    | operator op' =>
      simp only [hnext, ofTokens_concat, skipped_lt_read_iff, Option.ite_none_right_eq_some,
        Option.some.injEq, Token.operator.injEq]
      exact and_comm

end Evaluation

/-! ## Reports of a table -/

namespace Table

variable {table : Table} {play : Play} {request : Request} {token : Token} {grant : Grant}

theorem answer_of_refused_events (valid : table.rules.validate = .ok ()) {error : RoundError}
    (h : (table.answer request).result = .error error) : (table.answer request).events = [] := by
  rcases answer_cases valid request with ⟨_, hr⟩ | ⟨grant, hok, -⟩
  · rw [hr]
    rfl
  · rw [hok] at h
    cases h

/-- Whatever request is to enter a token, it is answered as entering that token is. -/
theorem answer_eq_append (hr : table.round = .playing play)
    (ht : request.token? play.setup = some token) :
    table.answer request = (table.append token).map .value := by
  cases request with
  | append other =>
    cases ht
    rfl
  | appendTile id =>
    obtain ⟨tile, htile, rfl⟩ := Option.map_eq_some_iff.mp ht
    simp only [answer, appendTile, hr, htile]
  | appendOperator op =>
    cases ht
    rfl
  | start | startWith | removeLast | commit | reset => cases ht

theorem removeLast_of_pop? {shorter : Play} (hr : table.round = .playing play)
    (hp : play.pop? = some (token, shorter)) :
    table.removeLast = ⟨.ok (some token), { table with round := .playing shorter },
      shorter.warnings ++ [.removed token shorter.value]⟩ := by
  simp only [removeLast, hr, hp]

theorem removeLast_of_pop?_none (hr : table.round = .playing play) (hp : play.pop? = none) :
    table.removeLast = ⟨.ok none, table, []⟩ := by
  simp only [removeLast, hr, hp]

/-- What a table reports of requests that need a round in play. -/
structure Reports (table : Table) : Prop where
  refused : ∀ request error, (table.answer request).result = .error error →
    (table.answer request).events = []
  entered : ∀ play request token grant, table.round = .playing play →
    request.token? play.setup = some token → (table.answer request).result = .ok grant →
    ∃ next, (table.answer request).next.round = .playing next ∧
      next.tokens = play.tokens ++ [token] ∧
      (table.answer request).events =
        Evaluation.warnings table.rules.operandCheck next.tokens ++ [.appended token next.value]
  taken : ∀ play token, table.round = .playing play →
    (table.answer .removeLast).result = .ok (.token (some token)) →
    ∃ next, (table.answer .removeLast).next.round = .playing next ∧
      play.tokens = next.tokens ++ [token] ∧
      (table.answer .removeLast).events =
        Evaluation.warnings table.rules.operandCheck next.tokens ++ [.removed token next.value]
  nothing_taken : ∀ play, table.round = .playing play → play.tokens = [] →
    (table.answer .removeLast).result = .ok (.token none) ∧
      (table.answer .removeLast).events = []

theorem Sound.reports (h : table.Sound) : table.Reports where
  refused _ _ := answer_of_refused_events h.valid
  entered play request token grant hr ht hg := by
    rw [answer_eq_append hr ht] at hg ⊢
    cases hp : play.permit token with
    | error error =>
      rw [Reply.map, append_of_permit_error hr hp] at hg
      cases hg
    | ok =>
      rw [append_eq_of_permit hr hp, ← (h.playing play hr).check_eq]
      exact ⟨play.push token, rfl, rfl, rfl⟩
  taken play token hr ht := by
    cases hp : play.pop? with
    | none =>
      rw [answer, removeLast_of_pop?_none hr hp] at ht
      cases ht
    | some popped =>
      obtain ⟨last, shorter⟩ := popped
      rw [answer, removeLast_of_pop? hr hp] at ht ⊢
      cases ht
      obtain ⟨htokens, hshorter⟩ := Play.pop?_eq_some hp
      have hsound := (h.playing play hr).pop hp
      rw [← hsound.check_eq]
      exact ⟨shorter, rfl, htokens, rfl⟩
  nothing_taken play hr hnone := by
    have hp : play.pop? = none := by simp [Play.pop?, hnone]
    rw [answer, removeLast_of_pop?_none hr hp]
    exact ⟨rfl, rfl⟩

/-- Each operator skipped is warned of. Reading a stream gives one warning for each of them, in the
order of the stream, by the operator and its position counted from 0: the operators that find no two
operands they can use. What is warned of in a stream is warned of first when it is read on. A table
that requests have led to reports, whenever a token is entered or taken back, all warnings of the
tokens that it has then, and behind them one line more; and nothing of a request that it refuses, or
if there is no token to be taken back. -/
theorem warns_of_each_skip :
    (∀ (check : OperandCheck) (tokens : List Token),
      (Evaluation.warnings check tokens).length = (Evaluation.ofTokens check tokens).skipped ∧
      Evaluation.warnings check tokens = (List.range tokens.length).filterMap (fun position =>
        (Evaluation.skippedAt? check tokens position).map (.skipped · position)) ∧
      (∀ position op, Evaluation.skippedAt? check tokens position = some op ↔
        tokens[position]? = some (.operator op) ∧
          Evaluation.Unusable check (Evaluation.ofTokens check (tokens.take position)).operands) ∧
      ∀ back, Evaluation.warnings check tokens <+: Evaluation.warnings check (tokens ++ back)) ∧
    (∀ op position, (Event.skipped op position).line =
      "WARN " ++ s!"skipping `{op.text}` at position {position}: not enough operands") ∧
    (∀ token value,
      (Event.appended token value).line =
        "DEBUG " ++ s!"appended `{token.text}`, value now {Event.valueText value}" ∧
      (Event.removed token value).line =
        "DEBUG " ++ s!"removed `{token.text}`, value now {Event.valueText value}") ∧
    ∀ table : Table, table.Reachable → table.Reports := by
  refine ⟨fun check tokens => ?_, fun _ _ => rfl, fun _ _ => ⟨rfl, rfl⟩, fun _ h => h.sound.reports⟩
  exact ⟨Evaluation.length_warnings check tokens, Evaluation.warnings_eq check tokens,
    fun _ _ => Evaluation.skippedAt?_eq_some_iff, Evaluation.warnings_prefix_append check tokens⟩

/-- An addition without operands and a division with one are warned of, each time anew. -/
theorem warns_of_each_skip_twice :
    ∃ table, table = (standard 42).after
        [.startWith ⟨532, Setup.inSlots [100, 10, 4, 3, 3, 7], Setup.inSlots_placed (by decide)⟩,
          .appendOperator .add, .appendTile ⟨1⟩] ∧
      table.Reachable ∧
      (table.answer (.appendOperator .divide)).events =
        [.skipped .add 0, .skipped .divide 2, .appended (.operator .divide) (some 10.0)] ∧
      (table.answer .removeLast).events = [.skipped .add 0, .removed (.tile ⟨⟨1⟩, 10⟩) none] ∧
      (table.answer (.appendTile ⟨1⟩)).events = [] := by
  have hreachable : Reachable ((standard 42).after
      [.startWith ⟨532, Setup.inSlots [100, 10, 4, 3, 3, 7], Setup.inSlots_placed (by decide)⟩,
        .appendOperator .add, .appendTile ⟨1⟩]) := ⟨_, _, .standard 42, rfl⟩
  obtain ⟨-, -, -, hreports⟩ := warns_of_each_skip
  have h := hreports _ hreachable
  obtain ⟨next, hnext, -, hentered⟩ := h.entered _ (.appendOperator .divide) _ _ rfl rfl rfl
  obtain ⟨shorter, hshorter, -, htaken⟩ := h.taken _ (.tile ⟨⟨1⟩, 10⟩) rfl rfl
  refine ⟨_, rfl, hreachable, ?_, ?_, h.refused (.appendTile ⟨1⟩) (.tileUsed ⟨1⟩) rfl⟩
  · obtain rfl := Round.playing.inj hnext
    rw [hentered]
    rfl
  · obtain rfl := Round.playing.inj hshorter
    rw [htaken]
    rfl

end Table

end TargetTiles
