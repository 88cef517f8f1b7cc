import Mathlib.Data.List.DropRight
import TargetTiles.Proofs.Acceptance

/-!
# What a history tells of the round

The history of a table is the list of requests made there, each with its result. It mentions no
table, and yet the round can be read off it: the last start, commit or reset that was granted says
which phase the round is in, and the tokens are those entered since then, less those taken back.
The value that a commit settles is the value of these tokens, worked out from the beginning.
-/

namespace TargetTiles

/-! ## Histories -/

/-- A request and what came of it. -/
structure Exchange where
  request : Request
  result : Except RoundError Grant

/-- A start, of a round dealt or of a setup given. -/
def Request.isStart : Request → Bool
  | .start _ | .startWith _ => true
  | _ => false

namespace Exchange

/-- A start, a commit or a reset was granted, so that the round is another one afterwards. -/
def turns (exchange : Exchange) : Bool :=
  match exchange.request, exchange.result with
  | .start _, .ok _ | .startWith _, .ok _ | .commit, .ok _ | .reset, .ok _ => true
  | _, _ => false

/-- The tokens after an exchange, those before it being given. An accepted token comes last; the
last one goes if a token is to be taken back. -/
def move (setup : Setup) (tokens : List Token) (exchange : Exchange) : List Token :=
  match exchange.request, exchange.result with
  | .removeLast, _ => tokens.dropLast
  | request, .ok _ => tokens ++ (request.token? setup).toList
  | _, .error _ => tokens

end Exchange

/-- The last exchange that made the round another one. -/
def lastTurn? (history : List Exchange) : Option Exchange :=
  (history.filter Exchange.turns).getLast?

/-- The exchanges after that one, or all of them if there was none. -/
def sinceTurn (history : List Exchange) : List Exchange := history.rtakeWhile fun e => !e.turns

/-- The tokens that the exchanges since the last turn leave, if there were none before. -/
def netTokens (setup : Setup) (history : List Exchange) : List Token :=
  (sinceTurn history).foldl (Exchange.move setup) []

/-- The requests made at a table, with their results. -/
def Table.history (table : Table) : List Request → List Exchange
  | [] => []
  | request :: requests =>
    ⟨request, (table.answer request).result⟩ :: (table.answer request).next.history requests

/-! ### One exchange more -/

section

variable {history : List Exchange} {exchange : Exchange} {request : Request} {setup : Setup}

theorem lastTurn?_concat_of_turns (h : exchange.turns = true) :
    lastTurn? (history ++ [exchange]) = some exchange := by
  simp [lastTurn?, List.filter_append, h]

theorem lastTurn?_concat_of_stays (h : exchange.turns = false) :
    lastTurn? (history ++ [exchange]) = lastTurn? history := by
  simp [lastTurn?, List.filter_append, h]

theorem netTokens_concat_of_turns (h : exchange.turns = true) :
    netTokens setup (history ++ [exchange]) = [] := by
  simp [netTokens, sinceTurn, h]

theorem netTokens_concat_of_stays (h : exchange.turns = false) :
    netTokens setup (history ++ [exchange]) = exchange.move setup (netTokens setup history) := by
  simp [netTokens, sinceTurn, h]

theorem Exchange.turns_of_refused (request : Request) (error : RoundError) :
    turns ⟨request, .error error⟩ = false := by
  cases request <;> rfl

theorem Exchange.turns_of_token {token : Token} (h : request.token? setup = some token)
    (result : Except RoundError Grant) : turns ⟨request, result⟩ = false := by
  cases request with
  | append | appendTile | appendOperator => rfl
  | start | startWith | removeLast | commit | reset => cases h

theorem Exchange.move_of_token {token : Token} (h : request.token? setup = some token)
    (tokens : List Token) (grant : Grant) :
    move setup tokens ⟨request, .ok grant⟩ = tokens ++ [token] := by
  cases request with
  | append | appendTile | appendOperator => simp only [move, h, Option.toList_some]
  | start | startWith | removeLast | commit | reset => cases h

theorem Exchange.move_of_refused (h : request ≠ .removeLast) (tokens : List Token)
    (error : RoundError) : move setup tokens ⟨request, .error error⟩ = tokens := by
  cases request with
  | removeLast => exact absurd rfl h
  | _ => rfl

end

namespace Table

theorem after_concat (table : Table) (requests : List Request) (request : Request) :
    table.after (requests ++ [request]) = ((table.after requests).answer request).next :=
  List.foldl_concat ..

theorem history_concat (table : Table) (requests : List Request) (request : Request) :
    table.history (requests ++ [request]) =
      table.history requests ++ [⟨request, ((table.after requests).answer request).result⟩] := by
  induction requests generalizing table with
  | nil => rfl
  | cons first requests ih =>
    simp only [List.cons_append, history, ih, after, List.foldl_cons]

end Table

/-! ## The round that a history tells of -/

/-- The round that a history tells of, if operands are checked in this way. -/
inductive Tells (check : OperandCheck) (history : List Exchange) : Round → Prop
  | untouched (h : lastTurn? history = none) : Tells check history .initial
  | started {start setup} (hs : start.isStart = true)
      (h : lastTurn? history = some ⟨start, .ok (.setup setup)⟩) :
      Tells check history
        (.playing ((Play.fresh setup check).withTokens (netTokens setup history)))
  | settled {outcome} (h : lastTurn? history = some ⟨.commit, .ok (.outcome outcome)⟩) :
      Tells check history (.done outcome)
  | cleared (h : lastTurn? history = some ⟨.reset, .ok .cleared⟩) : Tells check history .initial

namespace Tells

variable {check : OperandCheck} {history : List Exchange} {round : Round} {play : Play}
  {request : Request} {grant : Grant}

theorem of_start {start : Request} {setup : Setup} (hs : start.isStart = true) :
    Tells check (history ++ [⟨start, .ok (.setup setup)⟩]) (.playing (.fresh setup check)) := by
  have hturns : Exchange.turns ⟨start, .ok (.setup setup)⟩ = true := by
    cases start with
    | start | startWith => rfl
    | _ => cases hs
  have h : Tells check (history ++ [⟨start, .ok (.setup setup)⟩]) _ :=
    .started hs (lastTurn?_concat_of_turns hturns)
  rwa [netTokens_concat_of_turns hturns] at h

theorem withTokens_self (h : Tells check history (.playing play)) :
    play.withTokens play.tokens = play := by
  cases h
  rfl

/-- An exchange that makes no other round of it moves the tokens of the round in play. -/
theorem move {exchange : Exchange} {tokens : List Token} (h : Tells check history (.playing play))
    (hs : exchange.turns = false) (hm : exchange.move play.setup play.tokens = tokens) :
    Tells check (history ++ [exchange]) (.playing (play.withTokens tokens)) := by
  subst hm
  cases h with
  | started hstart hlast =>
    rw [← lastTurn?_concat_of_stays hs] at hlast
    have hmoved : Tells check (history ++ [exchange]) _ := .started hstart hlast
    rwa [netTokens_concat_of_stays hs] at hmoved

/-- A refusal leaves the round, unless it is to have refused to take back a token in play. -/
theorem refused {round : Round} (h : Tells check history round) (error : RoundError)
    (hr : request = .removeLast → round.phase ≠ .playing) :
    Tells check (history ++ [⟨request, .error error⟩]) round := by
  have hs := Exchange.turns_of_refused request error
  have hlast : lastTurn? (history ++ [⟨request, .error error⟩]) = lastTurn? history :=
    lastTurn?_concat_of_stays hs
  cases round with
  | initial =>
    cases h with
    | untouched h => exact .untouched (hlast.trans h)
    | cleared h => exact .cleared (hlast.trans h)
  | done outcome =>
    cases h with
    | settled h => exact .settled (hlast.trans h)
  | playing play =>
    have hmoved := h.move hs (Exchange.move_of_refused (fun he => hr he rfl) _ error)
    rwa [h.withTokens_self] at hmoved

theorem granted {table next : Table} (h : Tells table.check history table.round)
    (hg : table.Grants request grant next) :
    Tells table.check (history ++ [⟨request, .ok grant⟩]) next.round := by
  cases hg with
  | start => exact of_start rfl
  | startWith => exact of_start rfl
  | append hr ht _ =>
    rw [hr] at h
    exact h.move (Exchange.turns_of_token ht _) (Exchange.move_of_token ht _ _)
  | removeLast hr hp =>
    rw [hr] at h
    obtain ⟨htokens, hshorter⟩ := Play.pop?_eq_some hp
    rw [hshorter]
    refine h.move rfl ?_
    simp only [Exchange.move, htokens, List.dropLast_concat]
  | removeNone hr hp =>
    -- no token goes, and there is no last one that could go
    rw [hr] at h ⊢
    rw [← h.withTokens_self]
    refine h.move rfl ?_
    simp only [Exchange.move, hp, List.dropLast_nil]
  | commit => exact .settled (lastTurn?_concat_of_turns rfl)
  | reset => exact .cleared (lastTurn?_concat_of_turns rfl)

/-! ### Which round it is -/

theorem done_iff (h : Tells check history round) {outcome : Outcome} :
    round = .done outcome ↔ lastTurn? history = some ⟨.commit, .ok (.outcome outcome)⟩ := by
  cases h with
  | untouched h => simp [h]
  | started _ h => simp [h]
  | settled h => simp [h]
  | cleared h => simp [h]

theorem playing_iff (h : Tells check history round) :
    round = .playing play ↔ ∃ start setup, start.isStart = true ∧
      lastTurn? history = some ⟨start, .ok (.setup setup)⟩ ∧
      play = (Play.fresh setup check).withTokens (netTokens setup history) := by
  cases h with
  | untouched h => simp [h]
  | @started start setup hs h =>
    constructor
    · intro hr
      exact ⟨start, setup, hs, h, (Round.playing.inj hr).symm⟩
    · rintro ⟨start', setup', -, h', rfl⟩
      rw [h] at h'
      cases h'
      rfl
  | settled h => simp [h]
  | cleared h => simp [h]

theorem initial_iff (h : Tells check history round) :
    round = .initial ↔
      lastTurn? history = none ∨ lastTurn? history = some ⟨.reset, .ok .cleared⟩ := by
  cases h with
  | untouched h => simp [h]
  | started _ h => simp [h]
  | settled h => simp [h]
  | cleared h => simp [h]

end Tells

namespace Table

variable {table : Table}

theorem Opened.round_eq (h : table.Opened) : table.round = .initial := by
  cases h with
  | standard => rfl
  | withRules h => rw [(withRules_eq_ok_iff.mp h).2]

theorem tells_answered {history : List Exchange} (h : table.Sound)
    (ht : Tells table.rules.operandCheck history table.round) (request : Request) :
    Tells table.rules.operandCheck (history ++ [⟨request, (table.answer request).result⟩])
      (table.answer request).next.round := by
  rcases answer_cases h.valid request with ⟨error, hr⟩ | ⟨grant, hok, hg⟩
  · rw [hr]
    -- taking back a token is never refused in play
    refine ht.refused error fun hrem hp => ?_
    subst hrem
    obtain ⟨taken, htaken⟩ := removeLast_granted_iff.mpr hp
    have hresult := answer_removeLast htaken
    rw [hr] at hresult
    cases hresult
  · rw [hok]
    rw [← h.check_eq] at ht ⊢
    exact ht.granted hg

theorem tells_after (h : table.Opened) (requests : List Request) :
    Tells table.rules.operandCheck (table.history requests) (table.after requests).round := by
  induction requests using List.reverseRecOn with
  | nil =>
    rw [after, List.foldl_nil, h.round_eq]
    exact .untouched rfl
  | append_singleton requests request ih =>
    obtain ⟨hs, hrules⟩ := h.sound.afterwards requests
    rw [history_concat, after_concat, ← hrules]
    exact tells_answered hs (hrules ▸ ih) request

/-- The round is told by the history. A commit that is granted settles the target of the last start
and the value of the tokens entered since then and not taken back, or 0 if they have none. The
round is settled if the last turn was a commit, with the outcome that this commit gave; it is in
play if the last turn was a start, with those tokens; and otherwise there is none. -/
theorem history_tells_round {table : Table} (h : table.Opened) (requests : List Request) :
    let history := table.history requests
    let now := table.after requests
    let check := table.rules.operandCheck
    (∀ outcome, now.commit.result = .ok outcome →
      now.commit.next.round = .done outcome ∧
      ∃ start setup, start.isStart = true ∧
        lastTurn? history = some ⟨start, .ok (.setup setup)⟩ ∧
        outcome.target = setup.target ∧
        outcome.final =
          (Evaluation.ofTokens check (netTokens setup history)).value.getD 0.0) ∧
    (∀ outcome, now.round = .done outcome ↔
      lastTurn? history = some ⟨.commit, .ok (.outcome outcome)⟩) ∧
    (∀ play, now.round = .playing play ↔ ∃ start setup, start.isStart = true ∧
      lastTurn? history = some ⟨start, .ok (.setup setup)⟩ ∧
      play = (Play.fresh setup check).withTokens (netTokens setup history)) ∧
    (now.round = .initial ↔
      lastTurn? history = none ∨ lastTurn? history = some ⟨.reset, .ok .cleared⟩) := by
  intro history now check
  have ht : Tells check history now.round := tells_after h requests
  refine ⟨fun outcome hc => ?_, fun _ => ht.done_iff, fun _ => ht.playing_iff, ht.initial_iff⟩
  obtain ⟨play, hr⟩ := Round.phase_eq_playing_iff.mp (commit_granted_iff.mp ⟨outcome, hc⟩)
  obtain ⟨hresult, hnext⟩ := commit_of_playing hr
  obtain rfl := Except.ok.inj (hresult.symm.trans hc)
  obtain ⟨start, setup, hs, hlast, rfl⟩ := ht.playing_iff.mp hr
  exact ⟨hnext, start, setup, hs, hlast, rfl, rfl⟩

/-- A round is given up for another one, in which there is nothing to be taken back at first. An
operator is taken back, a tile is refused the second time, and 6 times 9 is settled. -/
theorem history_tells_round_restarted :
    (standard 42).Opened ∧ ∃ setup requests,
      setup = ⟨300, Setup.inSlots [50, 6, 6, 2, 9, 1], Setup.inSlots_placed (by decide)⟩ ∧
      requests = [
        .startWith ⟨532, Setup.inSlots [100, 10, 4, 3, 3, 7], Setup.inSlots_placed (by decide)⟩,
        .appendTile ⟨0⟩, .startWith setup, .removeLast, .appendTile ⟨1⟩, .appendOperator .add,
        .removeLast, .appendTile ⟨1⟩, .appendTile ⟨4⟩, .appendOperator .multiply] ∧
      netTokens setup ((standard 42).history requests) =
        [.tile ⟨⟨1⟩, 6⟩, .tile ⟨⟨4⟩, 9⟩, .operator .multiply] ∧
      ∃ outcome, ((standard 42).after requests).commit.result = .ok outcome ∧
        outcome.target = 300 ∧ outcome.final = 54.0 ∧
        ((standard 42).after requests).commit.next.round = .done outcome ∧
        ∃ start taken, start.isStart = true ∧
          lastTurn? ((standard 42).history requests) = some ⟨start, .ok (.setup taken)⟩ ∧
          outcome.target = taken.target ∧
          outcome.final = (Evaluation.ofTokens .presence
            (netTokens taken ((standard 42).history requests))).value.getD 0.0 := by
  refine ⟨.standard 42, _, _, rfl, rfl, by decide +kernel, _, rfl, rfl, by decide +kernel, ?_⟩
  exact (history_tells_round (.standard 42) _).1 _ rfl

end Table

end TargetTiles
