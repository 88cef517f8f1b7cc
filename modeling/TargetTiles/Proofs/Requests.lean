import TargetTiles.Proofs.Dealing
import TargetTiles.Proofs.Playing
import TargetTiles.Table

/-!
# Requests to a table

The commands of a table as data, so that one can speak of every sequence of them. `Table.Grants`
lists once and for all what a granted request gives and what it leaves; `Table.answer_cases` says
that a request is either granted in one of these ways or refused, and that a refusal changes and
reports nothing.
-/

namespace TargetTiles

/-- A command with its arguments. -/
inductive Request where
  | start (large : Nat)
  | startWith (setup : Setup)
  | append (token : Token)
  | appendTile (id : TileId)
  | appendOperator (op : Operator)
  | removeLast
  | commit
  | reset

/-- What a granted request gives. -/
inductive Grant where
  | setup (setup : Setup)
  | value (value : Option Float)
  | token (token : Option Token)
  | outcome (outcome : Outcome)
  | cleared

/-- The token that a request is to enter, if the setup has such a token. -/
def Request.token? (setup : Setup) : Request → Option Token
  | .append token => some token
  | .appendTile id => (setup.tile? id).map .tile
  | .appendOperator op => some (.operator op)
  | _ => none

/-- The reply with its answer put in another form. -/
def Reply.map {σ α β : Type} (f : α → β) (reply : Reply σ α) : Reply σ β :=
  ⟨reply.result.map f, reply.next, reply.events⟩

namespace Table

/-- The reply of the table to a request. -/
def answer (table : Table) : Request → Reply Table Grant
  | .start large => (table.start large).map .setup
  | .startWith setup => (table.startWith setup).map .setup
  | .append token => (table.append token).map .value
  | .appendTile id => (table.appendTile id).map .value
  | .appendOperator op => (table.appendOperator op).map .value
  | .removeLast => table.removeLast.map .token
  | .commit => table.commit.map .outcome
  | .reset => table.reset.map fun _ => .cleared

/-- The table after a sequence of requests, granted or refused. -/
def after (table : Table) (requests : List Request) : Table :=
  requests.foldl (fun table request => (table.answer request).next) table

/-- A table at which nothing has happened yet. -/
inductive Opened : Table → Prop
  | standard (seed : UInt64) : Opened (standard seed)
  | withRules {rules rng table} (h : withRules rules rng = .ok table) : Opened table

/-- A table that some sequence of requests leads to. -/
def Reachable (table : Table) : Prop :=
  ∃ start requests, Opened start ∧ start.after requests = table

/-! ## What a request can do -/

/-- The ways in which a request is granted: the request, what it gives, and the table it leaves. -/
inductive Grants (table : Table) : Request → Grant → Table → Prop
  | start {large setup} (h : (table.rules.deal large table.rng).result = .ok setup) :
      Grants table (.start large) (.setup setup)
        { table with
          rng := (table.rules.deal large table.rng).next
          round := .playing (.fresh setup table.check) }
  | startWith {setup} (h : table.rules.checkSetup setup = .ok ()) :
      Grants table (.startWith setup) (.setup setup)
        { table with round := .playing (.fresh setup table.check) }
  | append {request play token} (h : table.round = .playing play)
      (ht : request.token? play.setup = some token) (hp : play.permit token = .ok ()) :
      Grants table request (.value (play.push token).value)
        { table with round := .playing (play.push token) }
  | removeLast {play token shorter} (h : table.round = .playing play)
      (hp : play.pop? = some (token, shorter)) :
      Grants table .removeLast (.token (some token)) { table with round := .playing shorter }
  | removeNone {play} (h : table.round = .playing play) (hp : play.tokens = []) :
      Grants table .removeLast (.token none) table
  | commit {play} (h : table.round = .playing play) :
      Grants table .commit (.outcome ⟨play.setup.target, play.value.getD 0.0⟩)
        { table with round := .done ⟨play.setup.target, play.value.getD 0.0⟩ }
  | reset : Grants table .reset .cleared { table with round := .initial }

/-- The reply to a request is a refusal that changes and reports nothing, or the request is
granted in one of the ways listed. -/
def Settles (table : Table) (request : Request) (reply : Reply Table Grant) : Prop :=
  (∃ error, reply = .refuse error table) ∨
    ∃ grant, reply.result = .ok grant ∧ table.Grants request grant reply.next

section

variable {table next : Table} {request : Request} {reply : Reply Table Grant}

theorem Settles.of_refused {error : RoundError} (h : reply = .refuse error table) :
    table.Settles request reply := .inl ⟨error, h⟩

theorem Settles.of_granted {grant : Grant} {events : List Event}
    (h : reply = ⟨.ok grant, next, events⟩) (hg : table.Grants request grant next) :
    table.Settles request reply := by
  subst h
  exact .inr ⟨grant, rfl, hg⟩

theorem start_settles (valid : table.rules.validate = .ok ()) (large : Nat) :
    table.Settles (.start large) (table.answer (.start large)) := by
  cases hc : table.rules.checkLarge large with
  | error error =>
    have hd := Rules.deal_of_checkLarge_error hc table.rng
    exact .of_refused (by simp only [answer, start, hd]; rfl)
  | ok =>
    obtain ⟨-, setup, -, -, hd, -⟩ := Rules.deal_of_checkLarge_ok valid hc table.rng
    exact .of_granted (by simp only [answer, start, hd]; rfl) (.start hd)

theorem startWith_settles (table : Table) (setup : Setup) :
    table.Settles (.startWith setup) (table.answer (.startWith setup)) := by
  cases hc : table.rules.checkSetup setup with
  | error error => exact .of_refused (by simp only [answer, startWith, hc]; rfl)
  | ok => exact .of_granted (by simp only [answer, startWith, hc]; rfl) (.startWith hc)

/-- Whatever request is to enter a token, it is settled as entering that token is. -/
theorem append_settles {token : Token}
    (ht : ∀ play, table.round = .playing play → request.token? play.setup = some token) :
    table.Settles request ((table.append token).map .value) := by
  cases hr : table.round with
  | playing play =>
    cases hp : play.permit token with
    | error error => exact .of_refused (by simp only [append, hr, hp]; rfl)
    | ok => exact .of_granted (by simp only [append, hr, hp]; rfl) (.append hr (ht play hr) hp)
  | initial => exact .of_refused (by simp only [append, hr]; rfl)
  | done outcome => exact .of_refused (by simp only [append, hr]; rfl)

theorem appendTile_settles (table : Table) (id : TileId) :
    table.Settles (.appendTile id) (table.answer (.appendTile id)) := by
  cases hr : table.round with
  | playing play =>
    cases ht : play.setup.tile? id with
    | none => exact .of_refused (by simp only [answer, appendTile, hr, ht]; rfl)
    | some tile =>
      simp only [answer, appendTile, hr, ht]
      refine append_settles fun play' hr' => ?_
      obtain rfl : play = play' := Round.playing.inj (hr.symm.trans hr')
      rw [Request.token?, ht]
      rfl
  | initial => exact .of_refused (by simp only [answer, appendTile, hr]; rfl)
  | done outcome => exact .of_refused (by simp only [answer, appendTile, hr]; rfl)

theorem removeLast_settles (table : Table) :
    table.Settles .removeLast (table.answer .removeLast) := by
  cases hr : table.round with
  | playing play =>
    cases hp : play.pop? with
    | none =>
      exact .of_granted (by simp only [answer, removeLast, hr, hp]; rfl)
        (.removeNone hr (Play.pop?_eq_none hp))
    | some popped =>
      exact .of_granted (by simp only [answer, removeLast, hr, hp]; rfl) (.removeLast hr hp)
  | initial => exact .of_refused (by simp only [answer, removeLast, hr]; rfl)
  | done outcome => exact .of_refused (by simp only [answer, removeLast, hr]; rfl)

theorem commit_settles (table : Table) : table.Settles .commit (table.answer .commit) := by
  cases hr : table.round with
  | playing play => exact .of_granted (by simp only [answer, commit, hr]; rfl) (.commit hr)
  | initial => exact .of_refused (by simp only [answer, commit, hr]; rfl)
  | done outcome => exact .of_refused (by simp only [answer, commit, hr]; rfl)

/-- Where the rules are valid, every request is settled one way or the other. -/
theorem answer_cases (valid : table.rules.validate = .ok ()) (request : Request) :
    table.Settles request (table.answer request) := by
  cases request with
  | start large => exact start_settles valid large
  | startWith setup => exact startWith_settles table setup
  | append token => exact append_settles fun _ _ => rfl
  | appendTile id => exact appendTile_settles table id
  | appendOperator op => exact append_settles fun _ _ => rfl
  | removeLast => exact removeLast_settles table
  | commit => exact commit_settles table
  | reset => exact .of_granted rfl .reset

end

end Table

end TargetTiles
