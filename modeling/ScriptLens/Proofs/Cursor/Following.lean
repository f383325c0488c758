import ScriptLens.Proofs.Cursor.Outcomes
import ScriptLens.Proofs.Reading.Outcome

/-!
What a cursor shows of the tokens (`Cursor.input`), and what it means that a procedure does with a cursor what a reader
does with tokens (`Procedure.Follows`): both come to the same answer, the cursor shows what the reader leaves, and as
many levels are open as before.
-/

namespace ScriptLens

namespace Input

/-- One more token in front, unless it is the end. -/
def cons (token : Token) (rest : Input) : Input :=
  if token.kind = .endOfInput then ⟨[], token⟩ else ⟨token :: rest.ahead, rest.stop⟩

/-- The input behind a place. Where nothing follows, that place is the end. -/
def following (place : Location) : List Token → Input
  | [] => ⟨[], .endOfInput place⟩
  | token :: rest => cons token (following token.finish rest)

theorem following_eq (place : Location) (tokens : List Token) :
    following place tokens =
      ⟨tokens.takeWhile fun token => token.kind != .endOfInput,
        (tokens.find? fun token => token.kind == .endOfInput).getD (.endOfInput
          (((tokens.takeWhile fun token => token.kind != .endOfInput).getLast?.map Token.finish).getD place))⟩ := by
  induction tokens generalizing place with
  | nil => rfl
  | cons token rest ih =>
    rw [following, ih, cons]
    by_cases ending : token.kind = .endOfInput
    · simp [ending]
    · rw [if_neg ending, List.takeWhile_cons_of_pos (by simpa using ending),
        List.find?_cons_of_neg (by simpa using ending), List.getLast?_cons]
      cases (rest.takeWhile fun token => token.kind != .endOfInput).getLast? <;> rfl

theorem ofTokens_eq_following (tokens : List Token) : ofTokens tokens = following .start tokens :=
  (following_eq .start tokens).symm

/-- The token in front. -/
def current (input : Input) : Token := input.ahead.headD input.stop

end Input

namespace Cursor

/-- What is still to be read. -/
def input (cursor : Cursor) : Input := .cons cursor.current (.following cursor.finish cursor.coming)

theorem input_ofTokens (tokens : List Token) : (ofTokens tokens).input = Input.ofTokens tokens := by
  rw [Input.ofTokens_eq_following]
  cases tokens with
  | nil => rfl
  | cons token rest => rfl

/-- Either the end is ahead, or a token is that can be taken. -/
theorem input_cases (cursor : Cursor) :
    cursor.current.kind = .endOfInput ∧ cursor.input = ⟨[], cursor.current⟩ ∨
      cursor.current.kind ≠ .endOfInput ∧
        cursor.input = ⟨cursor.current :: cursor.next.input.ahead, cursor.next.input.stop⟩ := by
  by_cases ending : cursor.current.kind = .endOfInput
  · exact .inl ⟨ending, if_pos ending⟩
  · have same : cursor.next.input = .following cursor.finish cursor.coming := by
      unfold next
      cases coming : cursor.coming with
      | nil => rfl
      | cons token rest => rfl
    exact .inr ⟨ending, by rw [same]; exact if_neg ending⟩

theorem current_input (cursor : Cursor) : cursor.input.current = cursor.current := by
  obtain ⟨-, shown⟩ | ⟨-, shown⟩ := cursor.input_cases <;> rw [shown] <;> rfl

theorem kind_of_done {cursor : Cursor} (done : cursor.input.ahead = []) : cursor.current.kind = .endOfInput := by
  obtain ⟨ending, -⟩ | ⟨-, shown⟩ := cursor.input_cases
  · exact ending
  · rw [shown] at done
    contradiction

theorem shows {cursor : Cursor} {token : Token} {rest : List Token} (ahead : cursor.input.ahead = token :: rest) :
    cursor.current = token ∧ token.kind ≠ .endOfInput ∧ cursor.next.input.ahead = rest := by
  obtain ⟨-, shown⟩ | ⟨real, shown⟩ := cursor.input_cases
  · rw [shown] at ahead
    contradiction
  · rw [shown] at ahead
    obtain ⟨rfl, rfl⟩ := List.cons.inj ahead
    exact ⟨rfl, real, rfl⟩

theorem stop_next {cursor : Cursor} (real : cursor.current.kind ≠ .endOfInput) :
    cursor.next.input.stop = cursor.input.stop := by
  obtain ⟨ending, -⟩ | ⟨-, shown⟩ := cursor.input_cases
  · contradiction
  · rw [shown]

theorem depth_next (cursor : Cursor) : cursor.next.depth = cursor.depth := by
  unfold next
  cases cursor.coming <;> rfl

end Cursor

namespace Procedure
open Reader

variable {α β : Type} {cursor : Cursor}

/-- What has come of a reader, with the token that is found where it failed. -/
def answer (found : Token) : EStateM.Result Fault (List Token) α → Except SyntaxError α
  | .ok value _ => .ok value
  | .error fault _ => .error ⟨fault, found⟩

/-- What has come of a procedure that started at this cursor is what has come of a reader. -/
def Agrees (cursor : Cursor) (outcome : EStateM.Result Fault (List Token) α)
    (outcomes : Set (Except SyntaxError α × Cursor)) : Prop :=
  ∃ after : Cursor, after.depth = cursor.depth ∧ after.input = ⟨left outcome, cursor.input.stop⟩ ∧
    outcomes = {(answer after.current outcome, after)}

/-- A procedure does what a reader does, wherever so many levels are open. -/
def Follows (depth : Nat) (procedure : Procedure α) (read : Reader α) : Prop :=
  ∀ cursor : Cursor, cursor.depth = depth → Agrees cursor (read cursor.input.ahead) (procedure.outcomes cursor)

theorem agrees_pure {tokens : List Token} (ahead : cursor.input.ahead = tokens) (value : α) :
    Agrees cursor (.ok value tokens) ((pure value : Procedure α).outcomes cursor) :=
  ⟨cursor, rfl, by rw [left, ← ahead], outcomes_pure value cursor⟩

theorem agrees_fail {tokens : List Token} (ahead : cursor.input.ahead = tokens) (production : Production)
    (expected : Expected) :
    Agrees cursor (.error ⟨production, expected⟩ tokens) ((fail production expected : Procedure α).outcomes cursor) :=
  ⟨cursor, rfl, by rw [left, ← ahead], outcomes_fail production expected cursor⟩

/-- A token that was taken in front does not matter. -/
theorem Agrees.behind {outcome : EStateM.Result Fault (List Token) α}
    {outcomes : Set (Except SyntaxError α × Cursor)} (agrees : Agrees cursor.next outcome outcomes)
    (real : cursor.current.kind ≠ .endOfInput) : Agrees cursor outcome outcomes := by
  obtain ⟨after, depth, input, same⟩ := agrees
  exact ⟨after, depth.trans cursor.depth_next, by rw [input, Cursor.stop_next real], same⟩

theorem Agrees.goesOn {procedure : Procedure α} {next : α → Procedure β} {value : α} {rest : List Token}
    {outcome : EStateM.Result Fault (List Token) β} (first : Agrees cursor (.ok value rest) (procedure.outcomes cursor))
    (later : ∀ after : Cursor, after.depth = cursor.depth → after.input.ahead = rest →
      Agrees after outcome ((next value).outcomes after)) :
    Agrees cursor outcome ((procedure >>= next).outcomes cursor) := by
  obtain ⟨middle, depth, input, same⟩ := first
  obtain ⟨after, depth', input', same'⟩ := later middle depth (congrArg Input.ahead input)
  rw [bind_of_returns same]
  exact ⟨after, depth'.trans depth, by rw [input', input], same'⟩

theorem Agrees.stops {procedure : Procedure α} {fault : Fault} {rest : List Token}
    (first : Agrees cursor (.error fault rest) (procedure.outcomes cursor)) (next : α → Procedure β) :
    Agrees cursor (.error fault rest) ((procedure >>= next).outcomes cursor) := by
  obtain ⟨middle, depth, input, same⟩ := first
  exact ⟨middle, depth, input, bind_of_throws same⟩

namespace Follows

variable {depth : Nat}

theorem pure (value : α) : Follows depth (Pure.pure value) (Pure.pure value) := fun _ _ => agrees_pure rfl value

theorem bind {procedure : Procedure α} {next : α → Procedure β} {read : Reader α} {following : α → Reader β}
    (first : Follows depth procedure read) (later : ∀ value, Follows depth (next value) (following value)) :
    Follows depth (procedure >>= next) (read >>= following) := by
  intro cursor same
  have start := first cursor same
  cases outcome : read cursor.input.ahead with
  | ok value rest =>
    rw [outcome] at start
    rw [Reader.bind_of_ok outcome]
    exact start.goesOn fun after kept shown => shown ▸ later value after (kept.trans same)
  | error fault rest =>
    rw [outcome] at start
    rw [Reader.bind_of_error outcome]
    exact start.stops next

theorem of_body {routine : Routine α} {read : Reader α} (follows : Follows depth routine.body read) :
    Follows depth (run routine) read := by
  intro cursor same
  rw [outcomes_run]
  exact follows cursor same

/-- The end is never taken. -/
theorem take {kind : Kind} (real : kind ≠ .endOfInput) (production : Production) (expected : Expected) :
    Follows depth (Procedure.take kind production expected) (Reader.take kind ⟨production, expected⟩) := by
  intro cursor _
  rw [Procedure.take, peek_bind]
  cases ahead : cursor.input.ahead with
  | nil =>
    rw [if_neg (Cursor.kind_of_done ahead ▸ Ne.symm real)]
    exact agrees_fail ahead production expected
  | cons token rest =>
    obtain ⟨rfl, open_, left⟩ := Cursor.shows ahead
    rw [Reader.take]
    split
    · rw [outcomes_advance]
      exact (agrees_pure left cursor.current).behind open_
    · exact agrees_fail ahead production expected

end Follows

/-- The level is open inside only, whatever comes of it. -/
theorem Agrees.nested {inner : Procedure α} {outcome : EStateM.Result Fault (List Token) α}
    (agrees : Agrees cursor.deeper outcome (inner.outcomes cursor.deeper)) (room : cursor.depth < nestingLimit)
    (production : Production) : Agrees cursor outcome ((Procedure.nested production inner).outcomes cursor) := by
  obtain ⟨after, depth, input, same⟩ := agrees
  exact ⟨after.shallower, congrArg (· - 1) depth, input, nested_of_room room production same⟩

theorem agrees_taken {token : Token} {rest : List Token} (ahead : cursor.input.ahead = token :: rest)
    {next : Token → Procedure α} {read : Reader α} (follows : Follows cursor.depth (next token) read) :
    Agrees cursor (read rest) ((advance >>= next).outcomes cursor) := by
  obtain ⟨rfl, real, left⟩ := Cursor.shows ahead
  rw [advance_bind, ← left]
  exact (follows _ cursor.depth_next).behind real

theorem agrees_opened {token : Token} {rest : List Token} (ahead : cursor.input.ahead = token :: rest)
    (room : cursor.depth < nestingLimit) (production : Production) {next : Token → Procedure α} {read : Reader α}
    (follows : Follows (cursor.depth + 1) (next token) read) :
    Agrees cursor (read rest) ((nested production (advance >>= next)).outcomes cursor) := by
  have inside : cursor.deeper.input.ahead = token :: rest := ahead
  exact Agrees.nested (agrees_taken inside follows) room production

end Procedure
end ScriptLens
