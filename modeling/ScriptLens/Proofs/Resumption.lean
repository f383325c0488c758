import ScriptLens.Proofs.Concatenation
import ScriptLens.Proofs.Cursor.Program
import ScriptLens.Proofs.Reading.Lookahead

/-!
Calls one after the other on the same input. Whatever calls came before, what is left is the end of the tokens
(`Input.after_leaves`), and it is read as if reading had started there (`Input.replies_resume`). A cursor that goes
through the same calls gives the same answers and has no level open between them (`Cursor.answers_ofTokens`).
-/

namespace ScriptLens

/-- What can be asked for. -/
inductive Call where
  | parse
  | recover

/-- What is answered to a call. -/
inductive Reply where
  | parsed (outcome : Except SyntaxError Program)
  | recovered (recovery : Recovery)

namespace Call

/-- The answer when nothing is left to be read. -/
def nothing : Call → Reply
  | parse => .parsed (.ok [])
  | recover => .recovered ⟨[], []⟩

/-- How the answer is found with a cursor. -/
def answer : Call → Procedure Reply
  | parse => return .parsed (← .attempt (.run (.untilEnd [])) .done)
  | recover => return .recovered (← .run (.salvage [] []))

end Call

namespace Input

def reply (input : Input) : Call → Reply
  | .parse => .parsed input.parse.1
  | .recover => .recovered input.recover.1

/-- What a call leaves. -/
def behind (input : Input) : Call → Input
  | .parse => input.parse.2
  | .recover => input.recover.2

/-- What calls leave, one after the other. -/
def after (input : Input) (calls : List Call) : Input := calls.foldl behind input

/-- The answers to calls, each on what the one before it leaves. -/
def replies (input : Input) : List Call → List Reply
  | [] => []
  | call :: calls => input.reply call :: (input.behind call).replies calls

theorem parse_of_done {input : Input} (done : input.ahead = []) : input.parse = (.ok [], input) := by
  obtain ⟨ahead, stop⟩ := input
  obtain rfl : ahead = [] := done
  simp [parse, Program.untilEnd]

theorem recover_of_done {input : Input} (done : input.ahead = []) : input.recover = (⟨[], []⟩, input) := by
  obtain ⟨ahead, stop⟩ := input
  obtain rfl : ahead = [] := done
  simp [recover, Program.salvage]

/-- Where nothing is left, nothing is read and nothing is wrong any more. -/
theorem replies_of_done {input : Input} (done : input.ahead = []) (calls : List Call) :
    input.replies calls = calls.map Call.nothing := by
  induction calls with
  | nil => rfl
  | cons call calls ih =>
    have stays : input.behind call = input := by
      cases call with
      | parse => exact congrArg Prod.snd (parse_of_done done)
      | recover => exact congrArg Prod.snd (recover_of_done done)
    have answer : input.reply call = call.nothing := by
      cases call with
      | parse => rw [reply, parse_of_done done]; rfl
      | recover => rw [reply, recover_of_done done]; rfl
    rw [replies, stays, ih, answer, List.map_cons]

/-- The token at the end is seen only where others stand in front of it. -/
theorem replies_congr {input other : Input} (same : input.ahead = other.ahead)
    (ends : input.ahead ≠ [] → input.stop = other.stop) (calls : List Call) :
    input.replies calls = other.replies calls := by
  cases tokens : input.ahead with
  | nil => rw [replies_of_done tokens, replies_of_done (same ▸ tokens)]
  | cons token rest =>
    have equal : input = other := by
      obtain ⟨ahead, stop⟩ := input
      obtain ⟨ahead', stop'⟩ := other
      obtain rfl : ahead = ahead' := same
      obtain rfl : stop = stop' := ends (tokens ▸ List.cons_ne_nil _ _)
      rfl
    rw [equal]

theorem parse_leaves (input : Input) : input.parse.2.ahead <:+ input.ahead ∧ input.parse.2.stop = input.stop := by
  have forward := Program.untilEnd_forward [] input.ahead
  unfold parse
  split
  · next program rest outcome =>
    rw [outcome] at forward
    exact ⟨forward, rfl⟩
  · next fault rest outcome =>
    rw [outcome] at forward
    exact ⟨forward, rfl⟩

theorem after_leaves (input : Input) (calls : List Call) :
    (input.after calls).ahead <:+ input.ahead ∧ (input.after calls).stop = input.stop := by
  induction calls generalizing input with
  | nil => exact ⟨List.suffix_rfl, rfl⟩
  | cons call calls ih =>
    have step : (input.behind call).ahead <:+ input.ahead ∧ (input.behind call).stop = input.stop := by
      cases call with
      | parse => exact input.parse_leaves
      | recover => exact ⟨List.nil_suffix, rfl⟩
    obtain ⟨ahead, stop⟩ := ih (input.behind call)
    exact ⟨ahead.trans step.1, stop.trans step.2⟩

/-- What is in front where the last of some tokens are left. -/
theorem headD_append {front : List Token} (endless : Endless front) (back : List Token) :
    (ofTokens back).ahead.headD (ofTokens (front ++ back)).stop =
      back.head?.getD (ofTokens (front ++ back)).stop := by
  cases back with
  | nil => rfl
  | cons token later =>
    by_cases ending : token.kind = .endOfInput
    · have stops : (ofTokens (front ++ token :: later)).stop = token := by
        rw [ofTokens, List.find?_append, find_endOfInput_eq_none endless]
        simp [ending]
      rw [stops]
      simp [ofTokens, ending]
    · simp [ofTokens, ending]

/-- Where some of the tokens have been read, those behind them are read as if they had been alone. -/
theorem exists_drop {tokens : List Token} {here : Input} (suffix : here.ahead <:+ (ofTokens tokens).ahead)
    (same : here.stop = (ofTokens tokens).stop) :
    ∃ place ≤ tokens.length, tokens[place]?.getD (ofTokens tokens).stop = here.current ∧
      here.ahead = (ofTokens (tokens.drop place)).ahead ∧
      ∀ calls, here.replies calls = (ofTokens (tokens.drop place)).replies calls := by
  obtain ⟨front, taken⟩ := suffix
  have endless : Endless front := fun token member => by
    have real := List.mem_takeWhile_imp (taken ▸ List.mem_append_left _ member : token ∈ (ofTokens tokens).ahead)
    simpa using real
  obtain ⟨back, rfl⟩ : ∃ back, tokens = front ++ back := by
    obtain ⟨behind, split⟩ : (ofTokens tokens).ahead <+: tokens := List.takeWhile_prefix _
    exact ⟨here.ahead ++ behind, by rw [← split, ← taken, List.append_assoc]⟩
  obtain ⟨ahead, stop⟩ := ofTokens_append endless back
  have left : here.ahead = (ofTokens back).ahead := List.append_cancel_left (taken.trans ahead)
  refine ⟨front.length, by simp, ?_, by rw [List.drop_left, left], fun calls => ?_⟩
  · rw [List.getElem?_append_right (Nat.le_refl _), Nat.sub_self, ← List.head?_eq_getElem?, ← headD_append endless,
      ← left, ← same]
    rfl
  · rw [List.drop_left]
    exact replies_congr left (fun present => same.trans (stop (left ▸ present))) calls

theorem ahead_of_parse {input : Input} {program : Program} (outcome : input.parse.1 = .ok program) :
    input.parse.2.ahead = [] := by
  unfold parse at outcome ⊢
  split
  · next reads => exact Program.rest_of_untilEnd reads
  · next reads =>
    rw [reads] at outcome
    contradiction

theorem found_of_parse {input : Input} {error : SyntaxError} (outcome : input.parse.1 = .error error) :
    error.found = input.parse.2.current := by
  obtain ⟨-, found, stop⟩ := parse_eq_error_iff.1 (Prod.ext outcome rfl : input.parse = (.error error, input.parse.2))
  rw [found, ← stop]
  rfl

theorem parse_eq_answer (input : Input) :
    let outcome := Program.untilEnd [] input.ahead
    input.parse =
      (Procedure.answer ((Reader.left outcome).headD input.stop) outcome, ⟨Reader.left outcome, input.stop⟩) := by
  unfold parse
  split
  · next reads =>
    rw [reads]
    rfl
  · next reads =>
    rw [reads]
    rfl

/-- Only where nothing is left the end is in front. -/
theorem ahead_of_current {tokens : List Token} {here : Input} (suffix : here.ahead <:+ (ofTokens tokens).ahead)
    (ending : here.current.kind = .endOfInput) : here.ahead = [] := by
  cases ahead : here.ahead with
  | nil => rfl
  | cons token rest =>
    have member : token ∈ (ofTokens tokens).ahead := suffix.subset (by simp [ahead])
    have real := List.mem_takeWhile_imp member
    simp [current, ahead] at ending
    simp [ending] at real

/-- What follows a token that stands for the end is left out. -/
theorem ofTokens_stop {front : List Token} (endless : Endless front) {stop : Token} (ending : stop.kind = .endOfInput)
    (behind : List Token) : ofTokens (front ++ stop :: behind) = ⟨front, stop⟩ := by
  obtain ⟨ahead, -⟩ := ofTokens_append endless (stop :: behind)
  have none_ : (ofTokens (stop :: behind)).ahead = [] := by simp [ofTokens, ending]
  have here := headD_append endless (stop :: behind)
  rw [none_, List.append_nil] at ahead
  rw [none_] at here
  exact congrArg₂ Input.mk ahead here

theorem after_append (input : Input) (calls : List Call) (call : Call) :
    input.after (calls ++ [call]) = (input.after calls).behind call := List.foldl_append

end Input

namespace Cursor

open Procedure

theorem answer_outcomes {cursor : Cursor} (closed : cursor.depth = 0) (call : Call) :
    ∃ after : Cursor, after.depth = 0 ∧ after.input = cursor.input.behind call ∧
      call.answer.outcomes cursor = {(.ok (cursor.input.reply call), after)} := by
  cases call with
  | parse =>
    obtain ⟨after, depth, input, ended⟩ := untilEnd_follows [] cursor closed
    refine ⟨after, depth.trans closed, ?_, ?_⟩
    · rw [input, Input.behind, Input.parse_eq_answer]
    · rw [Call.answer, attempt_bind ended, outcomes_pure, ← after.current_input, input, Input.reply,
        Input.parse_eq_answer]
      rfl
  | recover =>
    obtain ⟨after, depth, input, returns⟩ := salvage_salvages [] [] closed
    exact ⟨after, depth, input, (bind_of_returns returns).trans (outcomes_pure _ after)⟩

theorem answers_outcomes (calls : List Call) {cursor : Cursor} (closed : cursor.depth = 0) :
    ∃ after : Cursor, after.depth = 0 ∧ after.input = cursor.input.after calls ∧
      (calls.mapM Call.answer).outcomes cursor = {(.ok (cursor.input.replies calls), after)} := by
  induction calls generalizing cursor with
  | nil => exact ⟨cursor, closed, rfl, outcomes_pure [] cursor⟩
  | cons call calls ih =>
    obtain ⟨middle, depth, input, returns⟩ := answer_outcomes closed call
    obtain ⟨after, depth', input', returns'⟩ := ih depth
    refine ⟨after, depth', by rw [input', input]; rfl, ?_⟩
    rw [List.mapM_cons, bind_of_returns returns, bind_of_returns returns', outcomes_pure, input]
    rfl

/-- No level stays open behind a call, whatever comes of it, and the cursor shows what is left. -/
theorem answers_ofTokens (tokens : List Token) (calls : List Call) :
    ∃ cursor : Cursor, cursor.depth = 0 ∧ cursor.input = (Input.ofTokens tokens).after calls ∧
      (calls.mapM Call.answer).outcomes (ofTokens tokens) = {(.ok ((Input.ofTokens tokens).replies calls), cursor)} := by
  rw [← input_ofTokens]
  exact answers_outcomes calls rfl

end Cursor

namespace Input

/-- A parser goes on where it stopped. Behind a fault that is in front of the token that was found, with no level open,
and the answers are those of starting there. Otherwise it is the end, where nothing is read and nothing is wrong. A
token that stands for the end is never taken, so what follows it is never seen. -/
theorem replies_resume (tokens : List Token) (calls : List Call) :
    let here := (ofTokens tokens).after calls
    (∃ cursor : Cursor, cursor.depth = 0 ∧ cursor.input = here ∧
      (calls.mapM Call.answer).outcomes (Cursor.ofTokens tokens) =
        {(.ok ((ofTokens tokens).replies calls), cursor)}) ∧
    (∀ error, here.parse.1 = .error error → ∃ place ≤ tokens.length,
      tokens[place]?.getD (ofTokens tokens).stop = error.found ∧ error.found = here.parse.2.current ∧
      here.parse.2.ahead = (ofTokens (tokens.drop place)).ahead ∧
      (∃ cursor : Cursor, cursor.depth = 0 ∧ cursor.current = error.found ∧
        ((calls ++ [Call.parse]).mapM Call.answer).outcomes (Cursor.ofTokens tokens) =
          {(.ok ((ofTokens tokens).replies (calls ++ [Call.parse])), cursor)}) ∧
      (∀ later, here.parse.2.replies later = (ofTokens (tokens.drop place)).replies later) ∧
      (error.found.kind = .endOfInput → ∀ later, here.parse.2.replies later = later.map Call.nothing)) ∧
    (∀ program, here.parse.1 = .ok program →
      here.parse.2.ahead = [] ∧ ∀ later, here.parse.2.replies later = later.map Call.nothing) ∧
    (here.recover.2.ahead = [] ∧ ∀ later, here.recover.2.replies later = later.map Call.nothing) ∧
    ∀ front stop behind, tokens = front ++ stop :: behind → stop.kind = .endOfInput → Endless front →
      here.ahead <:+ front ∧ here.stop = stop ∧
        ∀ other, (ofTokens (front ++ stop :: other)).replies calls = (ofTokens tokens).replies calls := by
  intro here
  obtain ⟨suffix, stays⟩ := (ofTokens tokens).after_leaves calls
  refine ⟨Cursor.answers_ofTokens tokens calls, fun error outcome => ?_, fun program outcome => ?_,
    ⟨rfl, replies_of_done rfl⟩, ?_⟩
  · obtain ⟨further, still⟩ := here.parse_leaves
    obtain ⟨place, bound, found, left, resumes⟩ := exists_drop (further.trans suffix) (still.trans stays)
    obtain ⟨cursor, closed, shown, answers⟩ := Cursor.answers_ofTokens tokens (calls ++ [Call.parse])
    have front := found_of_parse outcome
    refine ⟨place, bound, found.trans front.symm, front, left, ⟨cursor, closed, ?_, answers⟩, resumes, fun ending => ?_⟩
    · rw [← cursor.current_input, shown, after_append, front]
      rfl
    · exact replies_of_done (ahead_of_current (further.trans suffix) (front ▸ ending))
  · have done := ahead_of_parse outcome
    exact ⟨done, replies_of_done done⟩
  · rintro front stop behind rfl ending endless
    have cut := ofTokens_stop endless ending
    exact ⟨suffix.trans (by rw [cut]), stays.trans (by rw [cut]), fun other => by rw [cut, cut]⟩

/-- A brace that starts no statement stops every parse in front of it, until a recovery goes on to the end. What is
behind the end does not matter. -/
theorem replies_resume_brace :
    let brace : Token := ⟨.rightBrace, "\x7d", .start⟩
    let stop : Token := .endOfInput ⟨1, 2⟩
    let tokens := [brace, stop, brace]
    let error : SyntaxError := ⟨⟨.statement, .statement⟩, brace⟩
    (ofTokens tokens).parse.1 = .error error ∧
      (∃ place ≤ tokens.length, tokens[place]?.getD stop = brace ∧
        ∀ later, (ofTokens tokens).parse.2.replies later = (ofTokens (tokens.drop place)).replies later) ∧
      ((ofTokens tokens).after [.recover]).parse.1 = .ok [] ∧
      (∀ later, ((ofTokens tokens).after [.recover]).parse.2.replies later = later.map Call.nothing) ∧
      ∀ other, (ofTokens (brace :: stop :: other)).replies [.parse, .recover] =
        (ofTokens tokens).replies [.parse, .recover] := by
  intro brace stop tokens error
  have reads : Program.statement.read [brace] = .error ⟨.statement, .statement⟩ [brace] := rfl
  have failed : (ofTokens tokens).parse = (.error error, ⟨[brace], stop⟩) :=
    parse_eq_error_iff.2 ⟨Program.untilEnd_of_error reads [], rfl, rfl⟩
  have outcome : (ofTokens tokens).parse.1 = .error error := congrArg Prod.fst failed
  have ended : ((ofTokens tokens).after [.recover]).parse.1 = .ok [] := by rw [parse_of_done rfl]
  have endless : Endless [brace] := by simp [Endless, brace]
  obtain ⟨place, bound, found, -, -, -, resumes, -⟩ := (replies_resume tokens []).2.1 error outcome
  obtain ⟨-, later⟩ := (replies_resume tokens [.recover]).2.2.1 [] ended
  obtain ⟨-, -, apart⟩ := (replies_resume tokens [.parse, .recover]).2.2.2.2 [brace] stop [brace] rfl rfl endless
  exact ⟨outcome, ⟨place, bound, found, resumes⟩, ended, later, apart⟩

end Input
end ScriptLens
