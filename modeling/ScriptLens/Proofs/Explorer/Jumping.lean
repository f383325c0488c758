import ScriptLens.Proofs.Explorer.Run
import ScriptLens.Proofs.Lines
import ScriptLens.Proofs.Provenance

/-!
The jump to the first error. It goes by the place of the error, and that is the place of one token at most
(`index_of_location`), and of none if the error is at the end of the source (`location_lt_end`).
-/

namespace ScriptLens

section
variable {source : String} {token last : Token}

theorem location_lt_finish (member : token ∈ lex source) : token.location < token.finish := by
  have present := List.length_pos_iff.2 (lexed_of_mem_lex token member).1.ne_nil
  rw [String.length_toList] at present
  exact .inr ⟨rfl, Nat.lt_add_of_pos_right present⟩

/-- No two tokens stand at the same place. -/
theorem index_of_location {index other : Nat} {token' : Token} (here : (lex source)[index]? = some token)
    (there : (lex source)[other]? = some token') (same : token'.location = token.location) : other = index := by
  have distinct : ((lex source).map Token.location).Nodup :=
    List.pairwise_map.2 ((lex_increasing source).imp Location.ne_of_lt)
  obtain ⟨inside, -⟩ := List.getElem?_eq_some_iff.1 there
  refine (List.getElem?_inj (by rwa [List.length_map]) distinct).1 ?_
  rw [List.getElem?_map, List.getElem?_map, there, here, Option.map_some, Option.map_some, same]

/-- All tokens stand in front of the end. -/
theorem location_lt_end (final : (lex source).getLast? = some last) (member : token ∈ lex source) :
    token.location < last.finish := by
  obtain ⟨front, split⟩ := List.getLast?_eq_some_iff.1 final
  have closing := location_lt_finish (List.mem_of_getLast? final)
  have increasing := lex_increasing source
  rw [split] at increasing member
  rcases List.mem_append.1 member with before | here
  · exact Location.lt_trans ((List.pairwise_append.1 increasing).2.2 token before last List.mem_cons_self) closing
  · obtain rfl := List.mem_singleton.1 here
    exact closing

theorem findIdx?_location {index : Nat} (here : (lex source)[index]? = some token) :
    ((lex source).toArray.findIdx? fun other => other.location == token.location) = some index := by
  obtain ⟨inside, same⟩ := List.getElem?_eq_some_iff.1 here
  refine Array.findIdx?_eq_some_iff_getElem.2 ⟨inside, by simp [same], fun other before found => ?_⟩
  have there : (lex source)[other]? = some (lex source)[other] := List.getElem?_eq_getElem (Nat.lt_trans before inside)
  have again := index_of_location here there (by simpa using found)
  omega

theorem findIdx?_finish (final : (lex source).getLast? = some last) :
    ((lex source).toArray.findIdx? fun other => other.location == last.finish) = none := by
  refine Array.findIdx?_eq_none_iff.2 fun token member => ?_
  have less := location_lt_end final (List.mem_toArray.1 member)
  exact beq_false_of_ne (Location.ne_of_lt less)

end

/-- What is come to by looking for the place of an error, the token found there or else the last one, is on its line. -/
theorem exists_token_found {source : String} {error : SyntaxError} (member : error ∈ (Program.recover source).errors) :
    ∃ index token, (lex source)[index]? = some token ∧
      (((lex source).toArray.findIdx? fun token => token.location == error.location).getD
        ((lex source).length - 1)) = index ∧
      token.location.line = error.location.line ∧
      (error.found.kind ≠ .endOfInput → token = error.found ∧
        ∀ other, (lex source)[other]? = some error.found → other = index) ∧
      (error.found.kind = .endOfInput → index + 1 = (lex source).length) := by
  rcases Program.found_of_mem_recover member with real | ⟨last, final, ending⟩
  · obtain ⟨index, here⟩ := List.mem_iff_getElem?.1 real
    have lookup := congrArg (Option.getD · ((lex source).length - 1)) (findIdx?_location here)
    refine ⟨index, error.found, here, lookup, rfl, fun _ => ⟨rfl, fun other there => ?_⟩, fun ending => ?_⟩
    · exact index_of_location here there rfl
    · exact absurd ending (Lexer.endless_lex source _ real)
  · have here : (lex source)[(lex source).length - 1]? = some last := by rwa [← List.getLast?_eq_getElem?]
    have place : error.location = last.finish := by
      rw [SyntaxError.location, ending]
      rfl
    refine ⟨_, last, here, by rw [place, findIdx?_finish final]; rfl, by rw [place]; rfl, fun real => ?_, fun _ => ?_⟩
    · exact absurd (by rw [ending]; rfl) real
    · have present := (List.getElem?_eq_some_iff.1 here).1
      omega

namespace Explorer.Session

variable {source : String} {session : Session} {error : SyntaxError} {later : List SyntaxError}

theorem selectError_eq (document : session.document = .ofSource source)
    (errors : session.document.errors = error :: later) {index : Nat} {token : Token}
    (found : (((lex source).toArray.findIdx? fun token => token.location == error.location).getD
      ((lex source).length - 1)) = index)
    (here : (lex source)[index]? = some token) :
    session.selectError = { session with
      selected := some index
      view := { session.view with reveal := some token.location.line, follow := true }
      status := error.message } := by
  have tokens : session.document.tokens = (lex source).toArray := by rw [document]; rfl
  have here : session.document.tokens[index]? = some token := by rwa [tokens, List.getElem?_toArray]
  unfold selectError
  rw [errors, tokens]
  dsimp only
  rw [List.size_toArray, found, session.select_eq here]

/-- Every error finds a token, or the end behind the last token, so it is on a line of the source where a token stands.
The jump selects that token, which is the only one of its kind, text and place, or the last one, and tells the error.
Without an error it says so and does nothing else. -/
theorem errors_jump (source : String) (events : List Event) :
    let document : Document := .ofSource source
    let session := (start document).run events
    (∀ error ∈ document.errors, error.found ∈ lex source ∨
      ∃ last, (lex source).getLast? = some last ∧ error.found = .endOfInput last.finish) ∧
    (∀ line ∈ document.errorLines, (∃ token ∈ lex source, token.location.line = line) ∧
      1 ≤ line ∧ line ≤ (Text.lines source).length) ∧
    (document.errors = [] → session.press (.char 'e') = { session with status := "No syntax errors" }) ∧
    ∀ error later, document.errors = error :: later → ∃ index token, (lex source)[index]? = some token ∧
      session.press (.char 'e') = { session with
        selected := some index
        view := { session.view with reveal := some token.location.line, follow := true }
        status := error.message } ∧
      (error.found.kind ≠ .endOfInput → token = error.found ∧
        ∀ other, (lex source)[other]? = some error.found → other = index) ∧
      (error.found.kind = .endOfInput → index + 1 = (lex source).length) := by
  intro document session
  have same : session.document = document := run_document _ events
  refine ⟨fun error => Program.found_of_mem_recover, fun line member => ?_, fun none => ?_, fun error later errors => ?_⟩
  · obtain ⟨error, among, rfl⟩ := List.mem_map.1 member
    obtain ⟨index, token, here, -, line, -⟩ := exists_token_found among
    have real := List.mem_of_getElem? here
    have bounds := line_of_mem_lex real
    rw [line] at bounds
    exact ⟨⟨token, real, line⟩, bounds⟩
  · change session.selectError = _
    unfold selectError
    rw [same, none]
  · have among : error ∈ document.errors := errors ▸ List.mem_cons_self
    obtain ⟨index, token, here, lookup, -, found⟩ := exists_token_found among
    exact ⟨index, token, here, selectError_eq same (by rw [same, errors]) lookup here, found⟩

/-- An assignment without a value: the error is behind its second token, and that one is selected. -/
theorem errors_jump_unfinished :
    let document : Document := .ofSource "a ="
    ∃ error : SyntaxError, document.errors = [error] ∧ error.found = .endOfInput ⟨1, 4⟩ ∧
      ((start document).press (.char 'e')).selected = some 1 ∧
      ((start document).press (.char 'e')).status = error.message := by
  intro document
  let tokens : List Token := [⟨.identifier, "a", .start⟩, ⟨.assign, "=", ⟨1, 3⟩⟩]
  let fault : Fault := ⟨.expression, .expression⟩
  have lexed : lex "a =" = tokens := (Lexer.take_eq_tokens _).symm.trans rfl
  have fails : Program.statement.read tokens = .error fault [] := rfl
  have errors : document.errors = [⟨fault, .endOfInput ⟨1, 4⟩⟩] := by
    change (Program.recover "a =").errors = _
    rw [Program.recover, Input.recover, Input.ahead_ofSource, lexed, Program.salvage_of_error fails, Program.resume,
      Program.salvage, Input.ofSource, lexed]
    rfl
  obtain ⟨-, -, -, jumps⟩ := errors_jump "a =" []
  obtain ⟨index, token, -, pressed, -, atEnd⟩ := jumps _ _ errors
  have second : index = 1 := by
    have behind := atEnd rfl
    rw [lexed] at behind
    exact Nat.succ.inj behind
  change (start document).press (.char 'e') = _ at pressed
  rw [pressed, second]
  exact ⟨_, errors, rfl, rfl, rfl⟩

end Explorer.Session
end ScriptLens
