import ScriptLens.Proofs.Reading.Lookahead
import ScriptLens.Proofs.Reading.Program

/-!
What an error says is so. Reading stops at the first token with which no program could go on, and what was
expected in its place would have let one go on.
-/

namespace ScriptLens

/-- Some token is always expected, but for a level too many. -/
theorem Expected.exists_admitted {expected : Expected} (shallow : expected ≠ .shallowerNesting) :
    ∃ next, expected.Admits next := by
  obtain ⟨value, head⟩ : ∃ value : Expr.Derivation .whole, value.tokens.head? = some ⟨.number, "0", .start⟩ := by
    obtain ⟨value, -, -, tokens, -⟩ :=
      (Expr.Derivation.leaf ⟨⟨.number, "0", .start⟩, .inl rfl⟩).exists_alone .whole
    exact ⟨value, by rw [tokens]; rfl⟩
  cases expected with
  | statement =>
    exact ⟨_, .returnValue ⟨⟨.keyword, "return", .start⟩, rfl⟩ ⟨value, ⟨⟨.semicolon, ";", .start⟩, rfl⟩⟩, rfl⟩
  | expression => exact ⟨_, value, head⟩
  | identifier => exact ⟨⟨.identifier, "", .start⟩, rfl⟩
  | token kind => exact ⟨⟨kind, "", .start⟩, rfl⟩
  | shallowerNesting => exact absurd rfl shallow

namespace Program
open Reader Stmt

/-- Some program starts like this. -/
def GoesOn (before : List Token) : Prop := ∃ after, before ++ after ∈ language

theorem goesOn_of_admitted {tokens rest : List Token} {fault : Fault}
    (failed : untilEnd [] tokens = .error fault rest) :
    ∃ before, tokens = before ++ rest ∧ ∀ next, fault.expected.Admits next → GoesOn (before ++ [next]) := by
  have explained := untilEnd_viable [] tokens
  rw [failed] at explained
  obtain ⟨before, same, goesOn⟩ := explained
  refine ⟨before, same, fun next admitted => ?_⟩
  obtain ⟨after, member⟩ := goesOn next admitted
  exact ⟨after, by rwa [List.append_assoc]⟩

/-- The offending token is in the way, whatever stands behind it. -/
theorem untilEnd_fails_again {before after : List Token} {next : Token} {fault : Fault}
    (failed : untilEnd [] (before ++ next :: after) = .error fault (next :: after)) (other : List Token) :
    untilEnd [] (before ++ next :: other) = .error fault (next :: other) := by
  have again := (untilEnd_nearsighted []).blind _ before next after rfl (by rw [failed]; rfl) other
  rwa [failed] at again

theorem ahead_append_cons {before after : List Token} {next : Token}
    (endless : Input.Endless (before ++ next :: after)) (other : List Token) :
    ∃ behind, (Input.ofTokens (before ++ next :: other)).ahead = before ++ next :: behind := by
  have front : ∀ token ∈ before ++ [next], (token.kind != .endOfInput) = true := by
    intro token member
    have ends := endless token (by simp at member ⊢; grind)
    simpa using ends
  refine ⟨other.takeWhile fun token => token.kind != .endOfInput, ?_⟩
  rw [List.append_cons, Input.ofTokens, List.takeWhile_append_of_pos front, List.append_assoc]
  rfl

theorem parse_fails_again {before after : List Token} {next : Token} {fault : Fault}
    (endless : Input.Endless (before ++ next :: after))
    (failed : untilEnd [] (before ++ next :: after) = .error fault (next :: after)) (other : List Token) :
    (Input.ofTokens (before ++ next :: other)).parse.1 = .error ⟨fault, next⟩ := by
  obtain ⟨behind, whole⟩ := ahead_append_cons endless other
  have reads : (Input.ofTokens (before ++ next :: other)).parse =
      (.error ⟨fault, next⟩, ⟨next :: behind, (Input.ofTokens (before ++ next :: other)).stop⟩) := by
    rw [Input.parse_eq_error_iff, whole]
    exact ⟨untilEnd_fails_again failed behind, rfl, rfl⟩
  rw [reads]

/-- What was read goes on to a program, with whatever was expected. With the token that was found it does not,
and the error is the same whatever follows that token. -/
theorem parse_error_earliest {tokens : List Token} (endless : Input.Endless tokens) {error : SyntaxError}
    {after : Input} (failed : (Input.ofTokens tokens).parse = (.error error, after))
    (shallow : error.expected ≠ .shallowerNesting) :
    ∃ before, tokens = before ++ after.ahead ∧ error.found = after.ahead.headD (Input.ofTokens tokens).stop ∧
      GoesOn before ∧
      (∀ next rest, after.ahead = next :: rest → ∀ other, before ++ next :: other ∉ language ∧
        (Input.ofTokens (before ++ next :: other)).parse.1 = .error error) ∧
      (after.ahead = [] → tokens ∉ language) ∧
      (∃ next, error.expected.Admits next) ∧
      ∀ next, error.expected.Admits next → GoesOn (before ++ [next]) := by
  obtain ⟨failed, found, -⟩ := Input.parse_eq_error_iff.1 failed
  rw [Input.ahead_ofTokens endless] at failed
  have underivable {tokens rest : List Token} (failed : untilEnd [] tokens = .error error.toFault rest) :
      tokens ∉ language := fun member => shallow (expected_of_mem_language member failed)
  obtain ⟨before, same, goesOn⟩ := goesOn_of_admitted failed
  obtain ⟨next, admitted⟩ := Expected.exists_admitted shallow
  have front : GoesOn before := by
    obtain ⟨others, member⟩ := goesOn next admitted
    rw [List.append_assoc] at member
    exact ⟨_, member⟩
  refine ⟨before, same, found, front, ?_, fun _ => underivable failed, ⟨next, admitted⟩, goesOn⟩
  intro token rest ahead other
  obtain ⟨fault, place⟩ := error
  rw [ahead] at same found failed
  subst same
  obtain rfl : place = token := found
  exact ⟨underivable (untilEnd_fails_again failed other), parse_fails_again endless failed other⟩

/-- Behind `var` a semicolon is one token too early, and any name would do in its place. -/
theorem parse_error_nameless :
    let word : Token := ⟨.keyword, "var", .start⟩
    let semicolon : Token := ⟨.semicolon, ";", ⟨1, 5⟩⟩
    let error : SyntaxError := ⟨⟨.declaration, .identifier⟩, semicolon⟩
    (Input.ofTokens [word, semicolon]).parse.1 = .error error ∧ GoesOn [word] ∧
      (∀ other, word :: semicolon :: other ∉ language ∧
        (Input.ofTokens (word :: semicolon :: other)).parse.1 = .error error) ∧
      ∀ name, name.kind = .identifier → GoesOn [word, name] := by
  intro word semicolon error
  have endless : Input.Endless [word, semicolon] := by simp [Input.Endless, word, semicolon]
  have reads : statement.read [word, semicolon] = .error ⟨.declaration, .identifier⟩ [semicolon] := rfl
  have failed : (Input.ofTokens [word, semicolon]).parse =
      (.error error, ⟨[semicolon], (Input.ofTokens [word, semicolon]).stop⟩) := by
    refine Input.parse_eq_error_iff.2 ⟨?_, rfl, rfl⟩
    rw [Input.ahead_ofTokens endless]
    exact untilEnd_of_error reads []
  obtain ⟨before, same, -, front, behind, -, -, goesOn⟩ := parse_error_earliest endless failed (by decide)
  change [word] ++ [semicolon] = before ++ [semicolon] at same
  obtain rfl : [word] = before := List.append_cancel_right same
  exact ⟨by rw [failed], front, behind semicolon [] rfl, goesOn⟩

end Program
end ScriptLens
