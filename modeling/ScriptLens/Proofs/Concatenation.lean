import ScriptLens.Proofs.Agreement

/-!
Programs one behind the other. A statement is complete without what follows it, but for a condition that a second
branch could still belong to, so what stands behind a program is read as if it stood alone
(`Program.salvage_tokensOf`).
-/

namespace ScriptLens
open Stmt

namespace Input

/-- The tokens in front do not change how the input ends, if any are read behind them. -/
theorem ofTokens_append {front : List Token} (endless : Endless front) (back : List Token) :
    (ofTokens (front ++ back)).ahead = front ++ (ofTokens back).ahead ∧
      ((ofTokens back).ahead ≠ [] → (ofTokens (front ++ back)).stop = (ofTokens back).stop) := by
  have front_ahead : ∀ token ∈ front, (token.kind != .endOfInput) = true := fun token member => by
    simpa using endless token member
  have ahead : (ofTokens (front ++ back)).ahead = front ++ (ofTokens back).ahead :=
    List.takeWhile_append_of_pos front_ahead
  refine ⟨ahead, fun present => ?_⟩
  have last : (front ++ (ofTokens back).ahead).getLast? = (ofTokens back).ahead.getLast? := by
    rw [List.getLast?_append, List.getLast?_eq_some_getLast present]
    rfl
  simp only [ofTokens] at ahead last ⊢
  rw [ahead, last, List.find?_append, find_endOfInput_eq_none endless, Option.none_or]

end Input

namespace Stmt

/-- A condition to which a second branch could still belong. -/
def Unfinished (stmt : Stmt) : Prop := ∃ condition body place, stmt = .ifThen condition body place

theorem Derivation.stopsAt_of_finished {derivation : Derivation} (finished : ¬derivation.stmt.Unfinished)
    (rest : List Token) : derivation.StopsAt rest := by
  cases derivation with
  | ifThen word guard body => exact absurd ⟨_, _, _, rfl⟩ finished
  | _ => trivial

/-- Inside a list of statements only the last could go on with what stands behind the list. -/
theorem Derivation.stopsAt_tokensOf {derivation : Derivation} {others : List Derivation} {rest : List Token}
    (stops : ∀ final ∈ (derivation :: others).getLast?, final.StopsAt rest) :
    derivation.StopsAt (tokensOf others ++ rest) := by
  cases others with
  | nil => exact stops derivation rfl
  | cons other others =>
    obtain ⟨first, behind, same, starts⟩ := other.exists_head
    rw [tokensOf, same]
    exact derivation.stopsAt_of_ends (ends_of_startsStmt starts _)

theorem getLast?_stmtsOf (derivations : List Derivation) :
    (stmtsOf derivations).getLast? = derivations.getLast?.map Derivation.stmt := by
  have map : stmtsOf derivations = derivations.map Derivation.stmt := by
    induction derivations with
    | nil => rfl
    | cons derivation others ih => rw [stmtsOf, ih, List.map_cons]
  rw [map, List.getLast?_map]

end Stmt

namespace Program

theorem salvage_tokensOf {derivations : List Derivation} (shallow : levelsOf derivations ≤ nestingLimit)
    {rest : List Token} (stops : ∀ final ∈ derivations.getLast?, final.StopsAt rest) (stop : Token)
    (before : List Stmt) (errors : List SyntaxError) :
    salvage stop before errors (tokensOf derivations ++ rest) =
      salvage stop ((stmtsOf derivations).reverse ++ before) errors rest := by
  induction derivations generalizing before with
  | nil => rfl
  | cons derivation others ih =>
    rw [levelsOf, Nat.max_le] at shallow
    have reads : statement.read (derivation.tokens ++ (tokensOf others ++ rest)) =
        .ok derivation.stmt (tokensOf others ++ rest) :=
      statement_eq_ok_iff.2 ⟨derivation, rfl, Derivation.stopsAt_tokensOf stops, shallow.1, rfl⟩
    obtain ⟨first, behind, same, -⟩ := derivation.exists_head
    have stops : ∀ final ∈ others.getLast?, final.StopsAt rest := by
      intro final member
      exact stops final (by rw [List.getLast?_cons, Option.mem_def.1 member]; rfl)
    rw [tokensOf, List.append_assoc]
    rw [same, List.cons_append] at reads ⊢
    rw [salvage_of_ok reads, ih shallow.2 stops, stmtsOf, List.reverse_cons, List.append_assoc]
    rfl

theorem recover_append {front back : List Token} (endless : Input.Endless front) {program : Program}
    (read : (Input.ofTokens front).parse.1 = .ok program)
    (apart : ¬((∃ final ∈ program.getLast?, final.Unfinished) ∧ ∃ token ∈ back.head?, token.isKeyword .elseKw)) :
    (Input.ofTokens (front ++ back)).recover.1 =
      ⟨program ++ (Input.ofTokens back).recover.1.program, (Input.ofTokens back).recover.1.errors⟩ := by
  obtain ⟨derivations, same, shallow, rfl⟩ := Input.parse_eq_ok_iff.1 read
  rw [Input.ahead_ofTokens endless] at same
  subst same
  obtain ⟨ahead, stop⟩ := Input.ofTokens_append endless back
  have starts : ∀ token ∈ (Input.ofTokens back).ahead.head?, token ∈ back.head? := by
    intro token member
    rw [Input.ofTokens, List.head?_takeWhile] at member
    exact (Option.mem_filter_iff.1 member).1
  have stops : ∀ final ∈ derivations.getLast?, final.StopsAt (Input.ofTokens back).ahead := by
    intro final member
    by_cases unfinished : final.stmt.Unfinished
    · apply final.stopsAt_of_ends
      intro token head word
      have last : final.stmt ∈ (stmtsOf derivations).getLast? := by
        rw [getLast?_stmtsOf, Option.mem_def.1 member]
        rfl
      exact apart ⟨⟨_, last, unfinished⟩, token, starts token head, by simp [Token.isKeyword, word]⟩
    · exact final.stopsAt_of_finished unfinished _
  have reads := salvage_tokensOf shallow stops (Input.ofTokens (tokensOf derivations ++ back)).stop [] []
  rw [List.append_nil, salvage_eq _ (stmtsOf derivations).reverse, List.reverse_reverse] at reads
  rw [Input.recover, Input.recover, ahead, reads]
  cases rest : (Input.ofTokens back).ahead with
  | nil => simp [salvage]
  | cons token others =>
    rw [stop (by simp [rest])]
    rfl

/-- Behind a program all is read and all errors are found as if they stood alone, unless the program ends in a
condition and `else` stands behind it. -/
theorem parse_append {front back : List Token} (endless : Input.Endless front) {program : Program}
    (read : (Input.ofTokens front).parse.1 = .ok program)
    (apart : ¬((∃ final ∈ program.getLast?, final.Unfinished) ∧ ∃ token ∈ back.head?, token.isKeyword .elseKw)) :
    (∀ later, (Input.ofTokens back).parse.1 = .ok later →
      (Input.ofTokens (front ++ back)).parse.1 = .ok (program ++ later)) ∧
    (∀ error, (Input.ofTokens back).parse.1 = .error error →
      (Input.ofTokens (front ++ back)).parse.1 = .error error) ∧
    (Input.ofTokens (front ++ back)).recover.1.program = program ++ (Input.ofTokens back).recover.1.program ∧
    (Input.ofTokens (front ++ back)).recover.1.errors = (Input.ofTokens back).recover.1.errors := by
  simp only [Input.parse_eq_verdict, recover_append endless read apart]
  refine ⟨fun later reads => ?_, fun error fails => ?_, trivial, trivial⟩
  · obtain ⟨none, rfl⟩ := Recovery.verdict_eq_ok.1 reads
    exact Recovery.verdict_eq_ok.2 ⟨none, rfl⟩
  · obtain ⟨others, found⟩ := Recovery.verdict_eq_error.1 fails
    exact Recovery.verdict_eq_error.2 ⟨others, found⟩

/-- A condition without a second branch, and a semicolon too many behind it. -/
theorem parse_append_semicolon :
    let word : Token := ⟨.keyword, "if", .start⟩
    let name : Token := ⟨.identifier, "a", ⟨1, 5⟩⟩
    let semicolon : Token := ⟨.semicolon, ";", ⟨1, 10⟩⟩
    let front : List Token := [word, ⟨.leftParen, "(", ⟨1, 4⟩⟩, name, ⟨.rightParen, ")", ⟨1, 6⟩⟩,
      ⟨.leftBrace, "\x7b", ⟨1, 8⟩⟩, ⟨.rightBrace, "\x7d", ⟨1, 9⟩⟩]
    let condition : Stmt := .ifThen (.leaf name) [] word.location
    let error : SyntaxError := ⟨⟨.statement, .statement⟩, semicolon⟩
    Input.Endless front ∧ (Input.ofTokens front).parse.1 = .ok [condition] ∧ condition.Unfinished ∧
      (Input.ofTokens (front ++ [semicolon])).parse.1 = .error error ∧
      (Input.ofTokens (front ++ [semicolon])).recover.1.program = [condition] := by
  intro word name semicolon front condition error
  have endless : Input.Endless front := by simp [Input.Endless, front, word, name]
  have alone : Input.Endless [semicolon] := by simp [Input.Endless, semicolon]
  have read : (Input.ofTokens front).parse.1 = .ok [condition] := by
    let value : Expr.Derivation .whole :=
      .single (.single (.single (.single (.single (.single (.leaf ⟨name, .inr (.inl rfl)⟩))))))
    let guard : Expr.Guard := ⟨⟨⟨.leftParen, "(", ⟨1, 4⟩⟩, rfl⟩, value, ⟨⟨.rightParen, ")", ⟨1, 6⟩⟩, rfl⟩⟩
    let body : Block := .braces ⟨⟨.leftBrace, "\x7b", ⟨1, 8⟩⟩, rfl⟩ [] ⟨⟨.rightBrace, "\x7d", ⟨1, 9⟩⟩, rfl⟩
    rw [Input.parse_eq_ok_iff, Input.ahead_ofTokens endless]
    exact ⟨[.ifThen ⟨word, rfl⟩ guard body], rfl, by decide, rfl⟩
  have fails : statement.read [semicolon] = .error ⟨.statement, .statement⟩ [semicolon] := rfl
  have recovered : (Input.ofTokens [semicolon]).recover.1 = ⟨[], [error]⟩ := by
    rw [Input.recover, Input.ahead_ofTokens alone, salvage_of_error fails]
    simp [resume, Token.opensStmt, Token.keyword?, semicolon, salvage, error]
  have apart : ¬((∃ final ∈ [condition].getLast?, final.Unfinished) ∧
      ∃ token ∈ [semicolon].head?, token.isKeyword .elseKw) := by
    simp [Token.isKeyword, Token.keyword?, semicolon]
  obtain ⟨-, same, program, -⟩ := parse_append endless read apart
  rw [Input.parse_eq_verdict, recovered] at same
  rw [recovered] at program
  exact ⟨endless, read, ⟨_, _, _, rfl⟩, same error rfl, program⟩

end Program
end ScriptLens
