import ScriptLens.Proofs.Lexeme
import ScriptLens.Proofs.Reparse

/-!
Expressions that were read, printed, and read again. Their tokens are spelt as what they are
(`Expr.Derivation.wellSpelt`), so the printed form is read back just if it opens no more levels than are allowed
(`Program.parse_reprinted`). A chain of operators opens none as it is written, and one for each when it is printed.
-/

namespace ScriptLens
open Lexer

/-- A token as it comes from a text. -/
def Token.Lexed (token : Token) : Prop := Lexeme token.text.toList ∧ token.kind.Spells token.text

theorem lexed_of_mem_lex {source : String} : ∀ token ∈ lex source, token.Lexed := by
  intro token member
  have lexeme := lexeme_of_mem_tokens member
  have own : token.kind = .ofText token.text := kind_of_mem_tokens source.toList .start token member
  exact ⟨lexeme, (Kind.ofText_eq_iff lexeme token.kind).1 own.symm⟩

namespace Token.Lexed

variable {token : Token}

/-- Its text alone is the same token again. -/
theorem tokens_text (lexed : token.Lexed) (place : Location) :
    tokens ⟨token.text.toList, place⟩ = [⟨token.kind, token.text, place⟩] := by
  have whole := (Longest.of_lexeme lexed.1).tokens_append place
  rwa [List.append_nil, tokens_nil, String.ofList_toList, Kind.ofText_of_spells lexed.1 lexed.2] at whole

theorem isAtom (lexed : token.Lexed)
    (atom : token.kind = .number ∨ token.kind = .identifier ∨ token.kind = .boolean) :
    token.IsAtom :=
  ⟨atom, _, lexed.tokens_text .start, rfl⟩

theorem mem_binaryOperators (lexed : token.Lexed) {precedence : Precedence}
    (joins : Precedence.ofToken? token = some precedence) : (token.kind, token.text) ∈ binaryOperators := by
  obtain ⟨kind, text, place⟩ := token
  have spells := lexed.2
  cases kind with
  | keyword =>
    obtain ⟨word, same⟩ := spells
    have read : Token.keyword? ⟨.keyword, text, place⟩ = some word := by
      rw [Token.keyword?, if_pos rfl, Keyword.ofText?_eq_some, same]
    simp only [Precedence.ofToken?, read] at joins
    subst same
    cases word with
    | orKw => simp [binaryOperators, Keyword.text]
    | andKw => simp [binaryOperators, Keyword.text]
    | _ => contradiction
  | _ => simp_all [Precedence.ofToken?, Kind.Spells, Kind.symbol?, binaryOperators]

end Token.Lexed

namespace Expr.Derivation

/-- What was read from a text is spelt as it should be, without blanks in it. -/
theorem wellSpelt {layer : Layer} (derivation : Derivation layer) (lexed : ∀ token ∈ derivation.tokens, token.Lexed) :
    derivation.expr.WellSpelt ∧ derivation.expr.Tight := by
  induction derivation with
  | leaf atom =>
    have lexed := lexed atom.1 (by simp [tokens])
    exact ⟨lexed.isAtom atom.2, .start, lexed.tokens_text .start⟩
  | negate op inner ih =>
    obtain ⟨spelt, tight⟩ := ih fun token member => lexed token (by simp [tokens, member])
    have sign := (lexed op.1 (by simp [tokens])).2
    rw [op.2] at sign
    have text : op.1.text = "-" := (Option.some.inj sign).symm
    exact ⟨⟨op.2, text, spelt⟩, tight⟩
  | parens opening inner closing ih => exact ih fun token member => lexed token (by simp [tokens, member])
  | single inner ih => exact ih lexed
  | join left op right ihLeft ihRight =>
    obtain ⟨spelt, tight⟩ := ihLeft fun token member => lexed token (by simp [tokens, member])
    obtain ⟨spelt', tight'⟩ := ihRight fun token member => lexed token (by simp [tokens, member])
    have operator := (lexed op.1 (by simp [tokens])).mem_binaryOperators op.2
    exact ⟨⟨operator, spelt, spelt'⟩, tight, tight'⟩

end Expr.Derivation

namespace Program
open Stmt

theorem wellSpelt_of_parse {source : String} {e : Expr} {place : Location}
    (read : parse source = .ok [.returnValue e place]) : e.WellSpelt ∧ e.Tight := by
  obtain ⟨derivations, same, -, stmts⟩ := Input.parse_eq_ok_iff.1 read
  rw [Input.ahead_ofSource] at same
  obtain ⟨derivation, rfl, stmt⟩ :
      ∃ derivation, derivations = [derivation] ∧ derivation.stmt = .returnValue e place := by
    cases derivations with
    | nil => contradiction
    | cons derivation others =>
      obtain ⟨first, none⟩ := List.cons.inj stmts
      cases others with
      | nil => exact ⟨derivation, rfl, first⟩
      | cons => contradiction
  cases derivation with
  | returnValue word ending =>
    obtain ⟨rfl, -⟩ := Stmt.returnValue.inj stmt
    apply ending.value.wellSpelt
    intro token member
    have read : token ∈ lex source := by
      rw [← same]
      simp [tokensOf, Derivation.tokens, Expr.Terminated.tokens, member]
    exact lexed_of_mem_lex token read
  | _ => contradiction

/-- What was read as the value of a statement is read again from its printed form if that opens no more levels than
are allowed, and only then. -/
theorem parse_reprinted {source : String} {e : Expr} {place : Location}
    (read : parse source = .ok [.returnValue e place]) :
    ((∃ value place, parse ("return " ++ e.text ++ ";") = .ok [.returnValue value place] ∧ e.sameStructure value) ↔
      e.printedLevels ≤ nestingLimit) ∧
    (nestingLimit < e.printedLevels →
      ∃ error, parse ("return " ++ e.text ++ ";") = .error error ∧ error.expected = .shallowerNesting) := by
  obtain ⟨spelt, tight⟩ := wellSpelt_of_parse read
  obtain ⟨value, place, same, reads, fails⟩ := parse_return spelt
  rw [Expr.trimmed_of_tight tight] at same
  refine ⟨⟨?_, ?_⟩, ?_⟩
  · rintro ⟨other, place', again, -⟩
    exact ((reads _).1 again).1
  · intro shallow
    exact ⟨value, place, (reads _).2 ⟨shallow, rfl⟩, same⟩
  · intro deep
    cases outcome : parse ("return " ++ e.text ++ ";") with
    | ok program => exact absurd ((reads program).1 outcome).1 (Nat.not_le.2 deep)
    | error error => exact ⟨error, rfl, fails error outcome⟩

/-- Ones in a row, with so many plus signs between them. -/
def longSum : Nat → String
  | 0 => "1"
  | count + 1 => longSum count ++ " + 1"

/-- A sum opens no level, and printed it opens one for each sign. -/
theorem exists_derivation_longSum (count : Nat) (place : Location) :
    ∃ derivation : Expr.Derivation (.joined .additive), derivation.tokens = tokens ⟨(longSum count).toList, place⟩ ∧
      derivation.levels = 0 ∧ derivation.expr.printedLevels = count := by
  have one (place : Location) : tokens ⟨"1".toList, place⟩ = [⟨.number, "1", place⟩] :=
    tokens_uncut (by decide) place
  induction count with
  | zero =>
    obtain ⟨alone, -, -, tokens', expr, levels⟩ :=
      (Expr.Derivation.leaf ⟨⟨.number, "1", place⟩, .inl rfl⟩).exists_alone (.joined .additive)
    refine ⟨alone, ?_, levels, ?_⟩
    · rw [tokens', longSum, one]
      rfl
    · rw [expr]
      rfl
  | succ count ih =>
    obtain ⟨left, read, levels, printed⟩ := ih
    have chars : (longSum (count + 1)).toList = (longSum count).toList ++ ' ' :: ("+".toList ++ ' ' :: "1".toList) := by
      rw [longSum, String.toList_append]
      rfl
    obtain ⟨here, behind, between⟩ :=
      @tokens_binary ⟨.plus, "+", .start⟩ (by decide) (longSum count).toList "1".toList place
    rw [one] at between
    obtain ⟨right, -, -, tokens', expr, levels'⟩ :=
      (Expr.Derivation.leaf ⟨⟨.number, "1", behind⟩, .inl rfl⟩).exists_alone Precedence.additive.tighter
    refine ⟨.join left ⟨⟨.plus, "+", here⟩, rfl⟩ right, ?_, ?_, ?_⟩
    · rw [chars, between, Expr.Derivation.tokens, read, tokens']
      rfl
    · rw [Expr.Derivation.levels, levels, levels']
      rfl
    · rw [Expr.Derivation.expr, Expr.printedLevels, printed, expr]
      simp [Expr.Derivation.expr, Expr.printedLevels, Nat.add_comm]

theorem parse_longSum (count : Nat) : ∃ e place,
    parse ("return " ++ longSum count ++ ";") = .ok [.returnValue e place] ∧ e.printedLevels = count := by
  obtain ⟨sum, read, levels, printed⟩ := exists_derivation_longSum count ⟨1, 8⟩
  obtain ⟨value, tokens', expr, levels'⟩ := sum.exists_whole
  obtain ⟨derivation, same, levels'', stmt⟩ := exists_returnValue (tokens'.trans read)
  have ahead : tokensOf [derivation] = (Input.ofSource ("return " ++ longSum count ++ ";")).ahead := by
    rw [same]
    exact (Input.ahead_ofSource _).symm
  have shallow : levelsOf [derivation] ≤ nestingLimit := by
    rw [levelsOf, levelsOf, levels'', levels', levels]
    exact Nat.zero_le _
  have stmts : stmtsOf [derivation] = [.returnValue value.expr .start] := by rw [stmtsOf, stmtsOf, stmt]
  exact ⟨value.expr, .start, Input.parse_eq_ok_iff.2 ⟨[derivation], ahead, shallow, stmts⟩, by rw [expr, printed]⟩

/-- A sum of as many signs as levels are allowed comes back from its printed form. -/
theorem parse_reprinted_longest_sum : ∃ e place,
    parse ("return " ++ longSum 256 ++ ";") = .ok [.returnValue e place] ∧
    ∃ value place, parse ("return " ++ e.text ++ ";") = .ok [.returnValue value place] ∧ e.sameStructure value := by
  obtain ⟨e, place, read, printed⟩ := parse_longSum 256
  exact ⟨e, place, read, (parse_reprinted read).1.2 (Nat.le_of_eq printed)⟩

/-- One sign more, and it is read, but what is printed of it is not. -/
theorem parse_reprinted_too_long : ∃ e place,
    parse ("return " ++ longSum 257 ++ ";") = .ok [.returnValue e place] ∧
    ∀ program, parse ("return " ++ e.text ++ ";") ≠ .ok program := by
  obtain ⟨e, place, read, printed⟩ := parse_longSum 257
  obtain ⟨spelt, -⟩ := wellSpelt_of_parse read
  obtain ⟨value, place', -, reads, -⟩ := parse_return spelt
  refine ⟨e, place, read, ?_⟩
  intro program again
  have shallow := ((reads program).1 again).1
  rw [printed] at shallow
  exact absurd shallow (by decide)

end Program
end ScriptLens
