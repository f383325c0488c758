import ScriptLens.Proofs.Lexing
import ScriptLens.Proofs.Printing
import ScriptLens.Proofs.Reading.Program

/-!
Printed expressions are read back. The tokens of the text are those of one derivation, which opens a level for
every operator and a second one for a minus sign in front (`Expr.exists_derivation`).
-/

namespace ScriptLens

/-- The binary operators with their spellings. -/
def binaryOperators : List (Kind × String) :=
  [(.keyword, "or"), (.keyword, "and"), (.equal, "=="), (.notEqual, "!="), (.greater, ">"), (.less, "<"),
    (.plus, "+"), (.minus, "-"), (.times, "*"), (.divide, "/")]

namespace Token

/-- A number, a name or a truth value, whose text is one token of that kind and nothing else but blanks. -/
def IsAtom (token : Token) : Prop :=
  (token.kind = .number ∨ token.kind = .identifier ∨ token.kind = .boolean) ∧
    ∃ single, lex token.text = [single] ∧ single.kind = token.kind

/-- The token without the blanks in its text. -/
def trimmed (token : Token) : Token :=
  match lex token.text with
  | [single] => { token with text := single.text }
  | _ => token

end Token

namespace Expr

/-- Built from tokens that are spelt as what they are. -/
def WellSpelt : Expr → Prop
  | leaf token => token.IsAtom
  | negate op operand => op.kind = .minus ∧ op.text = "-" ∧ operand.WellSpelt
  | binary op left right => (op.kind, op.text) ∈ binaryOperators ∧ left.WellSpelt ∧ right.WellSpelt

def trimmed : Expr → Expr
  | leaf token => .leaf token.trimmed
  | negate op operand => .negate op operand.trimmed
  | binary op left right => .binary op left.trimmed right.trimmed

/-- No leaf has blanks in its text. -/
def Tight : Expr → Prop
  | leaf token => ∃ place, lex token.text = [⟨token.kind, token.text, place⟩]
  | negate _ operand => operand.Tight
  | binary _ left right => left.Tight ∧ right.Tight

theorem trimmed_of_tight {e : Expr} (tight : e.Tight) : e.trimmed = e := by
  induction e with
  | leaf token =>
    obtain ⟨place, single⟩ := tight
    rw [trimmed, Token.trimmed, single]
  | negate op operand ih => rw [trimmed, ih tight]
  | binary op left right ihLeft ihRight => rw [trimmed, ihLeft tight.1, ihRight tight.2]

/-- The most levels that the printed form opens: parentheses around every operator, and a minus sign. -/
def printedLevels : Expr → Nat
  | leaf _ => 0
  | negate _ operand => 2 + operand.printedLevels
  | binary _ left right => 1 + max left.printedLevels right.printedLevels

end Expr

open Lexer

theorem tokens_operator {op : Token} (spelt : (op.kind, op.text) ∈ binaryOperators) (place : Location) :
    tokens ⟨op.text.toList, place⟩ = [⟨op.kind, op.text, place⟩] := by
  have uncut : ∀ pair ∈ binaryOperators, Uncut pair.2 ∧ Kind.ofText pair.2 = pair.1 := by decide
  obtain ⟨whole, kind⟩ := uncut _ spelt
  rw [tokens_uncut whole, kind]

theorem exists_precedence {op : Token} (spelt : (op.kind, op.text) ∈ binaryOperators) (place : Location) :
    ∃ precedence, Precedence.ofToken? ⟨op.kind, op.text, place⟩ = some precedence := by
  have joins : ∀ pair ∈ binaryOperators, (Precedence.ofToken? ⟨pair.1, pair.2, .start⟩).isSome := by decide
  exact Option.isSome_iff_exists.1 (joins _ spelt)

/-- Around two operands an operator stands apart. -/
theorem tokens_binary {op : Token} (spelt : (op.kind, op.text) ∈ binaryOperators) (left right : List Char)
    (place : Location) : ∃ here behind, tokens ⟨left ++ ' ' :: (op.text.toList ++ ' ' :: right), place⟩ =
      tokens ⟨left, place⟩ ++ ⟨op.kind, op.text, here⟩ :: tokens ⟨right, behind⟩ := by
  have spaced (rest : List Char) : Apart (' ' :: rest) := apart_cons (by decide) rest
  let here := (place.advanceBy left).advance ' '
  refine ⟨here, (here.advanceBy op.text.toList).advance ' ', ?_⟩
  rw [tokens_append (spaced _), tokens_blank (by decide), tokens_append (spaced _), tokens_blank (by decide),
    tokens_operator spelt, List.singleton_append]

theorem tokens_negate (operand : List Char) (place : Location) :
    tokens ⟨'-' :: operand, place⟩ = ⟨.minus, "-", place⟩ :: tokens ⟨operand, place.advance '-'⟩ :=
  tokens_symbol (by decide) (fun _ => by simp [cut]) operand place

theorem tokens_parens (inner : List Char) (place : Location) : tokens ⟨'(' :: (inner ++ [')']), place⟩ =
    ⟨.leftParen, "(", place⟩ :: (tokens ⟨inner, place.advance '('⟩ ++
      [⟨.rightParen, ")", (place.advance '(').advanceBy inner⟩]) := by
  have opening : tokens ⟨'(' :: (inner ++ [')']), place⟩ =
      ⟨.leftParen, "(", place⟩ :: tokens ⟨inner ++ [')'], place.advance '('⟩ :=
    tokens_symbol (by decide) (fun _ => by simp [cut]) _ place
  have closing (place : Location) : tokens ⟨[')'], place⟩ = [⟨.rightParen, ")", place⟩] :=
    tokens_uncut (show Uncut ")" by decide) place
  rw [opening, tokens_append (apart_cons (by decide) []), closing]

/-- An atom is read as the token without blanks, wherever it stands. -/
theorem tokens_atom {token : Token} (atom : token.IsAtom) (place : Location) :
    ∃ single : Token.Atom, tokens ⟨token.text.toList, place⟩ = [single.1] ∧ token.trimmed.Same single.1 := by
  obtain ⟨kinds, single, whole, kind⟩ := atom
  have spelt := spelling_tokens token.text.toList place .start
  change _ = (lex token.text).map spelling at spelt
  rw [whole, List.map_singleton, List.map_eq_singleton_iff] at spelt
  obtain ⟨other, same, alike⟩ := spelt
  obtain ⟨kind', text⟩ := Prod.mk.inj alike
  rw [← kind, ← kind'] at kinds
  refine ⟨⟨other, kinds⟩, same, ?_⟩
  rw [Token.trimmed, whole]
  exact ⟨kind.symm.trans kind'.symm, text.symm⟩

namespace Expr

theorem exists_parens {inner : List Char} {place : Location} (whole : Derivation .whole)
    (same : whole.tokens = tokens ⟨inner, place.advance '('⟩) :
    ∃ derivation : Derivation .operand, derivation.tokens = tokens ⟨'(' :: (inner ++ [')']), place⟩ ∧
      derivation.levels = whole.levels + 1 ∧ derivation.expr = whole.expr := by
  refine ⟨.parens ⟨⟨.leftParen, "(", place⟩, rfl⟩ whole
    ⟨⟨.rightParen, ")", (place.advance '(').advanceBy inner⟩, rfl⟩, ?_, rfl, rfl⟩
  rw [tokens_parens, ← same]
  rfl

theorem exists_derivation {e : Expr} (spelt : e.WellSpelt) (place : Location) :
    ∃ derivation : Derivation .operand, derivation.tokens = tokens ⟨e.chars, place⟩ ∧
      derivation.levels = e.printedLevels ∧ e.trimmed.sameStructure derivation.expr := by
  induction e generalizing place with
  | leaf token =>
    obtain ⟨single, whole, same⟩ := tokens_atom spelt place
    exact ⟨.leaf single, whole.symm, rfl, sameStructure_leaf.2 same⟩
  | negate op operand ih =>
    obtain ⟨kind, text, spelt⟩ := spelt
    obtain ⟨inner, read, deep, same⟩ := ih spelt ((place.advance '(').advance '-')
    obtain ⟨whole, -, -, tokens, expr, levels⟩ :=
      (Derivation.negate ⟨⟨.minus, "-", place.advance '('⟩, rfl⟩ inner).exists_alone .whole
    have text' : op.text.toList ++ operand.chars = '-' :: operand.chars := by rw [text]; rfl
    have read' : whole.tokens = Lexer.tokens ⟨op.text.toList ++ operand.chars, place.advance '('⟩ := by
      rw [tokens, text', tokens_negate, ← read]
      rfl
    obtain ⟨derivation, tokens', levels', expr'⟩ := exists_parens whole read'
    refine ⟨derivation, tokens', ?_, ?_⟩
    · rw [levels', levels, Derivation.levels, deep, printedLevels, Nat.add_comm 2]
    · rw [expr', expr]
      exact sameStructure_negate.2 ⟨⟨kind, text⟩, same⟩
  | binary op left right ihLeft ihRight =>
    obtain ⟨spelt, spelt', spelt''⟩ := spelt
    obtain ⟨here, behind, between⟩ := tokens_binary spelt left.chars right.chars (place.advance '(')
    obtain ⟨first, read, deep, same⟩ := ihLeft spelt' (place.advance '(')
    obtain ⟨second, read', deep', same'⟩ := ihRight spelt'' behind
    obtain ⟨precedence, joins⟩ := exists_precedence spelt here
    obtain ⟨whole, tokens, expr, levels⟩ := Derivation.exists_binary first second ⟨_, joins⟩
    rw [read, read', ← between] at tokens
    obtain ⟨derivation, tokens', levels', expr'⟩ := exists_parens whole tokens
    refine ⟨derivation, tokens', ?_, ?_⟩
    · rw [levels', levels, deep, deep', printedLevels, Nat.add_comm]
    · rw [expr', expr]
      exact sameStructure_binary.2 ⟨⟨rfl, rfl⟩, same, same'⟩

end Expr

namespace Lexer

theorem endless_lex (source : String) : Input.Endless (lex source) := by
  intro token member
  rw [kind_of_mem_tokens _ _ token member]
  exact Kind.ofText_ne_endOfInput token.text

end Lexer

theorem Input.ahead_ofSource (source : String) : (ofSource source).ahead = lex source :=
  ahead_ofTokens (Lexer.endless_lex source)

/-- The tokens of a statement that returns a value, if the text by itself has those of the value. -/
theorem exists_returnValue {value : Expr.Derivation .whole} {text : String}
    (same : value.tokens = tokens ⟨text.toList, ⟨1, 8⟩⟩) : ∃ derivation : Stmt.Derivation,
      Stmt.tokensOf [derivation] = lex ("return " ++ text ++ ";") ∧ derivation.levels = value.levels ∧
        derivation.stmt = .returnValue value.expr .start := by
  let place : Location := (Location.start.advanceBy "return".toList).advance ' '
  let ending : Expr.Terminated := ⟨value, ⟨⟨.semicolon, ";", place.advanceBy text.toList⟩, rfl⟩⟩
  refine ⟨.returnValue ⟨⟨.keyword, "return", .start⟩, rfl⟩ ending, ?_, rfl, rfl⟩
  have chars : ("return " ++ text ++ ";").toList = "return".toList ++ ' ' :: (text.toList ++ ";".toList) := by
    rw [String.toList_append, String.toList_append, List.append_assoc]
    rfl
  have spaced (rest : List Char) : Apart (' ' :: rest) := apart_cons (by decide) rest
  have closed : Apart ";".toList := apart_cons (by decide) []
  have word : tokens ⟨"return".toList, .start⟩ = [⟨.keyword, "return", .start⟩] := tokens_uncut (by decide) .start
  have semicolon (place : Location) : tokens ⟨";".toList, place⟩ = [⟨.semicolon, ";", place⟩] :=
    tokens_uncut (show Uncut ";" by decide) place
  rw [lex, ofSource, chars, tokens_append (spaced _), tokens_blank (by decide), tokens_append closed, word, semicolon]
  change ⟨.keyword, "return", .start⟩ :: (value.tokens ++ [ending.semicolon.1]) ++ [] = _
  rw [same, List.append_nil]
  rfl

/-- The tokens of a statement that returns a printed expression. -/
theorem lex_return {e : Expr} (spelt : e.WellSpelt) : ∃ (derivation : Stmt.Derivation) (value : Expr) (place : Location),
    Stmt.tokensOf [derivation] = lex ("return " ++ e.text ++ ";") ∧ derivation.levels = e.printedLevels ∧
      derivation.stmt = .returnValue value place ∧ e.trimmed.sameStructure value := by
  obtain ⟨operand, read, levels, same⟩ := Expr.exists_derivation spelt ⟨1, 8⟩
  obtain ⟨whole, -, -, tokens', expr, levels'⟩ := operand.exists_alone .whole
  have chars : whole.tokens = tokens ⟨e.text.toList, ⟨1, 8⟩⟩ := by rw [tokens', read, Expr.toList_text]
  obtain ⟨derivation, tokens'', levels'', stmt⟩ := exists_returnValue chars
  refine ⟨derivation, whole.expr, .start, tokens'', ?_, stmt, ?_⟩
  · rw [levels'', levels', levels]
  · rw [expr]
    exact same

namespace Program

/-- What comes of reading a printed expression. -/
theorem parse_return {e : Expr} (spelt : e.WellSpelt) : ∃ (value : Expr) (place : Location),
    e.trimmed.sameStructure value ∧
      (∀ program, parse ("return " ++ e.text ++ ";") = .ok program ↔
        e.printedLevels ≤ nestingLimit ∧ program = [.returnValue value place]) ∧
      ∀ error, parse ("return " ++ e.text ++ ";") = .error error → error.expected = .shallowerNesting := by
  obtain ⟨derivation, value, place, tokens, levels, stmt, same⟩ := lex_return spelt
  have ahead : (Input.ofSource ("return " ++ e.text ++ ";")).ahead = Stmt.tokensOf [derivation] := by
    rw [tokens]
    exact Input.ahead_ofSource _
  refine ⟨value, place, same, fun program => ?_, fun error failed => ?_⟩
  · have bound : Stmt.levelsOf [derivation] = e.printedLevels := by
      rw [Stmt.levelsOf, Stmt.levelsOf, Nat.max_zero, levels]
    rw [parse, Input.parse_eq_ok_iff, ahead, ← bound, ← stmt]
    constructor
    · rintro ⟨derivations, tokens', levels', rfl⟩
      obtain rfl := Stmt.tokensOf_injective tokens'
      exact ⟨levels', rfl⟩
    · rintro ⟨levels', rfl⟩
      exact ⟨[derivation], rfl, levels', rfl⟩
  · have outcome := Input.parse_eq_error_iff.1 (Prod.ext failed rfl)
    rw [ahead] at outcome
    exact expected_of_mem_language ⟨[derivation], rfl⟩ outcome.1

/-- A printed expression is read back as it is, but for blanks in its leaves, unless it opens too many levels. -/
theorem parse_printed {e : Expr} (spelt : e.WellSpelt) :
    ((∃ program, parse ("return " ++ e.text ++ ";") = .ok program) ↔ e.printedLevels ≤ nestingLimit) ∧
      (∀ program, parse ("return " ++ e.text ++ ";") = .ok program → ∃ value place,
        program = [.returnValue value place] ∧ e.trimmed.sameStructure value ∧ value.text = e.trimmed.text ∧
          (e.Tight → e.sameStructure value ∧ value.text = e.text)) ∧
      ∀ error, parse ("return " ++ e.text ++ ";") = .error error → error.expected = .shallowerNesting := by
  obtain ⟨value, place, same, reads, fails⟩ := parse_return spelt
  refine ⟨?_, fun program read => ?_, fails⟩
  · constructor
    · rintro ⟨program, read⟩
      exact ((reads program).1 read).1
    · intro shallow
      exact ⟨_, (reads _).2 ⟨shallow, rfl⟩⟩
  · refine ⟨value, place, ((reads program).1 read).2, same, (Expr.text_eq_of_sameStructure same).symm, fun tight => ?_⟩
    rw [Expr.trimmed_of_tight tight] at same
    exact ⟨same, (Expr.text_eq_of_sameStructure same).symm⟩

theorem parse_printed_negative :
    let e : Expr := .negate ⟨.minus, "-", .start⟩ (.leaf ⟨.number, "1", .start⟩)
    e.WellSpelt ∧ e.Tight ∧ ∃ value place,
      parse ("return " ++ e.text ++ ";") = .ok [.returnValue value place] ∧ e.sameStructure value := by
  intro e
  have single : lex "1" = [⟨.number, "1", .start⟩] := tokens_uncut (by decide) .start
  have spelt : e.WellSpelt := ⟨rfl, rfl, .inl rfl, _, single, rfl⟩
  have tight : e.Tight := ⟨_, single⟩
  obtain ⟨shallow, reads, -⟩ := parse_printed spelt
  obtain ⟨program, read⟩ := shallow.2 (by decide)
  obtain ⟨value, place, rfl, -, -, same⟩ := reads program read
  exact ⟨spelt, tight, value, place, read, (same tight).1⟩

/-- Blanks in the text of a leaf are lost. -/
theorem parse_printed_blank :
    let e : Expr := .leaf ⟨.identifier, " a", .start⟩
    e.WellSpelt ∧ ∃ value place, parse ("return " ++ e.text ++ ";") = .ok [.returnValue value place] ∧
      ¬e.sameStructure value ∧ value.text ≠ e.text := by
  intro e
  have single : lex " a" = [⟨.identifier, "a", ⟨1, 2⟩⟩] := by
    change tokens ⟨' ' :: "a".toList, .start⟩ = _
    rw [tokens_blank (by decide), tokens_uncut (by decide)]
    rfl
  have spelt : e.WellSpelt := ⟨.inr (.inl rfl), _, single, rfl⟩
  have trimmed : e.trimmed = .leaf ⟨.identifier, "a", .start⟩ := by
    rw [Expr.trimmed, Token.trimmed, single]
  obtain ⟨value, place, same, reads, -⟩ := parse_return spelt
  have texts : value.text = "a" := by
    rw [← Expr.text_eq_of_sameStructure same, trimmed, Expr.text_leaf]
  have differ : value.text ≠ e.text := by
    rw [texts, Expr.text_leaf]
    decide
  exact ⟨spelt, value, place, (reads _).2 ⟨by decide, rfl⟩,
    fun alike => differ (Expr.text_eq_of_sameStructure alike).symm, differ⟩

end Program
end ScriptLens
