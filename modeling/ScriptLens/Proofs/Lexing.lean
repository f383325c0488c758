import Mathlib.Data.List.TakeWhile
import ScriptLens.Token.Lexer

/-!
What a text is cut into does not depend on what stands around it, as long as that keeps apart from it
(`Lexer.tokens_append`).
-/

namespace ScriptLens.Lexer

/-- No token goes on into such a text. -/
def Apart (more : List Char) : Prop := ∀ c ∈ more.head?, c.isAlphanum = false ∧ c ≠ '.' ∧ c ≠ '='

section
variable {more : List Char} (apart : Apart more)
include apart

theorem takeWhile_apart (text : List Char) :
    (text ++ more).takeWhile Char.isAlphanum = text.takeWhile Char.isAlphanum := by
  induction text with
  | nil =>
    cases more with
    | nil => rfl
    | cons c more => simp [(apart c rfl).1]
  | cons c text ih => simp only [List.cons_append, List.takeWhile_cons, ih]

theorem dropWhile_apart (text : List Char) :
    (text ++ more).dropWhile Char.isAlphanum = text.dropWhile Char.isAlphanum ++ more := by
  induction text with
  | nil =>
    cases more with
    | nil => rfl
    | cons c more => simp [(apart c rfl).1]
  | cons c text ih =>
    simp only [List.cons_append, List.dropWhile_cons, ih]
    split <;> rfl

/-- A decimal point is taken with the digit behind it only, and an equals sign not across the border. -/
theorem cut_append_apart (first : Char) (rest : List Char) :
    cut first (rest ++ more) = ((cut first rest).1, (cut first rest).2 ++ more) := by
  unfold cut
  rw [takeWhile_apart apart, dropWhile_apart apart]
  split
  · rcases rest.dropWhile Char.isAlphanum with _ | ⟨c, _ | ⟨digit, others⟩⟩
    · cases more with
      | nil => rfl
      | cons c more =>
        have apart := (apart c rfl).2.1
        simp [apart]
    · cases more with
      | nil => simp
      | cons d more =>
        have plain : d.isDigit = false := by
          have apart := (apart d rfl).1
          simp only [Char.isAlphanum, Bool.or_eq_false_iff] at apart
          exact apart.2
        by_cases point : c = '.'
        · simp [point, plain]
        · simp [point]
    · by_cases point : c = '.'
      · simp only [point, List.cons_append, takeWhile_apart apart, dropWhile_apart apart]
        split <;> rfl
      · simp [point]
  · cases rest with
    | nil =>
      cases more with
      | nil => simp
      | cons c more =>
        have apart := (apart c rfl).2.2
        simp [apart]
    | cons c rest =>
      by_cases sign : c = '='
      · subst sign
        simp only [List.cons_append]
        split <;> simp_all
      · simp [sign]

end

theorem cut_shorter (first : Char) (rest : List Char) : (cut first rest).2.length < (first :: rest).length := by
  have whole := congrArg List.length (cut_append first rest)
  have positive := List.length_pos_iff.2 (cut_ne_nil first rest)
  rw [List.length_append] at whole
  omega

theorem fst_pull (count : Nat) (lexer : Lexer) (taken : List Token) (enough : lexer.rest.length ≤ count) :
    (pull count lexer taken).1 = taken.reverse ++ lexer.tokens := by
  induction count generalizing lexer taken with
  | zero =>
    cases pulled : lexer.next? with
    | none => rw [pull, tokens_of_none pulled, List.append_nil]
    | some pair =>
      have shorter := next?_shorter pulled
      omega
  | succ count ih =>
    rw [pull]
    split
    · next drained => rw [tokens_of_none drained, List.append_nil]
    · next token after pulled =>
      have shorter := next?_shorter pulled
      rw [ih after (token :: taken) (by omega), tokens_of_some pulled, List.reverse_cons, List.append_assoc]
      rfl

/-- A text has no more tokens than characters. -/
theorem take_eq_tokens (lexer : Lexer) : (lexer.take lexer.rest.length).1 = lexer.tokens :=
  fst_pull lexer.rest.length lexer [] (Nat.le_refl _)

theorem tokens_nil (place : Location) : tokens ⟨[], place⟩ = [] := tokens_of_none rfl

theorem tokens_blank {c : Char} (blank : isBlank c) (rest : List Char) (place : Location) :
    tokens ⟨c :: rest, place⟩ = tokens ⟨rest, place.advance c⟩ := by
  have same : next? ⟨c :: rest, place⟩ = next? ⟨rest, place.advance c⟩ := by
    rw [next?, skipBlanks, if_pos blank]
    rfl
  cases pulled : next? ⟨rest, place.advance c⟩ with
  | none => rw [tokens_of_none (same.trans pulled), tokens_of_none pulled]
  | some pair => rw [tokens_of_some (same.trans pulled), tokens_of_some pulled]

/-- The token that a text without leading blanks starts with, and the tokens behind it. -/
theorem tokens_cons {first : Char} (solid : ¬isBlank first) (rest : List Char) (place : Location) :
    tokens ⟨first :: rest, place⟩ =
      ⟨.ofText (String.ofList (cut first rest).1), String.ofList (cut first rest).1, place⟩ ::
        tokens ⟨(cut first rest).2, place.advanceBy (cut first rest).1⟩ := by
  apply tokens_of_some
  rw [next?, skipBlanks, if_neg solid]

theorem tokens_append {more : List Char} (apart : Apart more) (front : List Char) (place : Location) :
    tokens ⟨front ++ more, place⟩ = tokens ⟨front, place⟩ ++ tokens ⟨more, place.advanceBy front⟩ := by
  cases front with
  | nil => rw [tokens_nil]; rfl
  | cons c rest =>
    by_cases blank : isBlank c
    · rw [List.cons_append, tokens_blank blank, tokens_blank blank]
      exact tokens_append apart rest (place.advance c)
    · have shorter := cut_shorter c rest
      rw [List.cons_append, tokens_cons blank, tokens_cons blank, cut_append_apart apart,
        tokens_append apart (cut c rest).2, List.cons_append, ← Location.advanceBy_append, cut_append]
termination_by front.length
decreasing_by
  · exact Nat.lt_succ_self _
  · exact shorter

/-- A token as it is spelt, wherever it stands. -/
def spelling (token : Token) : Kind × String := (token.kind, token.text)

theorem spelling_tokens (text : List Char) (place other : Location) :
    (tokens ⟨text, place⟩).map spelling = (tokens ⟨text, other⟩).map spelling := by
  cases text with
  | nil => rw [tokens_nil, tokens_nil]
  | cons c rest =>
    by_cases blank : isBlank c
    · rw [tokens_blank blank, tokens_blank blank]
      exact spelling_tokens rest _ _
    · have shorter := cut_shorter c rest
      rw [tokens_cons blank, tokens_cons blank, List.map_cons, List.map_cons]
      exact congrArg _ (spelling_tokens (cut c rest).2 _ _)
termination_by text.length
decreasing_by
  · exact Nat.lt_succ_self _
  · exact shorter

/-- A token has the kind that belongs to its spelling. -/
theorem kind_of_mem_tokens (text : List Char) (place : Location) :
    ∀ token ∈ tokens ⟨text, place⟩, token.kind = .ofText token.text := by
  cases text with
  | nil => simp [tokens_nil]
  | cons c rest =>
    by_cases blank : isBlank c
    · rw [tokens_blank blank]
      exact kind_of_mem_tokens rest _
    · have shorter := cut_shorter c rest
      rw [tokens_cons blank]
      exact List.forall_mem_cons.2 ⟨rfl, kind_of_mem_tokens (cut c rest).2 _⟩
termination_by text.length
decreasing_by
  · exact Nat.lt_succ_self _
  · exact shorter

/-- A text that is taken whole where it starts. -/
def Uncut (text : String) : Prop :=
  match text.toList with
  | [] => False
  | first :: rest => ¬isBlank first ∧ cut first rest = (first :: rest, [])

instance (text : String) : Decidable (Uncut text) := by
  unfold Uncut
  split <;> infer_instance

theorem tokens_uncut {text : String} (uncut : Uncut text) (place : Location) :
    tokens ⟨text.toList, place⟩ = [⟨.ofText text, text, place⟩] := by
  unfold Uncut at uncut
  split at uncut
  · contradiction
  · next first rest same =>
    obtain ⟨solid, whole⟩ := uncut
    rw [same, tokens_cons solid, whole, tokens_nil, ← same, String.ofList_toList]

/-- A symbol that goes on with nothing. -/
theorem tokens_symbol {symbol : Char} (solid : ¬isBlank symbol) (alone : ∀ rest, cut symbol rest = ([symbol], rest))
    (rest : List Char) (place : Location) : tokens ⟨symbol :: rest, place⟩ =
      ⟨.ofText (String.ofList [symbol]), String.ofList [symbol], place⟩ :: tokens ⟨rest, place.advance symbol⟩ := by
  rw [tokens_cons solid, alone]
  rfl

theorem apart_cons {c : Char} (separates : c.isAlphanum = false ∧ c ≠ '.' ∧ c ≠ '=') (rest : List Char) :
    Apart (c :: rest) := by
  rintro _ ⟨⟩
  exact separates

end ScriptLens.Lexer

namespace ScriptLens

theorem Kind.ofText_ne_endOfInput (text : String) : Kind.ofText text ≠ .endOfInput := by
  have symbol : (Kind.ofSymbol? text).getD .unknown ≠ .endOfInput := by
    cases found : Kind.ofSymbol? text with
    | none => simp
    | some kind =>
      rintro rfl
      exact absurd (Kind.ofSymbol?_eq_some.1 found) (by simp [Kind.symbol?])
  unfold Kind.ofText
  dsimp only
  repeat' split
  all_goals first | exact symbol | simp

end ScriptLens
