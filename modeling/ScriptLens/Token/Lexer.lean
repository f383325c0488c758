import ScriptLens.Token.Basic

/-!
Reading tokens from a text. Blanks separate and are dropped; a token takes the longest spelling that is
possible where it starts. Each pull leaves a shorter text (`next?_shorter`), so a text has an end.
-/

namespace ScriptLens

/-- The unread text, and the place where it starts. -/
structure Lexer where
  rest : List Char
  location : Location
  deriving DecidableEq

namespace Lexer

def ofSource (source : String) : Lexer := ⟨source.toList, .start⟩

def isBlank (c : Char) : Bool :=
  c == ' ' || c == '\t' || c == '\r' || c == '\n' || c == '\x0b' || c == '\x0c'

def skipBlanks : List Char → Location → Lexer
  | [], place => ⟨[], place⟩
  | c :: rest, place => if isBlank c then skipBlanks rest (place.advance c) else ⟨c :: rest, place⟩

/-- Cuts the token that starts with `first` off the text: a run of letters and digits, which may hold one
decimal point between digits, or an operator. -/
def cut (first : Char) (rest : List Char) : List Char × List Char :=
  if first.isAlphanum then
    let run := first :: rest.takeWhile Char.isAlphanum
    match rest.dropWhile Char.isAlphanum with
    | '.' :: digit :: more =>
      if run.all Char.isDigit && digit.isDigit then
        (run ++ '.' :: digit :: more.takeWhile Char.isAlphanum, more.dropWhile Char.isAlphanum)
      else (run, '.' :: digit :: more)
    | after => (run, after)
  else
    match first, rest with
    | '=', '=' :: after => (['=', '='], after)
    | '!', '=' :: after => (['!', '='], after)
    | _, _ => ([first], rest)

/-- The next token and the text after it, unless only blanks are left. -/
def next? (lexer : Lexer) : Option (Token × Lexer) :=
  match skipBlanks lexer.rest lexer.location with
  | ⟨[], _⟩ => none
  | ⟨first :: rest, place⟩ =>
    let (lexeme, after) := cut first rest
    let text := String.ofList lexeme
    some (⟨.ofText text, text, place⟩, ⟨after, place.advanceBy lexeme⟩)

theorem cut_append (first : Char) (rest : List Char) :
    (cut first rest).1 ++ (cut first rest).2 = first :: rest := by
  have halves (text : List Char) :
      text.takeWhile Char.isAlphanum ++ text.dropWhile Char.isAlphanum = text :=
    List.takeWhile_append_dropWhile
  unfold cut
  split
  · split
    · next digit more after =>
      dsimp only
      split
      · conv => rhs; rw [← halves rest, after, ← halves more]
        simp
      · conv => rhs; rw [← halves rest, after]
        simp
    · simp [halves]
  · split <;> simp

theorem cut_ne_nil (first : Char) (rest : List Char) : (cut first rest).1 ≠ [] := by
  unfold cut
  split
  · split
    · dsimp only
      split <;> simp
    · simp
  · split <;> simp

theorem skipBlanks_length_le (text : List Char) (place : Location) :
    (skipBlanks text place).rest.length ≤ text.length := by
  fun_induction skipBlanks text place with
  | case1 => exact Nat.le_refl _
  | case2 place c rest blank ih => exact Nat.le_succ_of_le ih
  | case3 => exact Nat.le_refl _

theorem next?_shorter {lexer after : Lexer} {token : Token} (pulled : lexer.next? = some (token, after)) :
    after.rest.length < lexer.rest.length := by
  have bound := skipBlanks_length_le lexer.rest lexer.location
  unfold next? at pulled
  split at pulled
  · contradiction
  · next first rest place skipped =>
    rw [skipped] at bound
    have whole := congrArg List.length (cut_append first rest)
    have some_char := List.length_pos_iff.2 (cut_ne_nil first rest)
    simp only [List.length_append, List.length_cons] at whole bound
    obtain ⟨-, rfl⟩ := Prod.mk.inj (Option.some.inj pulled)
    change (cut first rest).2.length < _
    omega

/-- Pulls at most so many tokens, in front of which those taken before stand in reverse. -/
def pull : Nat → Lexer → List Token → List Token × Lexer
  | 0, lexer, taken => (taken.reverse, lexer)
  | count + 1, lexer, taken =>
    match lexer.next? with
    | none => (taken.reverse, lexer)
    | some (token, after) => pull count after (token :: taken)

/-- The first tokens, at most `count` of them, and the text after them. -/
def take (lexer : Lexer) (count : Nat) : List Token × Lexer := pull count lexer []

def collect (lexer : Lexer) (taken : List Token) : List Token :=
  match _ : lexer.next? with
  | none => taken.reverse
  | some (token, after) => collect after (token :: taken)
termination_by lexer.rest.length
decreasing_by exact next?_shorter ‹_›

/-- All tokens up to the end of the text. -/
def tokens (lexer : Lexer) : List Token := lexer.collect []

private theorem collect_eq (lexer : Lexer) (taken : List Token) :
    lexer.collect taken = taken.reverse ++ lexer.tokens := by
  unfold tokens
  rw [collect.eq_def lexer taken, collect.eq_def lexer []]
  split
  · simp
  · next token after pulled =>
    have shorter := next?_shorter pulled
    rw [collect_eq after (token :: taken), collect_eq after [token]]
    simp
termination_by lexer.rest.length

theorem tokens_of_none {lexer : Lexer} (drained : lexer.next? = none) : lexer.tokens = [] := by
  unfold tokens
  rw [collect]
  split
  · rfl
  · simp_all

theorem tokens_of_some {lexer after : Lexer} {token : Token} (pulled : lexer.next? = some (token, after)) :
    lexer.tokens = token :: after.tokens := by
  unfold tokens
  rw [collect]
  split
  · simp_all
  · next other rest found =>
    obtain ⟨rfl, rfl⟩ : other = token ∧ rest = after := by simpa [found] using pulled
    rw [collect_eq]
    rfl

end Lexer

/-- The tokens of a source text. -/
def lex (source : String) : List Token := (Lexer.ofSource source).tokens

end ScriptLens
