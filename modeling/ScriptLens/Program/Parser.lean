import ScriptLens.Stmt.Parser
import ScriptLens.Token.Lexer

/-!
Reading whole programs: up to the first fault (`Input.parse`), or on to the end with all faults listed
(`Input.recover`). Both say how far they came, so reading can be taken up again where it stopped.
-/

namespace ScriptLens

/-- What is to be read, and the token that stands for the end of it. -/
structure Input where
  ahead : List Token
  stop : Token

namespace Input

/-- Cuts a list at its first end-of-input token. Where there is none, one is put behind the last token. -/
def ofTokens (tokens : List Token) : Input :=
  let ahead := tokens.takeWhile fun token => token.kind != .endOfInput
  let stop := tokens.find? fun token => token.kind == .endOfInput
  ⟨ahead, stop.getD (.endOfInput ((ahead.getLast?.map Token.finish).getD .start))⟩

def ofSource (source : String) : Input := ofTokens (lex source)

end Input

/-- The statements that could be read, and what was wrong with the others. -/
structure Recovery where
  program : Program
  errors : List SyntaxError

namespace Program

def statement : Consumer Stmt := Stmt.statement nestingLimit

/-- Statements up to the end, behind those read before, which stand in reverse. -/
def untilEnd (before : List Stmt) : Reader Program
  | [] => .ok before.reverse []
  | token :: rest =>
    match _ : statement.read (token :: rest) with
    | .ok next after => untilEnd (next :: before) after
    | .error fault after => .error fault after
termination_by tokens => tokens.length
decreasing_by exact statement.consumes ‹_›

/-- Where reading goes on after a fault: in front of a word that opens a statement, or behind the next
semicolon or closing brace. -/
def resume : List Token → List Token
  | [] => []
  | token :: rest =>
    if token.opensStmt then token :: rest
    else if token.kind = .semicolon ∨ token.kind = .rightBrace then rest
    else resume rest

theorem resume_suffix (tokens : List Token) : resume tokens <:+ tokens := by
  fun_induction resume tokens with
  | case1 => exact List.suffix_rfl
  | case2 => exact List.suffix_rfl
  | case3 => exact List.suffix_cons ..
  | case4 token rest _ _ ih => exact ih.trans (List.suffix_cons ..)

/-- Every fault uses up a token. -/
theorem resume_shorter {first : Token} {rest after : List Token} {fault : Fault}
    (outcome : statement.read (first :: rest) = .error fault after) :
    (resume after).length < (first :: rest).length := by
  rcases Stmt.statement_fails outcome with shorter | ⟨rfl, opensNone⟩
  · exact Nat.lt_succ_of_le (Nat.le_trans (resume_suffix after).length_le shorter)
  · simp only [resume, opensNone, Bool.false_eq_true, if_false]
    split
    · exact Nat.lt_succ_self _
    · exact Nat.lt_succ_of_le (resume_suffix rest).length_le

/-- Reads to the end, whatever is found on the way. What was read before stands in reverse. -/
def salvage (stop : Token) (before : List Stmt) (errors : List SyntaxError) : List Token → Recovery
  | [] => ⟨before.reverse, errors.reverse⟩
  | token :: rest =>
    match _ : statement.read (token :: rest) with
    | .ok next after => salvage stop (next :: before) errors after
    | .error fault after => salvage stop before (⟨fault, after.headD stop⟩ :: errors) (resume after)
termination_by tokens => tokens.length
decreasing_by
  · exact statement.consumes ‹_›
  · exact resume_shorter ‹_›

end Program

namespace Input

/-- The program, or the first fault. The input that is left starts with the token that was found. -/
def parse (input : Input) : Except SyntaxError Program × Input :=
  match Program.untilEnd [] input.ahead with
  | .ok program rest => (.ok program, ⟨rest, input.stop⟩)
  | .error fault rest => (.error ⟨fault, rest.headD input.stop⟩, ⟨rest, input.stop⟩)

/-- All that can be read. Nothing is left of the input. -/
def recover (input : Input) : Recovery × Input :=
  (Program.salvage input.stop [] [] input.ahead, ⟨[], input.stop⟩)

end Input

def Program.parse (source : String) : Except SyntaxError Program := (Input.ofSource source).parse.1

def Program.recover (source : String) : Recovery := (Input.ofSource source).recover.1

end ScriptLens
