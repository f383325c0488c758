import ScriptLens.Expr.Parser
import ScriptLens.Stmt.Basic

/-!
Reading statements. A block opens a level around its statements; the condition in front of it does not. A
statement that fails has either taken a token or stands before one that starts no statement
(`statement_fails`), so reading can go on behind it.
-/

namespace ScriptLens

/-- The reserved words that stand at the start of a statement and nowhere else. -/
def Token.opensStmt (token : Token) : Bool :=
  match token.keyword? with
  | some .varKw | some .ifKw | some .whileKw | some .returnKw => true
  | _ => false

namespace Stmt
open Reader

/-- Statements up to the closing brace, behind those read before, which stand in reverse. -/
def untilBrace (statement : Consumer Stmt) (before : List Stmt) : Reader (List Stmt)
  | [] => .error ⟨.block, .token .rightBrace⟩ []
  | token :: rest =>
    if token.kind = .rightBrace then .ok before.reverse rest
    else
      match _ : statement.read (token :: rest) with
      | .ok next after => untilBrace statement (next :: before) after
      | .error fault after => .error fault after
termination_by tokens => tokens.length
decreasing_by exact statement.consumes ‹_›

theorem untilBrace_forward (statement : Consumer Stmt) (before : List Stmt) :
    Forward (untilBrace statement before) := by
  intro tokens
  fun_induction untilBrace statement before tokens with
  | case1 => exact List.suffix_rfl
  | case2 => exact List.suffix_cons ..
  | case3 before token rest open_ next after outcome ih =>
    have start := statement.forward (token :: rest)
    rw [outcome] at start
    exact ih.trans start
  | case4 before token rest open_ fault after outcome =>
    have start := statement.forward (token :: rest)
    rw [outcome] at start
    exact start

/-- A block, given how to read its statements, if a level is left for them. -/
def block : Option (Consumer Stmt) → Reader (List Stmt)
  | none => throw ⟨.block, .shallowerNesting⟩
  | some statement => do
    let _ ← expect .block .leftBrace
    untilBrace statement []

theorem block_forward (deeper : Option (Consumer Stmt)) : Forward (block deeper) := by
  cases deeper with
  | none => exact Forward.throw _
  | some statement => exact (Forward.take _ _).bind fun _ => untilBrace_forward _ _

section
variable (expression : Reader Expr) (deeper : Option (Consumer Stmt)) (first : Token)

/-- What stands behind the word `var`. -/
def declaration : Reader Stmt := do
  let name ← identifier .declaration
  let _ ← expect .declaration .assign
  let value ← expression
  let _ ← expect .declaration .semicolon
  return .declare ⟨name.text, name.location⟩ value first.location

/-- What stands behind the name at the start of an assignment. -/
def assignment : Reader Stmt := do
  let _ ← expect .assignment .assign
  let value ← expression
  let _ ← expect .assignment .semicolon
  return .assign ⟨first.text, first.location⟩ value first.location

/-- The condition and the block behind the word `if` or `while`. -/
def guarded (production : Production) : Reader (Expr × List Stmt) := do
  let _ ← expect production .leftParen
  let condition ← expression
  let _ ← expect production .rightParen
  let body ← block deeper
  return (condition, body)

/-- The block behind the word `else`, if that word follows. -/
def alternative : Reader (Option (List Stmt))
  | [] => .ok none []
  | token :: rest =>
    if token.isKeyword .elseKw then (some <$> block deeper) rest else .ok none (token :: rest)

/-- What stands behind the word `if`. -/
def conditional : Reader Stmt := do
  let (condition, body) ← guarded expression deeper .ifStmt
  match ← alternative deeper with
  | none => return .ifThen condition body first.location
  | some other => return .ifElse condition body other first.location

/-- What stands behind the word `while`. -/
def repetition : Reader Stmt := do
  let (condition, body) ← guarded expression deeper .whileStmt
  return .whileDo condition body first.location

/-- What stands behind the word `return`. -/
def result : Reader Stmt := do
  let value ← expression
  let _ ← expect .returnStmt .semicolon
  return .returnValue value first.location

end

/-- How a statement goes on behind its first token, if that token starts one. -/
def behind? (expression : Reader Expr) (deeper : Option (Consumer Stmt)) (first : Token) : Option (Reader Stmt) :=
  match first.keyword? with
  | some .varKw => some (declaration expression first)
  | some .ifKw => some (conditional expression deeper first)
  | some .whileKw => some (repetition expression deeper first)
  | some .returnKw => some (result expression first)
  | _ => if first.kind = .identifier then some (assignment expression first) else none

def statementWith (expression : Reader Expr) (deeper : Option (Consumer Stmt)) : Reader Stmt
  | [] => .error ⟨.statement, .statement⟩ []
  | first :: rest =>
    match behind? expression deeper first with
    | some read => read rest
    | none => .error ⟨.statement, .statement⟩ (first :: rest)

theorem guarded_forward {expression : Reader Expr} (ahead : Forward expression)
    (deeper : Option (Consumer Stmt)) (production : Production) :
    Forward (guarded expression deeper production) :=
  (Forward.take _ _).bind fun _ => ahead.bind fun _ => (Forward.take _ _).bind fun _ =>
    (block_forward deeper).bind fun _ => Forward.pure _

theorem alternative_forward (deeper : Option (Consumer Stmt)) : Forward (alternative deeper) := by
  intro tokens
  cases tokens with
  | nil => exact List.suffix_rfl
  | cons token rest =>
    simp only [alternative]
    split
    · exact ((block_forward deeper).map some rest).trans (List.suffix_cons ..)
    · exact List.suffix_rfl

theorem behind?_forward {expression : Reader Expr} {deeper : Option (Consumer Stmt)} {first : Token}
    {read : Reader Stmt} (ahead : Forward expression) (starts : behind? expression deeper first = some read) :
    Forward read := by
  have final (production kind) (statement : Stmt) :
      Forward (do let _ ← expect production kind; return statement) :=
    (Forward.take _ _).bind fun _ => Forward.pure _
  unfold behind? at starts
  split at starts
  · obtain rfl := Option.some.inj starts
    exact (Forward.take _ _).bind fun _ => (Forward.take _ _).bind fun _ => ahead.bind fun _ => final _ _ _
  · obtain rfl := Option.some.inj starts
    refine (guarded_forward ahead deeper _).bind fun _ => (alternative_forward deeper).bind fun other => ?_
    cases other <;> exact Forward.pure _
  · obtain rfl := Option.some.inj starts
    exact (guarded_forward ahead deeper _).bind fun _ => Forward.pure _
  · obtain rfl := Option.some.inj starts
    exact ahead.bind fun _ => final _ _ _
  · split at starts
    · obtain rfl := Option.some.inj starts
      exact (Forward.take _ _).bind fun _ => ahead.bind fun _ => final _ _ _
    · contradiction

theorem statementWith_forward {expression : Reader Expr} (ahead : Forward expression)
    (deeper : Option (Consumer Stmt)) : Forward (statementWith expression deeper) := by
  intro tokens
  cases tokens with
  | nil => exact List.suffix_rfl
  | cons first rest =>
    simp only [statementWith]
    split
    · next read starts => exact (behind?_forward ahead starts rest).trans (List.suffix_cons ..)
    · exact List.suffix_rfl

theorem statementWith_consumes {expression : Reader Expr} (ahead : Forward expression)
    (deeper : Option (Consumer Stmt)) {tokens rest : List Token} {value : Stmt}
    (outcome : statementWith expression deeper tokens = .ok value rest) : rest.length < tokens.length := by
  cases tokens with
  | nil => contradiction
  | cons first later =>
    simp only [statementWith] at outcome
    split at outcome
    · next read starts =>
      have tail := behind?_forward ahead starts later
      rw [outcome] at tail
      exact Nat.lt_succ_of_le tail.length_le
    · contradiction

/-- Statements inside which so many levels can still be opened. -/
def statement : Nat → Consumer Stmt
  | 0 =>
    have ahead := Expr.read_forward 0
    ⟨statementWith (Expr.read 0) none, statementWith_forward ahead _, statementWith_consumes ahead _⟩
  | levels + 1 =>
    have ahead := Expr.read_forward (levels + 1)
    ⟨statementWith (Expr.read (levels + 1)) (some (statement levels)),
      statementWith_forward ahead _, statementWith_consumes ahead _⟩

theorem statement_read (levels : Nat) :
    ∃ deeper, (statement levels).read = statementWith (Expr.read levels) deeper := by
  cases levels <;> exact ⟨_, rfl⟩

theorem statement_fails {levels : Nat} {first : Token} {rest after : List Token} {fault : Fault}
    (outcome : (statement levels).read (first :: rest) = .error fault after) :
    after.length ≤ rest.length ∨ after = first :: rest ∧ first.opensStmt = false := by
  obtain ⟨deeper, same⟩ := statement_read levels
  rw [same] at outcome
  simp only [statementWith] at outcome
  split at outcome
  · next read starts =>
    have tail := behind?_forward (Expr.read_forward levels) starts rest
    rw [outcome] at tail
    exact .inl tail.length_le
  · next stuck =>
    obtain ⟨-, rfl⟩ := EStateM.Result.error.inj outcome
    refine .inr ⟨rfl, ?_⟩
    unfold behind? at stuck
    unfold Token.opensStmt
    split at stuck <;> simp_all

end Stmt
end ScriptLens
