import ScriptLens.Reader
import ScriptLens.Expr.Spine

/-!
Reading expressions: operands joined by binary operators. A negation or a pair of parentheses opens a level
around what it holds, and operands are defined by the number of levels that are left.
-/

namespace ScriptLens.Expr
open Reader

/-- Reads on behind an operand for as long as binary operators follow. -/
def chain (operand : Consumer Expr) (spine : Spine) : Reader Expr
  | [] => .ok spine.toExpr []
  | op :: rest =>
    match Precedence.ofToken? op with
    | none => .ok spine.toExpr (op :: rest)
    | some precedence =>
      match _ : operand.read rest with
      | .ok right after => chain operand (spine.attach op precedence right) after
      | .error fault after => .error fault after
termination_by tokens => tokens.length
decreasing_by exact Nat.lt_succ_of_lt (operand.consumes ‹_›)

theorem chain_forward (operand : Consumer Expr) (spine : Spine) : Forward (chain operand spine) := by
  intro tokens
  fun_induction chain operand spine tokens with
  | case1 => exact List.suffix_rfl
  | case2 => exact List.suffix_rfl
  | case3 spine op rest precedence found right after outcome ih =>
    have start := operand.forward rest
    rw [outcome] at start
    exact (ih.trans start).trans (List.suffix_cons ..)
  | case4 spine op rest precedence found fault after outcome =>
    have start := operand.forward rest
    rw [outcome] at start
    exact start.trans (List.suffix_cons ..)

/-- An expression, given how to read its operands. -/
def joined (operand : Consumer Expr) : Reader Expr := do
  let first ← operand.read
  chain operand (.last first)

theorem joined_forward (operand : Consumer Expr) : Forward (joined operand) :=
  operand.forward.bind fun _ => chain_forward _ _

/-- What stands behind a minus sign. -/
def negated (op : Token) (deeper : Consumer Expr) : Reader Expr := do
  let operand ← deeper.read
  return .negate op operand

/-- What stands behind an opening parenthesis. -/
def parenthesized (deeper : Consumer Expr) : Reader Expr := do
  let inner ← joined deeper
  let _ ← expect .expression .rightParen
  return inner

/-- An operand, given how to read one a level deeper, if a level is left. -/
def operandWith (deeper : Option (Consumer Expr)) : Reader Expr
  | [] => .error ⟨.expression, .expression⟩ []
  | token :: rest =>
    match token.kind, deeper with
    | .number, _ | .identifier, _ | .boolean, _ => .ok (.leaf token) rest
    | .minus, some deeper => negated token deeper rest
    | .leftParen, some deeper => parenthesized deeper rest
    | .minus, none | .leftParen, none => .error ⟨.expression, .shallowerNesting⟩ (token :: rest)
    | _, _ => .error ⟨.expression, .expression⟩ (token :: rest)

/-- An operand either fails at the first token or is read behind it. -/
theorem operandWith_cons (deeper : Option (Consumer Expr)) (token : Token) (rest : List Token) :
    (∃ fault, operandWith deeper (token :: rest) = .error fault (token :: rest)) ∨
      ∃ read, Forward read ∧ operandWith deeper (token :: rest) = read rest := by
  simp only [operandWith]
  split
  · exact .inr ⟨_, Forward.pure _, rfl⟩
  · exact .inr ⟨_, Forward.pure _, rfl⟩
  · exact .inr ⟨_, Forward.pure _, rfl⟩
  · next inner _ =>
    exact .inr ⟨_, inner.forward.bind fun _ => Forward.pure _, rfl⟩
  · next inner _ =>
    exact .inr ⟨_, (joined_forward inner).bind fun _ => (Forward.take _ _).bind fun _ => Forward.pure _, rfl⟩
  · exact .inl ⟨_, rfl⟩
  · exact .inl ⟨_, rfl⟩
  · exact .inl ⟨_, rfl⟩

theorem operandWith_forward (deeper : Option (Consumer Expr)) : Forward (operandWith deeper) := by
  intro tokens
  cases tokens with
  | nil => exact List.suffix_rfl
  | cons token rest =>
    rcases operandWith_cons deeper token rest with ⟨fault, failed⟩ | ⟨read, forward, same⟩
    · rw [failed]
      exact List.suffix_rfl
    · rw [same]
      exact (forward rest).trans (List.suffix_cons ..)

theorem operandWith_consumes (deeper : Option (Consumer Expr)) {tokens rest : List Token} {value : Expr}
    (outcome : operandWith deeper tokens = .ok value rest) : rest.length < tokens.length := by
  cases tokens with
  | nil => contradiction
  | cons token later =>
    rcases operandWith_cons deeper token later with ⟨fault, failed⟩ | ⟨read, forward, same⟩
    · rw [failed] at outcome
      contradiction
    · have tail := forward later
      rw [← same, outcome] at tail
      exact Nat.lt_succ_of_le tail.length_le

/-- Operands inside which so many levels can still be opened. -/
def operand : Nat → Consumer Expr
  | 0 => ⟨operandWith none, operandWith_forward _, operandWith_consumes _⟩
  | levels + 1 => ⟨operandWith (some (operand levels)), operandWith_forward _, operandWith_consumes _⟩

/-- An expression inside which so many levels can still be opened. -/
def read (levels : Nat) : Reader Expr := joined (operand levels)

theorem read_forward (levels : Nat) : Forward (read levels) := joined_forward _

end ScriptLens.Expr
