import ScriptLens.Expr.Basic

/-! Expressions as text, with parentheses around every operator and its operands. -/

namespace ScriptLens.Expr

/-- What is still to be written: a subexpression, or text as it is. -/
inductive Piece where
  | expr (expr : Expr)
  | text (text : String)

namespace Piece

def weight : Piece → Nat
  | expr e => 3 * e.size
  | text _ => 1

def totalWeight : List Piece → Nat
  | [] => 0
  | piece :: rest => piece.weight + totalWeight rest

/-- Writes the pieces behind what has been written. -/
def write (written : String) : List Piece → String
  | [] => written
  | text t :: rest => write (written ++ t) rest
  | expr (.leaf token) :: rest => write (written ++ token.text) rest
  | expr (.negate op operand) :: rest =>
    write (written ++ "(" ++ op.text) (expr operand :: text ")" :: rest)
  | expr (.binary op left right) :: rest =>
    write (written ++ "(") (expr left :: text (" " ++ op.text ++ " ") :: expr right :: text ")" :: rest)
termination_by pending => totalWeight pending
decreasing_by all_goals simp only [totalWeight, weight, size]; omega

end Piece

def text (e : Expr) : String := Piece.write "" [.expr e]

end ScriptLens.Expr
