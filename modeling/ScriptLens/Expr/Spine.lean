import ScriptLens.Expr.Basic
import ScriptLens.Token.Precedence

/-!
An operator chain while it is read from the left. Its operators stand along the right edge of the tree, each
tighter than the one above it, so the edge never has more than six of them, however long the chain is.
-/

namespace ScriptLens

inductive Spine where
  | last (operand : Expr)
  | link (left : Expr) (op : Token) (precedence : Precedence) (rest : Spine)

namespace Spine

def toExpr : Spine → Expr
  | last operand => operand
  | link left op _ rest => .binary op left rest.toExpr

/-- One more operator and its right operand: all that binds at least as tightly becomes its left operand. -/
def attach (op : Token) (precedence : Precedence) (right : Expr) : Spine → Spine
  | last operand => link operand op precedence (last right)
  | link left looser loose rest =>
    if loose < precedence then link left looser loose (rest.attach op precedence right)
    else link (toExpr (link left looser loose rest)) op precedence (last right)

end Spine
end ScriptLens
