import ScriptLens.Token.Basic

/-!
Expressions. Their nodes are the tokens that they were read from, places included, and parentheses leave no
node. A chain of operators is as deep to the left as it is long, so walks over whole trees keep a list of
what is still to be seen instead of recursing.
-/

namespace ScriptLens

inductive Expr where
  | leaf (token : Token)
  | negate (op : Token) (operand : Expr)
  | binary (op : Token) (left right : Expr)

namespace Expr

/-- The place of the token that the expression starts with. -/
def location : Expr → Location
  | leaf token => token.location
  | negate op _ => op.location
  | binary _ left _ => left.location

/-- The number of nodes. -/
def size : Expr → Nat
  | leaf _ => 1
  | negate _ operand => operand.size + 1
  | binary _ left right => left.size + right.size + 1

/-- The number of nodes in the left trees of the pairs. -/
def pendingSize : List (Expr × Expr) → Nat
  | [] => 0
  | (e, _) :: rest => e.size + pendingSize rest

/-- Whether the two trees of each pair have the same shape and tokens that agree. -/
def allAlike (agree : Token → Token → Bool) : List (Expr × Expr) → Bool
  | [] => true
  | (leaf a, leaf b) :: rest => agree a b && allAlike agree rest
  | (negate a x, negate b y) :: rest => agree a b && allAlike agree ((x, y) :: rest)
  | (binary a l r, binary b l' r') :: rest => agree a b && allAlike agree ((l, l') :: (r, r') :: rest)
  | _ :: _ => false
termination_by pending => pendingSize pending
decreasing_by all_goals simp only [pendingSize, size]; omega

/-- Same shape, kinds and spellings, wherever the tokens stand. -/
def sameStructure (a b : Expr) : Bool :=
  allAlike (fun x y => decide (x.Same y)) [(a, b)]

/-- Equality looks at places too. -/
instance : BEq Expr := ⟨fun a b => allAlike (· == ·) [(a, b)]⟩

end Expr
end ScriptLens
