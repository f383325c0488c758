import ScriptLens.Proofs.Printing
import ScriptLens.Stmt.Basic

/-!
Syntax without its places. Expressions have the same structure just if they are equal without places
(`Expr.sameStructure_iff`), and programs are compared in the same way.
-/

namespace ScriptLens

def Token.unplaced (token : Token) : Token := { token with location := .start }

theorem Token.same_iff {a b : Token} : a.Same b ↔ a.unplaced = b.unplaced := by
  simp [Same, unplaced]

def Identifier.unplaced (name : Identifier) : Identifier := { name with location := .start }

namespace Expr

def unplaced : Expr → Expr
  | leaf token => leaf token.unplaced
  | negate op operand => negate op.unplaced operand.unplaced
  | binary op left right => binary op.unplaced left.unplaced right.unplaced

theorem alike_unplaced (e : Expr) : Alike Token.Same e e.unplaced := by
  induction e with
  | leaf token => exact .leaf ⟨rfl, rfl⟩
  | negate op operand ih => exact .negate ⟨rfl, rfl⟩ ih
  | binary op left right ihLeft ihRight => exact .binary ⟨rfl, rfl⟩ ihLeft ihRight

theorem sameStructure_iff {a b : Expr} : a.sameStructure b ↔ a.unplaced = b.unplaced := by
  rw [sameStructure_iff_alike]
  constructor
  · intro alike
    induction alike with
    | leaf tokens => rw [unplaced, unplaced, Token.same_iff.1 tokens]
    | negate ops _ ih => rw [unplaced, unplaced, Token.same_iff.1 ops, ih]
    | binary ops _ _ ihLeft ihRight => rw [unplaced, unplaced, Token.same_iff.1 ops, ihLeft, ihRight]
  · intro same
    have like := Alike.equivalence Token.same_equivalence
    have left := alike_unplaced a
    rw [same] at left
    exact like.trans left (like.symm (alike_unplaced b))

theorem chars_unplaced (e : Expr) : e.unplaced.chars = e.chars :=
  (chars_eq_of_sameStructure (sameStructure_iff_alike.2 (alike_unplaced e))).symm

/-- The expression and all that it is made of. -/
def parts : Expr → List Expr
  | leaf token => [leaf token]
  | negate op operand => negate op operand :: operand.parts
  | binary op left right => binary op left right :: (left.parts ++ right.parts)

end Expr

namespace Stmt

mutual

def unplaced : Stmt → Stmt
  | declare name value _ => declare name.unplaced value.unplaced .start
  | assign name value _ => assign name.unplaced value.unplaced .start
  | ifThen condition body _ => ifThen condition.unplaced (unplacedAll body) .start
  | ifElse condition body other _ => ifElse condition.unplaced (unplacedAll body) (unplacedAll other) .start
  | whileDo condition body _ => whileDo condition.unplaced (unplacedAll body) .start
  | returnValue value _ => returnValue value.unplaced .start

def unplacedAll : List Stmt → List Stmt
  | [] => []
  | stmt :: rest => stmt.unplaced :: unplacedAll rest

end

mutual

/-- The conditions and values of a statement and of those inside it. -/
def exprs : Stmt → List Expr
  | declare _ value _ => [value]
  | assign _ value _ => [value]
  | ifThen condition body _ => condition :: exprsOf body
  | ifElse condition body other _ => condition :: (exprsOf body ++ exprsOf other)
  | whileDo condition body _ => condition :: exprsOf body
  | returnValue value _ => [value]

def exprsOf : List Stmt → List Expr
  | [] => []
  | stmt :: rest => stmt.exprs ++ exprsOf rest

end

end Stmt
end ScriptLens
