import ScriptLens.Expr.Basic

/-! Statements, and programs as lists of them. Each statement keeps the place of its first token. -/

namespace ScriptLens

/-- A name that a statement binds or rebinds. -/
structure Identifier where
  text : String
  location : Location
  deriving DecidableEq

inductive Stmt where
  | declare (name : Identifier) (value : Expr) (location : Location)
  | assign (name : Identifier) (value : Expr) (location : Location)
  | ifThen (condition : Expr) (body : List Stmt) (location : Location)
  | ifElse (condition : Expr) (body alternative : List Stmt) (location : Location)
  | whileDo (condition : Expr) (body : List Stmt) (location : Location)
  | returnValue (value : Expr) (location : Location)

abbrev Program := List Stmt

namespace Stmt

def location : Stmt → Location
  | declare _ _ place => place
  | assign _ _ place => place
  | ifThen _ _ place => place
  | ifElse _ _ _ place => place
  | whileDo _ _ place => place
  | returnValue _ place => place

mutual

/-- Equality, places included. -/
def equal : Stmt → Stmt → Bool
  | declare n e p, declare n' e' p' => n == n' && e == e' && p == p'
  | assign n e p, assign n' e' p' => n == n' && e == e' && p == p'
  | ifThen e b p, ifThen e' b' p' => e == e' && p == p' && equalAll b b'
  | ifElse e b a p, ifElse e' b' a' p' => e == e' && p == p' && equalAll b b' && equalAll a a'
  | whileDo e b p, whileDo e' b' p' => e == e' && p == p' && equalAll b b'
  | returnValue e p, returnValue e' p' => e == e' && p == p'
  | _, _ => false

def equalAll : List Stmt → List Stmt → Bool
  | [], [] => true
  | s :: rest, s' :: rest' => equal s s' && equalAll rest rest'
  | _, _ => false

end

instance : BEq Stmt := ⟨equal⟩

end Stmt
end ScriptLens
