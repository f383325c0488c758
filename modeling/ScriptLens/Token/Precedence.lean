import ScriptLens.Token.Basic

/-! How tightly the binary operators bind. Operators of one precedence associate to the left. -/

namespace ScriptLens

/-- From the loosest to the tightest. -/
inductive Precedence where
  | disjunction | conjunction | equality | relational | additive | multiplicative
  deriving DecidableEq

namespace Precedence

def rank : Precedence → Nat
  | disjunction => 0
  | conjunction => 1
  | equality => 2
  | relational => 3
  | additive => 4
  | multiplicative => 5

/-- The smaller precedence is the looser one. -/
instance : LT Precedence := ⟨fun a b => a.rank < b.rank⟩

instance (a b : Precedence) : Decidable (a < b) := inferInstanceAs (Decidable (a.rank < b.rank))

/-- The precedence of a token as a binary operator, if it is one: the words `and` and `or` count by their
spelling, the other operators by their kind alone. -/
def ofToken? (token : Token) : Option Precedence :=
  match token.kind with
  | .keyword =>
    match token.keyword? with
    | some .orKw => some disjunction
    | some .andKw => some conjunction
    | _ => none
  | .equal | .notEqual => some equality
  | .greater | .less => some relational
  | .plus | .minus => some additive
  | .times | .divide => some multiplicative
  | _ => none

end Precedence
end ScriptLens
