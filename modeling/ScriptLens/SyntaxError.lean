import ScriptLens.Token.Basic

/-! What can be wrong with a program, as causes and as messages. -/

namespace ScriptLens

/-- The rule of the grammar that was being read. -/
inductive Production where
  | statement | declaration | assignment | ifStmt | whileStmt | returnStmt | block | expression
  deriving DecidableEq

def Production.text : Production → String
  | statement => "statement"
  | declaration => "variable declaration"
  | assignment => "assignment"
  | ifStmt => "if statement"
  | whileStmt => "while statement"
  | returnStmt => "return statement"
  | block => "block"
  | expression => "expression"

/-- So many parentheses, negations and blocks may be open at once, all counted together. -/
def nestingLimit : Nat := 256

/-- What could have stood in the place of the token that was found. -/
inductive Expected where
  | statement | expression | identifier
  | token (kind : Kind)
  | shallowerNesting
  deriving DecidableEq

def Expected.text : Expected → String
  | statement => "statement"
  | expression => "expression"
  | identifier => "identifier"
  | token kind => kind.description
  | shallowerNesting => "at most " ++ toString nestingLimit ++ " levels of nesting"

/-- What was missing, and in which production. -/
structure Fault where
  production : Production
  expected : Expected
  deriving DecidableEq

/-- A fault together with the token that stood there instead. -/
structure SyntaxError extends Fault where
  found : Token
  deriving DecidableEq

namespace SyntaxError

def location (error : SyntaxError) : Location := error.found.location

def message (error : SyntaxError) : String :=
  "Syntax error at line " ++ toString error.location.line ++ ", column " ++ toString error.location.column ++
    " in " ++ error.production.text ++ ": expected " ++ error.expected.text ++
    ", found " ++ error.found.description

end SyntaxError
end ScriptLens
