import ScriptLens.Program.Outline
import ScriptLens.Program.Parser

/-! All that the explorer knows about a source text. It depends on nothing but the text. -/

namespace ScriptLens.Explorer

structure Document where
  source : String
  tokens : Array Token
  recovery : Recovery
  outline : List OutlineRow
  tokens_eq : tokens = (lex source).toArray
  recovery_eq : recovery = Program.recover source
  outline_eq : outline = (Program.recover source).program.outline

/-- The indices of the tokens on a line, in order. -/
def indicesOn (tokens : Array Token) (line : Nat) : List Nat :=
  (List.range tokens.size).filter fun index => tokens[index]?.any fun token => token.location.line == line

namespace Document

def ofSource (source : String) : Document :=
  let tokens := lex source
  let recovery := (Input.ofTokens tokens).recover.1
  ⟨source, tokens.toArray, recovery, recovery.program.outline, rfl, rfl, rfl⟩

def errors (document : Document) : List SyntaxError := document.recovery.errors

/-- The lines where errors were found, in the order of the errors. -/
def errorLines (document : Document) : List Nat := document.errors.map fun error => error.location.line

end Document
end ScriptLens.Explorer
