import ScriptLens.Command.Arguments
import ScriptLens.Command.Folder
import ScriptLens.Program.Outline
import ScriptLens.Program.Parser
import ScriptLens.Token.Listing

/-! What the program prints and how it ends. -/

namespace ScriptLens

/-- The exit code, and the texts for the two output channels. -/
structure Response where
  code : Nat
  output : String
  errors : String
  deriving DecidableEq

/-- How a command ends: with a response, or in a session about a source text. -/
inductive Answer where
  | refused
  | response (response : Response)
  | explore (source : String)

namespace Response

def version : Response := ⟨0, "vkscript 0.1.0\n", ""⟩

/-- The answer about a file that cannot be read. -/
def unreadable (file : String) (fault : ReadFault) : Response :=
  ⟨1, "", "Error: Failed to read " ++ file ++ "\n\nCaused by:\n    " ++ fault.text ++ "\n"⟩

def lines (errors : List SyntaxError) : String :=
  errors.foldl (fun text error => text ++ error.message ++ "\n") ""

/-- Tokens can always be listed. -/
def listTokens (source : String) : Response := ⟨0, Token.listing (lex source), ""⟩

def parsing (file : String) : String := "Parsing " ++ file ++ "...\n"

def parsed (file : String) (program : Program) : Response :=
  ⟨0, program.outlineText, parsing file ++
    "Parsed successfully. Found " ++ toString program.length ++ " top-level statements.\n"⟩

/-- The outline of a program without faults, or else its first fault alone. -/
def outline (file source : String) : Response :=
  match Program.parse source with
  | .ok program => parsed file program
  | .error error => ⟨1, "", parsing file ++ lines [error]⟩

/-- The outline of all that can be read, and all faults. -/
def recoveredOutline (file source : String) : Response :=
  let recovery := Program.recover source
  match recovery.errors with
  | [] => parsed file recovery.program
  | errors =>
    ⟨1, recovery.program.outlineText, parsing file ++ lines errors ++
      "Found " ++ toString errors.length ++ " syntax error(s).\n"⟩

end Response

namespace Request

/-- The answer to a request, given the text of its file. -/
def answer (request : Request) (source : String) : Answer :=
  match request.dump?, request.recover with
  | none, _ => .explore source
  | some .tokens, _ => .response (.listTokens source)
  | some .tree, false => .response (.outline request.file source)
  | some .tree, true => .response (.recoveredOutline request.file source)

end Request

/-- The answer to the words behind the program's name, given how to read a file. -/
def answer {m : Type → Type} [Monad m] (read : String → m (Except ReadFault String)) (words : List String) :
    m Answer :=
  match Command.ofArguments words with
  | none => return .refused
  | some .version => return .response .version
  | some (.run request) => do
    match ← read request.file with
    | .ok source => return request.answer source
    | .error fault => return .response (.unreadable request.file fault)

end ScriptLens
