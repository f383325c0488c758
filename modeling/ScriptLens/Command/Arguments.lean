/-!
What the words behind the program's name ask for. They are read from the left; the first one that does not
fit refuses them all, unless the version was asked for before it.
-/

namespace ScriptLens

/-- The ways to print what a file holds. -/
inductive DumpFormat where
  | tokens | tree
  deriving DecidableEq

namespace DumpFormat

def text : DumpFormat → String
  | tokens => "tokens"
  | tree => "ast"

def all : List DumpFormat := [tokens, tree]

def ofText? (word : String) : Option DumpFormat :=
  all.find? fun format => format.text == word

end DumpFormat

/-- A file to print, or to explore if no format is given. -/
structure Request where
  dump? : Option DumpFormat
  recover : Bool
  file : String
  deriving DecidableEq

inductive Command where
  | version
  | run (request : Request)
  deriving DecidableEq

namespace Command

/-- What has been asked for so far. Nothing may be asked for twice. -/
structure Draft where
  dump? : Option DumpFormat
  recover : Bool
  file? : Option String

namespace Draft

def empty : Draft := ⟨none, false, none⟩

def addDump (draft : Draft) (format? : Option DumpFormat) : Option Draft :=
  if draft.dump?.isSome then none else format?.map fun format => { draft with dump? := some format }

def addRecover (draft : Draft) : Option Draft :=
  if draft.recover then none else some { draft with recover := true }

def addFile (draft : Draft) (name : String) : Option Draft :=
  if draft.file?.isSome || name == "" then none else some { draft with file? := some name }

/-- A command needs a file. -/
def finish (draft : Draft) : Option Command :=
  draft.file?.map fun name => .run ⟨draft.dump?, draft.recover, name⟩

end Draft

def startsWith (front word : String) : Bool := front.toList.isPrefixOf word.toList

/-- A word that starts with a dash is an option, but a dash alone is a file. -/
def isOption (word : String) : Bool := startsWith "-" word && word != "-"

def ofNames (draft : Draft) : List String → Option Command
  | [] => draft.finish
  | name :: rest => do ofNames (← draft.addFile name) rest

def ofWords (draft : Draft) : List String → Option Command
  | [] => draft.finish
  | "--" :: rest => ofNames draft rest
  | "--dump" :: value :: rest => do ofWords (← draft.addDump (DumpFormat.ofText? value)) rest
  | "--recover" :: rest => do ofWords (← draft.addRecover) rest
  | "--version" :: _ => some .version
  | word :: rest =>
    if startsWith "-V" word then some .version
    else if isOption word then
      match DumpFormat.all.find? fun format => "--dump=" ++ format.text == word with
      | some format => do ofWords (← draft.addDump (some format)) rest
      | none => none
    else do ofWords (← draft.addFile word) rest

/-- The command that the words spell, if they spell one. -/
def ofArguments (words : List String) : Option Command := ofWords .empty words

end Command
end ScriptLens
