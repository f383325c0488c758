/-! Folders and the files in them, and what can go wrong when a file is read as text. -/

namespace ScriptLens

/-- Why a file cannot be read as text. -/
inductive ReadFault where
  | missing | denied | notFolder | isFolder | notText
  deriving DecidableEq

def ReadFault.text : ReadFault → String
  | missing => "No such file or directory (os error 2)"
  | denied => "Permission denied (os error 13)"
  | notFolder => "Not a directory (os error 20)"
  | isFolder => "Is a directory (os error 21)"
  | notText => "stream did not contain valid UTF-8"

/-- The bytes of a file as text. -/
def decodeText (bytes : ByteArray) : Except ReadFault String :=
  match String.fromUTF8? bytes with
  | some text => .ok text
  | none => .error .notText

inductive Entry where
  | file (bytes : ByteArray)
  | folder (entries : List (String × Entry))

namespace Entry

def named? (name : String) : List (String × Entry) → Option Entry
  | [] => none
  | (other, entry) :: rest => if other = name then some entry else named? name rest

/-- Where a path leads from `here`, with the folders above it at hand, the nearest first. Empty steps and
single dots stay in the folder, and above the outermost folder there is nothing to be found but itself. -/
def follow (above : List Entry) (here : Entry) : List String → Except ReadFault Entry
  | [] => .ok here
  | step :: rest =>
    match here with
    | file _ => .error .notFolder
    | folder entries =>
      if step = "" ∨ step = "." then follow above here rest
      else if step = ".." then
        match above with
        | [] => follow [] (folder []) rest
        | outer :: higher => follow higher outer rest
      else
        match named? step entries with
        | some entry => follow (here :: above) entry rest
        | none => .error .missing

/-- The text of the file that a path leads to. Nothing is known of folders outside this one, so a path that
starts with a slash leads nowhere. -/
def readText (here : Entry) (path : String) : Except ReadFault String := do
  let start := if path.startsWith "/" then folder [] else here
  match ← follow [] start (path.splitOn "/") with
  | file bytes => decodeText bytes
  | folder _ => .error .isFolder

end Entry
end ScriptLens
