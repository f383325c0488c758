import ScriptLens.Command.Answer
import ScriptLens.Explorer.Session
import ScriptLens.Screen.Terminal

/-!
The program. The explorer draws a picture, then reads a line with the names of the keys that are pressed,
one blank between them, until it is left or the input ends.
-/

namespace ScriptLens.Shell
open Explorer

def readFault : IO.Error → ReadFault
  | .permissionDenied .. => .denied
  | .inappropriateType _ code _ => if code = 21 then .isFolder else .notFolder
  | _ => .missing

def readFile (name : String) : IO (Except ReadFault String) := do
  try return decodeText (← IO.FS.readBinFile name)
  catch error => return .error (readFault error)

def keysOn (line : String) : List Key :=
  ((line.trimAscii.toString.splitOn " ").filter fun word => word != "").map Key.named

partial def explore (input output : IO.FS.Stream) (session : Session) : IO Unit := do
  let (drawn, canvas) := session.draw 120 36
  output.putStrLn canvas.terminalText
  output.flush
  if drawn.quit then return
  let line ← input.getLine
  if line.isEmpty then return
  explore input output ((keysOn line).foldl (fun later key => later.press key) drawn)

/-- What is said before the first picture. -/
def greeting (document : Document) : String :=
  match document.errors with
  | [] => ""
  | errors => "Found " ++ toString errors.length ++ " syntax error(s); opening explorer...\n"

def usage : String := "Usage: vkscript [--dump tokens|ast] [--recover] FILE\n"

end ScriptLens.Shell

open ScriptLens in
def main (words : List String) : IO UInt32 := do
  match ← answer Shell.readFile words with
  | .refused =>
    (← IO.getStderr).putStr Shell.usage
    return 2
  | .response response =>
    (← IO.getStderr).putStr response.errors
    (← IO.getStdout).putStr response.output
    return response.code.toUInt32
  | .explore source =>
    let document := Explorer.Document.ofSource source
    (← IO.getStderr).putStr (Shell.greeting document)
    Shell.explore (← IO.getStdin) (← IO.getStdout) (.start document)
    return 0
