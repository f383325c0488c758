import ScriptLens.Explorer.Document
import ScriptLens.Explorer.Key
import ScriptLens.Explorer.SourcePane
import ScriptLens.Explorer.StatusBar
import ScriptLens.Explorer.TokensPane
import ScriptLens.Explorer.TreePane

/-!
A session with a document. Keys change the session and draws change only what is in view; a draw first
settles the offsets (`settle`) and then paints what it has settled on. The session does not depend on the
painter (`drawnBy`); the one for the terminal is `paint`.
-/

namespace ScriptLens.Explorer
open Screen

inductive Focus where
  | source | tokens | tree
  deriving DecidableEq

def Focus.next : Focus → Focus
  | source => tokens
  | tokens => tree
  | tree => source

def Focus.previous : Focus → Focus
  | source => tree
  | tokens => source
  | tree => tokens

/-- What is in view. `reveal` is a line of the source and `follow` the selected token, still to be brought
into view by the next draw. -/
structure View where
  sourceOffset : Nat
  reveal : Option Nat
  tokensOffset : Nat
  follow : Bool
  treeOffset : Nat
  deriving DecidableEq

def View.start : View := ⟨0, none, 0, false, 0⟩

structure Session where
  document : Document
  focus : Focus
  /-- The index of a token. -/
  selected : Option Nat
  view : View
  quit : Bool
  status : String

namespace Session

def verdict (document : Document) : String :=
  match document.errors with
  | [] => "Parsed " ++ toString document.recovery.program.length ++ " statement(s)"
  | errors => toString errors.length ++ " syntax error(s)"

/-- The first token is selected, if there is one. -/
def start (document : Document) : Session where
  document := document
  focus := .source
  selected := if document.tokens.isEmpty then none else some 0
  view := .start
  quit := false
  status := verdict document

def selectedLine (session : Session) : Option Nat := do
  let token ← session.document.tokens[← session.selected]?
  return token.location.line

/-- Selects a token, or the last one if the index is past it, and wants it seen. -/
def select (index : Nat) (session : Session) : Session :=
  let index := min index (session.document.tokens.size - 1)
  match session.document.tokens[index]? with
  | none => session
  | some token =>
    { session with
      selected := some index
      view := { session.view with reveal := some token.location.line, follow := true }
      status := token.description ++ " at " ++ token.location.text }

def selectPrevious (session : Session) : Session :=
  match session.selected with
  | none => session
  | some index => session.select (index - 1)

def selectNext (session : Session) : Session :=
  match session.selected with
  | none => session
  | some index => session.select (index + 1)

/-- Selects the token that the first error speaks of. An error at the end of the input is behind all tokens
and selects the last one. -/
def selectError (session : Session) : Session :=
  match session.document.errors with
  | [] => { session with status := "No syntax errors" }
  | error :: _ =>
    let tokens := session.document.tokens
    let index := (tokens.findIdx? fun token => token.location == error.location).getD (tokens.size - 1)
    { session.select index with status := error.message }

def up (session : Session) : Session :=
  match session.focus with
  | .source => { session with view := { session.view with sourceOffset := session.view.sourceOffset - 1 } }
  | .tokens => session.selectPrevious
  | .tree => { session with view := { session.view with treeOffset := session.view.treeOffset - 1 } }

/-- Offsets may run past the end; the next draw puts them right. -/
def down (session : Session) : Session :=
  match session.focus with
  | .source => { session with view := { session.view with sourceOffset := session.view.sourceOffset + 1 } }
  | .tokens => session.selectNext
  | .tree => { session with view := { session.view with treeOffset := session.view.treeOffset + 1 } }

def press (key : Key) (session : Session) : Session :=
  match key with
  | .char 'q' | .char 'Q' => { session with quit := true }
  | .char 'e' => session.selectError
  | .tab => { session with focus := session.focus.next }
  | .backTab => { session with focus := session.focus.previous }
  | .left => session.selectPrevious
  | .right => session.selectNext
  | .home => session.select 0
  | .last => session.select (session.document.tokens.size - 1)
  | .up => session.up
  | .down => session.down
  | .char _ | .other => session

section
variable (session : Session)

def sourcePane : SourcePane where
  lines := Text.lines session.document.source
  tokens := session.document.tokens
  indicesOn := indicesOn session.document.tokens
  errorLines := session.document.errorLines
  selected := session.selected
  focused := session.focus = .source

def tokensPane : TokensPane where
  tokens := session.document.tokens
  selected := session.selected
  focused := session.focus = .tokens

def treePane : TreePane where
  outline := session.document.outline
  errors := session.document.errors
  selectedLine := session.selectedLine
  focused := session.focus = .tree

def statusBar : StatusBar where
  message := session.status
  selected := session.selected
  tokenCount := session.document.tokens.size
  errorCount := session.document.errors.length

end

/-- The height of the panes: all but the row of the status bar. -/
def panesHeight (height : Nat) : Nat := height - 1

/-- What is in view on a screen of this height. -/
def settledView (session : Session) (height : Nat) : View :=
  let panes := panesHeight height
  let view := session.view
  { sourceOffset := session.sourcePane.settle panes view.sourceOffset view.reveal
    reveal := none
    tokensOffset := session.tokensPane.settle panes view.tokensOffset view.follow
    follow := session.tokensPane.stillFollows view.follow
    treeOffset := session.treePane.settle panes view.treeOffset }

def settle (session : Session) (height : Nat) : Session :=
  { session with view := session.settledView height }

/-- The column at so many percent of the width, a half cell rounded up. -/
def columnAt (percent width : Nat) : Nat := (percent * width + 50) / 100

/-- The source takes 40 percent of the width, the tokens 25 and the tree the rest. -/
def paint (session : Session) (width height : Nat) : Canvas :=
  let panes := panesHeight height
  let first := columnAt 40 width
  let second := columnAt 65 width
  Canvas.blank width height
    |> session.sourcePane.paint ⟨0, 0, first, panes⟩ session.view.sourceOffset
    |> session.tokensPane.paint ⟨first, 0, second - first, panes⟩ session.view.tokensOffset
    |> session.treePane.paint ⟨second, 0, width - second, panes⟩ session.view.treeOffset
    |> session.statusBar.paint ⟨0, panes, width, height - panes⟩

/-- A draw: the session as it is settled, and the picture that a painter makes of it. -/
def drawnBy {Picture : Type} (painter : Session → Nat → Nat → Picture) (session : Session) (width height : Nat) :
    Session × Picture :=
  let settled := session.settle height
  (settled, painter settled width height)

def draw (session : Session) (width height : Nat) : Session × Canvas := session.drawnBy paint width height

end Session
end ScriptLens.Explorer
