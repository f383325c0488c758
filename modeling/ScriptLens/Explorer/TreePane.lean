import ScriptLens.Explorer.Palette
import ScriptLens.Explorer.Window
import ScriptLens.Program.Outline
import ScriptLens.Screen.Line
import ScriptLens.SyntaxError

/-! The pane with the outline of the program and, below it, the errors. -/

namespace ScriptLens.Explorer
open Screen

structure TreePane where
  outline : List OutlineRow
  errors : List SyntaxError
  selectedLine : Option Nat
  focused : Bool

namespace TreePane

/-- A label's first word, and the rest of it with the blank in front. -/
def splitLabel (label : String) : String × String :=
  let chars := label.toList
  (String.ofList (chars.takeWhile (· != ' ')), String.ofList (chars.dropWhile (· != ' ')))

def outlineLine (row : OutlineRow) : Line :=
  let (name, rest) := splitLabel row.label
  let nameStyle :=
    if name == "then" || name == "else" then Style.colored Palette.blue
    else (Style.colored Palette.yellow).inBold
  [.raw (Text.blanks (2 * row.depth)), ⟨name, nameStyle⟩, ⟨rest, .colored Palette.text⟩,
    ⟨"  @" ++ row.location.text, .colored Palette.grey⟩]

def outlineItem (pane : TreePane) (row : OutlineRow) : Item where
  line := outlineLine row
  style := if pane.selectedLine = some row.location.line then Style.plain.on Palette.highlight else .plain

def errorItem (error : SyntaxError) : Item where
  line := [⟨"✗ ", (Style.colored Palette.red).inBold⟩, ⟨error.message, .colored Palette.red⟩]
  style := .plain

/-- Below the outline stand a blank row, the number of errors and the errors, if there are any. -/
def errorItems : List SyntaxError → List Item
  | [] => []
  | errors =>
    ⟨[], .plain⟩ ::
      ⟨[.raw ("Errors (" ++ toString errors.length ++ ")")], (Style.colored Palette.red).inBold⟩ ::
      errors.map errorItem

def items (pane : TreePane) : List Item :=
  let program :=
    if pane.outline.isEmpty then [⟨[.raw "(empty program)"], .colored Palette.grey⟩]
    else pane.outline.map pane.outlineItem
  program ++ errorItems pane.errors

def settle (pane : TreePane) (height offset : Nat) : Nat :=
  Window.settle pane.items.length (Window.rows height) offset none

def paint (pane : TreePane) (area : Area) (offset : Nat) (canvas : Canvas) : Canvas :=
  (canvas.block area " Syntax Tree " (Palette.border pane.focused)).items area.inside.indented
    ((pane.items.drop offset).take (Window.rows area.height))

end TreePane
end ScriptLens.Explorer
