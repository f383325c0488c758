import ScriptLens.Explorer.Palette
import ScriptLens.Explorer.Window
import ScriptLens.Screen.Line
import ScriptLens.Text.Lines
import ScriptLens.Text.Padding

/-! The pane with the source text: numbered lines, coloured by the tokens on them. -/

namespace ScriptLens.Explorer
open Screen

/-- What the pane shows. `indicesOn` says which tokens to colour on which line. -/
structure SourcePane where
  lines : List String
  tokens : Array Token
  indicesOn : Nat → List Nat
  errorLines : List Nat
  selected : Option Nat
  focused : Bool

namespace SourcePane

/-- Colours what is left of a line behind `column`, and puts it behind the spans that are there. A token
that would start before `column` is passed over. -/
def highlightFrom (tokens : Array Token) (selected : Option Nat) (length column : Nat) (rest : List Char)
    (spans : Array Span) : List Nat → Array Span
  | [] => if rest.isEmpty then spans else spans.push (.raw (String.ofList rest))
  | index :: later =>
    match tokens[index]? with
    | none => highlightFrom tokens selected length column rest spans later
    | some token =>
      let start := min (token.location.column - 1) length
      let finish := min (start + token.text.length) length
      if start < column then highlightFrom tokens selected length column rest spans later
      else
        let gap := rest.take (start - column)
        let behind := rest.drop (start - column)
        let style :=
          if selected = some index then ((Palette.token token.kind).on Palette.highlight).reverse
          else Palette.token token.kind
        let before := if start = column then spans else spans.push (.raw (String.ofList gap))
        highlightFrom tokens selected length finish (behind.drop (finish - start))
          (before.push ⟨String.ofList (behind.take (finish - start)), style⟩) later

/-- A line of the source as spans: the tokens at these indices in their styles, all else plain. -/
def highlight (tokens : Array Token) (selected : Option Nat) (line : String) (indices : List Nat) : List Span :=
  (highlightFrom tokens selected line.length 0 line.toList #[] indices).toList

/-- The line of the selected token. -/
def selectedLine (pane : SourcePane) : Option Nat := do
  let token ← pane.tokens[← pane.selected]?
  return token.location.line

/-- The number in front of a line, marked where an error was found or the selected token stands. -/
def gutter (pane : SourcePane) (number : Nat) : Span :=
  let text (mark : String) := mark ++ Text.padLeft 4 (toString number) ++ " "
  if pane.errorLines.contains number then ⟨text "!", (Style.colored Palette.red).inBold⟩
  else if pane.selectedLine = some number then ⟨text ">", (Style.colored Palette.orange).inBold⟩
  else ⟨text " ", .colored Palette.grey⟩

def numberedLine (pane : SourcePane) (number : Nat) (line : String) : Line :=
  let content := highlight pane.tokens pane.selected line (pane.indicesOn number)
  let shaded := content.map fun span => { span with style := span.style.patch (.on .plain Palette.highlight) }
  pane.gutter number :: if pane.selectedLine = some number then shaded else content

/-- The offset to draw at, once the line to be revealed has been brought into view. -/
def settle (pane : SourcePane) (height offset : Nat) (reveal : Option Nat) : Nat :=
  Window.settle pane.lines.length (Window.rows height) offset (reveal.map (· - 1))

def paint (pane : SourcePane) (area : Area) (offset : Nat) (canvas : Canvas) : Canvas :=
  let shown := (pane.lines.drop offset).take (Window.rows area.height)
  let lines := (shown.zipIdx (offset + 1)).map fun entry => pane.numberedLine entry.2 entry.1
  (canvas.block area " Source Code " (Palette.border pane.focused)).paragraph area.inside .left lines

end SourcePane
end ScriptLens.Explorer
