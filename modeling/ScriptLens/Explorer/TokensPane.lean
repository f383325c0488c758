import ScriptLens.Explorer.Palette
import ScriptLens.Explorer.Window
import ScriptLens.Screen.Line
import ScriptLens.Text.Padding

/-! The pane with the list of tokens. -/

namespace ScriptLens.Explorer
open Screen

structure TokensPane where
  tokens : Array Token
  selected : Option Nat
  focused : Bool

namespace TokensPane

def item (pane : TokensPane) (index : Nat) (token : Token) : Item where
  line := [⟨Text.padRight 7 token.location.text, .colored Palette.grey⟩,
    ⟨Text.padRight 15 token.kind.name, Palette.kindName token.kind⟩,
    ⟨token.text, .colored Palette.text⟩]
  style := if pane.selected = some index then (Style.plain.on Palette.highlight).inBold else .plain

/-- The offset to draw at, once the selected token has been brought into view if it is followed. An empty
list has no offset to change. -/
def settle (pane : TokensPane) (height offset : Nat) (follow : Bool) : Nat :=
  if pane.tokens.isEmpty then offset
  else Window.settle pane.tokens.size (Window.rows height) offset (if follow then pane.selected else none)

/-- Whether the selection is still to be followed: only an empty list leaves that undone. -/
def stillFollows (pane : TokensPane) (follow : Bool) : Bool := pane.tokens.isEmpty && follow

def title (pane : TokensPane) : String := " Tokens (" ++ toString pane.tokens.size ++ ") "

def paint (pane : TokensPane) (area : Area) (offset : Nat) (canvas : Canvas) : Canvas :=
  let border := Palette.border pane.focused
  if pane.tokens.isEmpty then
    let grey := Style.colored Palette.grey
    ((canvas.shade area grey).block area pane.title border).paragraph area.inside .left [[⟨"(no tokens)", grey⟩]]
  else
    let shown := (pane.tokens.extract offset (offset + Window.rows area.height)).toList
    let items := (shown.zipIdx offset).map fun entry => pane.item entry.2 entry.1
    (canvas.block area pane.title border).items area.inside.indented items

end TokensPane
end ScriptLens.Explorer
