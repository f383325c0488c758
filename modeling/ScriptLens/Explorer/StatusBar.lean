import ScriptLens.Explorer.Palette
import ScriptLens.Screen.Line

/-! The bar below the panes: the selection and a message on the left, the keys and the verdict on the right. -/

namespace ScriptLens.Explorer
open Screen

structure StatusBar where
  message : String
  selected : Option Nat
  tokenCount : Nat
  errorCount : Nat

namespace StatusBar

def base : Style := Style.plain.on Palette.highlight

def described : Style := (Style.colored Palette.text).on Palette.highlight

def separated : Style := (Style.colored Palette.grey).on Palette.highlight

/-- Black on a colour. -/
def badge (color : Color) : Style := (Style.colored .black).on color

/-- Tokens are counted from one. -/
def position (bar : StatusBar) : String :=
  let place := match bar.selected with
    | some index => toString (index + 1)
    | none => "-"
  " Token " ++ place ++ "/" ++ toString bar.tokenCount ++ " "

def leftLine (bar : StatusBar) : Line :=
  [⟨bar.position, (badge Palette.blue).inBold⟩, ⟨" | ", separated⟩, ⟨" " ++ bar.message ++ " ", described⟩]

def keyHint (key what : String) : Line := [⟨key, badge Palette.grey⟩, ⟨what, described⟩, ⟨"│", separated⟩]

def verdict (bar : StatusBar) : Span :=
  if bar.errorCount = 0 then ⟨" OK ", (badge Palette.green).inBold⟩
  else ⟨" " ++ toString bar.errorCount ++ " ERRORS ", (badge Palette.red).inBold⟩

def rightLine (bar : StatusBar) : Line :=
  let space : Line := [⟨" ", described⟩]
  keyHint " ←/→ " " token " ++ space ++ keyHint " ⇥ " " pane " ++ space ++ keyHint " e " " error " ++ space ++
    keyHint "q" " quit " ++ [bar.verdict]

/-- The column where the right half starts: half of the width, and a half cell goes to the left. -/
def middle (width : Nat) : Nat := (50 * width + 50) / 100

def paint (bar : StatusBar) (area : Area) (canvas : Canvas) : Canvas :=
  let left : Area := ⟨area.x, area.y, middle area.width, area.height⟩
  let right : Area := ⟨area.x + middle area.width, area.y, area.width - middle area.width, area.height⟩
  ((canvas.shade left base).paragraph left .left [bar.leftLine]).shade right base
    |>.paragraph right .right [bar.rightLine]

end StatusBar
end ScriptLens.Explorer
