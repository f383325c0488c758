import ScriptLens.Screen.Line

/-! A canvas as text for a terminal, with control sequences for the styles. -/

namespace ScriptLens.Screen

/-- The codes of a colour; a text colour has the base 30 and a background the base 40. -/
def Color.codes (base : Nat) : Color → List Nat
  | .black => [base]
  | .rgb red green blue => [base + 8, 2, red, green, blue]

def Style.codes (style : Style) : List Nat :=
  let mode (on : Bool) (code : Nat) : List Nat := if on then [code] else []
  (0 :: mode style.bold 1) ++ mode style.underlined 4 ++ mode style.reversed 7 ++
    ((style.fore.map (Color.codes 30)).getD []) ++ ((style.back.map (Color.codes 40)).getD [])

def Style.sequence (style : Style) : String :=
  "\x1b[" ++ ";".intercalate (style.codes.map toString) ++ "m"

namespace Canvas

/-- The cells of a row in a terminal. A wide symbol takes the place of the cell behind it as well. -/
def terminalRow (current : Style) : List Cell → String
  | [] => ""
  | cell :: rest =>
    let sequence := if cell.style = current then "" else cell.style.sequence
    sequence ++ cell.symbol.toString ++ terminalRow cell.style (rest.drop (charWidth cell.symbol - 1))
termination_by cells => cells.length
decreasing_by simp only [List.length_drop, List.length_cons]; omega

/-- The whole picture, from the upper left corner of the terminal on. -/
def terminalText (canvas : Canvas) : String :=
  let rows := canvas.rows.map fun row => Style.plain.sequence ++ terminalRow .plain row
  "\x1b[2J\x1b[H" ++ "\r\n".intercalate rows ++ Style.plain.sequence

end Canvas
end ScriptLens.Screen
