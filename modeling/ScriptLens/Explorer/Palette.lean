import ScriptLens.Screen.Style
import ScriptLens.Token.Basic

/-! The colours of the explorer. -/

namespace ScriptLens.Explorer.Palette
open Screen

def text : Color := .rgb 205 214 244
def blue : Color := .rgb 137 180 250
def orange : Color := .rgb 250 179 135
def grey : Color := .rgb 108 112 134
def green : Color := .rgb 166 227 161
def red : Color := .rgb 243 139 168
def teal : Color := .rgb 148 226 213
def yellow : Color := .rgb 249 226 175
def highlight : Color := .rgb 50 50 70

/-- The border of a pane shows whether it has the focus. -/
def border (focused : Bool) : Style :=
  if focused then (Style.colored yellow).inBold else .colored grey

/-- The style of a token in the source. -/
def token : Kind → Style
  | .keyword => (Style.colored blue).inBold
  | .number | .boolean => .colored orange
  | .leftParen | .rightParen | .leftBrace | .rightBrace => .colored blue
  | .assign | .equal | .notEqual | .plus | .minus | .times | .divide | .greater | .less => .colored teal
  | .unknown => (Style.colored red).underline
  | .identifier | .semicolon | .comma | .dot | .endOfInput => .colored text

/-- The style of a kind's name in the list of tokens. -/
def kindName : Kind → Style
  | .keyword => .colored blue
  | .number | .boolean => .colored orange
  | .unknown => (Style.colored red).inBold
  | _ => .colored grey

end ScriptLens.Explorer.Palette
