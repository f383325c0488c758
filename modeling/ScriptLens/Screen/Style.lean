/-! How a cell of the screen looks, apart from its symbol. -/

namespace ScriptLens.Screen

inductive Color where
  | black
  | rgb (red green blue : Nat)
  deriving DecidableEq

/-- Colours that are not given stay what they are, or the terminal's own. -/
structure Style where
  fore : Option Color
  back : Option Color
  bold : Bool
  underlined : Bool
  reversed : Bool
  deriving DecidableEq

namespace Style

def plain : Style := ⟨none, none, false, false, false⟩

def colored (color : Color) : Style := { plain with fore := some color }

def on (style : Style) (color : Color) : Style := { style with back := some color }

def inBold (style : Style) : Style := { style with bold := true }

def underline (style : Style) : Style := { style with underlined := true }

def reverse (style : Style) : Style := { style with reversed := true }

/-- Lays a style over another one: its colours win, and nothing that is set is taken away. -/
def patch (below above : Style) : Style where
  fore := above.fore.or below.fore
  back := above.back.or below.back
  bold := below.bold || above.bold
  underlined := below.underlined || above.underlined
  reversed := below.reversed || above.reversed

end Style
end ScriptLens.Screen
