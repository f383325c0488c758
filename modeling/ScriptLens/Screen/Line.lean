import ScriptLens.Screen.Canvas

/-!
Styled text on the canvas. A character may take two cells; one that does not fit whole ends its line. The
two ways to draw lines, as a list and as a paragraph, differ in what becomes of the second cell.
-/

namespace ScriptLens.Screen

/-- Where the wide characters are: the scripts of East Asia, full forms of other characters, and pictures. -/
def wideBlocks : List (Nat × Nat) :=
  [(0x1100, 0x115F), (0x2E80, 0xA4CF), (0xA960, 0xA97C), (0xAC00, 0xD7A3), (0xF900, 0xFAFF), (0xFE30, 0xFE6F),
    (0xFF01, 0xFF60), (0xFFE0, 0xFFE6), (0x1F000, 0x10FFFF)]

/-- The number of cells that a character takes. A combining mark gets a cell of its own. -/
def charWidth (c : Char) : Nat :=
  if wideBlocks.any fun (first, last) => first ≤ c.toNat ∧ c.toNat ≤ last then 2 else 1

structure Span where
  text : String
  style : Style
  deriving DecidableEq

def Span.raw (text : String) : Span := ⟨text, .plain⟩

abbrev Line := List Span

structure Glyph where
  symbol : Char
  style : Style
  deriving DecidableEq

namespace Glyph

def width (glyph : Glyph) : Nat := charWidth glyph.symbol

/-- Line feeds have no place on a line. -/
def ofSpan (span : Span) : List Glyph :=
  (span.text.toList.filter (· != '\n')).map fun c => ⟨c, span.style⟩

def ofLine (line : Line) : List Glyph := line.flatMap ofSpan

/-- The glyphs from the left that fit into the room. -/
def fitting (room : Nat) : List Glyph → List Glyph
  | [] => []
  | glyph :: rest => if glyph.width ≤ room then glyph :: fitting (room - glyph.width) rest else []

def totalWidth : List Glyph → Nat
  | [] => 0
  | glyph :: rest => glyph.width + totalWidth rest

end Glyph

/-- A row of a list: its style covers the row, and its line is drawn over it. -/
structure Item where
  line : Line
  style : Style
  deriving DecidableEq

inductive Alignment where
  | left | right
  deriving DecidableEq

namespace Canvas

/-- Draws glyphs from `x` on; the second cell of a wide one is as told. -/
def glyphs (canvas : Canvas) (x y : Nat) (hidden : Cell → Cell) : List Glyph → Canvas
  | [] => canvas
  | glyph :: rest =>
    let drawn := canvas.modify x y (Cell.put glyph.symbol glyph.style)
    let covered := if glyph.width = 2 then drawn.modify (x + 1) y hidden else drawn
    covered.glyphs (x + glyph.width) y hidden rest

/-- Draws a line on one row; what a wide character covers is wiped. -/
def line (canvas : Canvas) (x y width : Nat) (line : Line) : Canvas :=
  canvas.glyphs x y (fun _ => .blank) (Glyph.fitting width (Glyph.ofLine line))

/-- Draws items on successive rows. -/
def itemsFrom (canvas : Canvas) (x y width : Nat) : List Item → Canvas
  | [] => canvas
  | item :: rest =>
    ((canvas.shade ⟨x, y, width, 1⟩ item.style).line x y width item.line).itemsFrom x (y + 1) width rest

/-- A list of items; those below the area are not drawn. -/
def items (canvas : Canvas) (area : Area) (items : List Item) : Canvas :=
  canvas.itemsFrom area.x area.y area.width (items.take area.height)

/-- Draws lines on successive rows; what a wide character covers stays as it was. -/
def linesFrom (canvas : Canvas) (x y width : Nat) (alignment : Alignment) : List Line → Canvas
  | [] => canvas
  | line :: rest =>
    let shown := Glyph.fitting width ((Glyph.ofLine line).filter fun glyph => glyph.width ≤ width)
    let start := match alignment with
      | .left => x
      | .right => x + (width - Glyph.totalWidth shown)
    (canvas.glyphs start y id shown).linesFrom x (y + 1) width alignment rest

/-- A paragraph; characters wider than the whole area are left out, and lines below it are not drawn. -/
def paragraph (canvas : Canvas) (area : Area) (alignment : Alignment) (lines : List Line) : Canvas :=
  canvas.linesFrom area.x area.y area.width alignment (lines.take area.height)

/-- A border with a title in it, on the upper edge behind the corner. -/
def block (canvas : Canvas) (area : Area) (title : String) (style : Style) : Canvas :=
  let bordered := canvas.border area style
  if area.height = 0 then bordered else bordered.line (area.x + 1) area.y (area.width - 2) [.raw title]

end Canvas
end ScriptLens.Screen
