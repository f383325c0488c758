import ScriptLens.Screen.Style

/-! A grid of cells to draw on. Whatever falls outside it is lost. -/

namespace ScriptLens.Screen

structure Cell where
  symbol : Char
  style : Style
  deriving DecidableEq

def Cell.blank : Cell := ⟨' ', .plain⟩

/-- The cells stand in the array row by row. -/
structure Canvas where
  width : Nat
  height : Nat
  cells : Array Cell
  size_cells : cells.size = width * height

/-- A part of the grid, given by its upper left corner and its extent. -/
structure Area where
  x : Nat
  y : Nat
  width : Nat
  height : Nat
  deriving DecidableEq

namespace Area

/-- What is left inside a border one cell wide. -/
def inside (area : Area) : Area := ⟨area.x + 1, area.y + 1, area.width - 2, area.height - 2⟩

/-- What is left behind a blank column. -/
def indented (area : Area) : Area := ⟨area.x + 1, area.y, area.width - 1, area.height⟩

end Area

namespace Canvas

def blank (width height : Nat) : Canvas := ⟨width, height, Array.replicate (width * height) .blank, by simp⟩

def modify (canvas : Canvas) (x y : Nat) (change : Cell → Cell) : Canvas :=
  if x < canvas.width ∧ y < canvas.height then
    { canvas with
      cells := canvas.cells.modify (y * canvas.width + x) change
      size_cells := by rw [Array.size_modify, canvas.size_cells] }
  else canvas

/-- Cells in a row from `x` on, `count` of them. -/
def modifyRow (canvas : Canvas) (x y : Nat) (change : Cell → Cell) : Nat → Canvas
  | 0 => canvas
  | count + 1 => modifyRow (canvas.modify x y change) (x + 1) y change count

/-- Cells in a column from `y` on, `count` of them. -/
def modifyColumn (canvas : Canvas) (x y : Nat) (change : Cell → Cell) : Nat → Canvas
  | 0 => canvas
  | count + 1 => modifyColumn (canvas.modify x y change) x (y + 1) change count

/-- Rows of an area from `y` on, `count` of them. -/
def modifyRows (canvas : Canvas) (x y width : Nat) (change : Cell → Cell) : Nat → Canvas
  | 0 => canvas
  | count + 1 => modifyRows (canvas.modifyRow x y change width) x (y + 1) width change count

/-- Lays a style over an area and leaves the symbols. -/
def shade (canvas : Canvas) (area : Area) (style : Style) : Canvas :=
  canvas.modifyRows area.x area.y area.width
    (fun cell => { cell with style := cell.style.patch style }) area.height

/-- The cells of every row, from the top. -/
def rows (canvas : Canvas) : List (List Cell) :=
  (List.range canvas.height).map fun y =>
    (canvas.cells.extract (y * canvas.width) ((y + 1) * canvas.width)).toList

end Canvas

/-- A symbol in a style replaces the symbol that is there. -/
def Cell.put (symbol : Char) (style : Style) (cell : Cell) : Cell := ⟨symbol, cell.style.patch style⟩

namespace Canvas

/-- Draws a border along the inner edge of an area. Where the area is too narrow the corners win, the upper
left one last. -/
def border (canvas : Canvas) (area : Area) (style : Style) : Canvas :=
  if area.width = 0 ∨ area.height = 0 then canvas
  else
    let right := area.x + area.width - 1
    let bottom := area.y + area.height - 1
    let put (symbol : Char) : Cell → Cell := Cell.put symbol style
    canvas.modifyColumn area.x area.y (put '│') area.height
      |>.modifyRow area.x area.y (put '─') area.width
      |>.modifyColumn right area.y (put '│') area.height
      |>.modifyRow area.x bottom (put '─') area.width
      |>.modify right bottom (put '┘')
      |>.modify right area.y (put '┐')
      |>.modify area.x bottom (put '└')
      |>.modify area.x area.y (put '┌')

end Canvas
end ScriptLens.Screen
