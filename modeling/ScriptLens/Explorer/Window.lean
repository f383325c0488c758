/-! Which rows of a long list a pane shows: as many as fit, from an offset on. -/

namespace ScriptLens.Explorer.Window

/-- The rows inside the border of a pane, and never none. -/
def rows (paneHeight : Nat) : Nat := max 1 (paneHeight - 2)

/-- The nearest offset that shows the target. -/
def reveal (rows offset target : Nat) : Nat :=
  if target < offset then target
  else if offset + rows ≤ target then target + 1 - rows
  else offset

/-- The offset at which to draw, for a list of so many rows and a target that has to be seen, if there is
one: no row stays empty while rows are left out above. -/
def settle (total rows offset : Nat) (target : Option Nat) : Nat :=
  min ((target.map (reveal rows offset)).getD offset) (total - rows)

end ScriptLens.Explorer.Window
