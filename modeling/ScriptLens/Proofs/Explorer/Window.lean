import ScriptLens.Explorer.Session

/-! What a pane has in view once its offset is settled: no rows but those it has, and the target it was given. -/

namespace ScriptLens.Explorer

namespace Window

theorem settle_le (total rows offset : Nat) (target : Option Nat) :
    settle total rows offset target ≤ total - rows :=
  Nat.min_le_right _ _

/-- A settled offset stays, once there is nothing more to bring into view. -/
theorem settle_settle (total rows offset : Nat) (target : Option Nat) :
    settle total rows (settle total rows offset target) none = settle total rows offset target :=
  Nat.min_eq_left (settle_le total rows offset target)

theorem rows_pos (paneHeight : Nat) : 0 < rows paneHeight := Nat.le_max_left 1 _

/-- What is done so that no row stays empty does not hide the target again. -/
theorem settle_shows {total rows target : Nat} (present : target < total) (room : 0 < rows) (offset : Nat) :
    settle total rows offset (some target) ≤ target ∧ target < settle total rows offset (some target) + rows := by
  have near : reveal rows offset target ≤ target ∧ target < reveal rows offset target + rows := by
    unfold reveal
    split
    · omega
    · split <;> omega
  change min (reveal rows offset target) (total - rows) ≤ target ∧
    target < min (reveal rows offset target) (total - rows) + rows
  omega

/-- An entry that is among so many rows stays there if no target is given and no more rows than these are drawn. -/
theorem settle_keeps {total rows kept offset target : Nat} (present : target < total)
    (shown : offset ≤ target ∧ target < offset + kept) (room : rows ≤ kept ∨ total ≤ kept) :
    settle total rows offset none ≤ target ∧ target < settle total rows offset none + kept := by
  change min offset (total - rows) ≤ target ∧ target < min offset (total - rows) + kept
  omega

end Window

/-- Of a screen, one row goes to the status bar and two to the borders. -/
theorem rows_panesHeight (height : Nat) : Window.rows (Session.panesHeight height) = max 1 (height - 3) := by
  unfold Window.rows Session.panesHeight
  omega

theorem TreePane.length_errorItems (errors : List SyntaxError) :
    (errorItems errors).length = if errors = [] then 0 else 2 + errors.length := by
  cases errors with
  | nil => rfl
  | cons error errors =>
    rw [if_neg (List.cons_ne_nil error errors)]
    simp only [errorItems, List.length_cons, List.length_map]
    omega

theorem TreePane.length_items (pane : TreePane) :
    pane.items.length = max 1 pane.outline.length + if pane.errors = [] then 0 else 2 + pane.errors.length := by
  have program : (if pane.outline.isEmpty then [⟨[.raw "(empty program)"], .colored Palette.grey⟩]
      else pane.outline.map pane.outlineItem).length = max 1 pane.outline.length := by
    cases rows : pane.outline with
    | nil => rfl
    | cons row rows =>
      simp only [List.isEmpty_cons, Bool.false_eq_true, if_false, List.length_map, List.length_cons]
      omega
  rw [items, List.length_append, program, length_errorItems]

namespace Session

variable (session : Session) (height : Nat)

theorem settle_sourceOffset : (session.settle height).view.sourceOffset =
    Window.settle (Text.lines session.document.source).length (Window.rows (panesHeight height))
      session.view.sourceOffset (session.view.reveal.map (· - 1)) := rfl

theorem settle_tokensOffset (present : session.document.tokens.size ≠ 0) :
    (session.settle height).view.tokensOffset =
      Window.settle session.document.tokens.size (Window.rows (panesHeight height)) session.view.tokensOffset
        (if session.view.follow then session.selected else none) :=
  if_neg (mt Array.isEmpty_iff_size_eq_zero.1 present)

theorem settle_treeOffset : (session.settle height).view.treeOffset =
    Window.settle session.treePane.items.length (Window.rows (panesHeight height)) session.view.treeOffset none := rfl

/-- Below the outline, or the row that stands for an empty one, are two rows and the errors, if there are any. -/
theorem length_treeItems : session.treePane.items.length = max 1 session.document.outline.length +
    if session.document.errors = [] then 0 else 2 + session.document.errors.length :=
  TreePane.length_items session.treePane

end Session
end ScriptLens.Explorer
