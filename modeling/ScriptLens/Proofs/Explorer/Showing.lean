import ScriptLens.Proofs.Explorer.Invariant
import ScriptLens.Proofs.Lines

/-!
A key that moves the selection leaves it to be shown (`Session.Pending`), no other key takes that back, and the
next draw shows it: in the list of the tokens, and in the source the line that it stands on.
-/

namespace ScriptLens.Explorer.Session

/-- The keys that move the selection, by what has the focus and whether there are errors. -/
def Selecting (session : Session) : Key → Prop
  | .left | .right | .home | .last => True
  | .up | .down => session.focus = .tokens
  | .char 'e' => session.document.errors ≠ []
  | _ => False

/-- The selected token is to be brought into view, and the line that it stands on. -/
structure Pending (session : Session) : Prop where
  reveal : ∃ index token, session.selected = some index ∧ session.document.tokens[index]? = some token ∧
    session.view.reveal = some token.location.line
  follow : session.view.follow = true

variable {session next : Session}

theorem select_pending (present : session.document.tokens.size ≠ 0) (index : Nat) :
    (session.select index).Pending := by
  have inside : min index (session.document.tokens.size - 1) < session.document.tokens.size := by omega
  have here := Array.getElem?_eq_getElem inside
  unfold select
  dsimp only
  rw [here]
  exact ⟨⟨_, _, rfl, here, rfl⟩, rfl⟩

theorem Sound.selected (sound : session.Sound) (present : session.document.tokens.size ≠ 0) :
    ∃ index, session.selected = some index :=
  Option.ne_none_iff_exists'.1 (mt sound.unselected present)

theorem Sound.selectPrevious_pending (sound : session.Sound) (present : session.document.tokens.size ≠ 0) :
    session.selectPrevious.Pending := by
  obtain ⟨index, selected⟩ := sound.selected present
  rw [selectPrevious, selected]
  exact select_pending present (index - 1)

theorem Sound.selectNext_pending (sound : session.Sound) (present : session.document.tokens.size ≠ 0) :
    session.selectNext.Pending := by
  obtain ⟨index, selected⟩ := sound.selected present
  rw [selectNext, selected]
  exact select_pending present (index + 1)

theorem selectError_pending (present : session.document.tokens.size ≠ 0) (faulty : session.document.errors ≠ []) :
    session.selectError.Pending := by
  unfold selectError
  split
  · next none => exact absurd none faulty
  · have pending (index : Nat) (status : String) : { session.select index with status := status }.Pending :=
      ⟨(select_pending present index).reveal, (select_pending present index).follow⟩
    exact pending _ _

theorem Sound.pending (sound : session.Sound) (present : session.document.tokens.size ≠ 0) {key : Key}
    (selecting : session.Selecting key) : (session.press key).Pending := by
  unfold Selecting at selecting
  split at selecting
  · exact sound.selectPrevious_pending present
  · exact sound.selectNext_pending present
  · exact select_pending present 0
  · exact select_pending present _
  · change session.up.Pending
    rw [up, selecting]
    exact sound.selectPrevious_pending present
  · change session.down.Pending
    rw [down, selecting]
    exact sound.selectNext_pending present
  · exact selectError_pending present selecting
  · contradiction

theorem Pending.press (pending : session.Pending) (pressed : Pressed session next) : next.Pending := by
  cases pressed with
  | selects here => exact ⟨⟨_, _, rfl, here, rfl⟩, rfl⟩
  | moves => exact ⟨pending.reveal, pending.follow⟩
  | leaves => exact ⟨pending.reveal, pending.follow⟩

theorem Pending.keys (pending : session.Pending) (keys : List Key) : (session.run (keys.map .key)).Pending := by
  induction keys generalizing session with
  | nil => exact pending
  | cons key keys ih => exact ih (pending.press (session.press_pressed key))

theorem Pending.sourceOffset (pending : session.Pending) {source : String}
    (document : session.document = .ofSource source) (height : Nat) :
    ∃ index token, session.selected = some index ∧ (lex source)[index]? = some token ∧
      token.location.line ≤ (Text.lines source).length ∧
      (session.settle height).view.sourceOffset < token.location.line ∧
      token.location.line ≤ (session.settle height).view.sourceOffset + Window.rows (panesHeight height) := by
  obtain ⟨index, token, selected, here, reveal⟩ := pending.reveal
  have here : (lex source)[index]? = some token := by
    rw [document] at here
    exact List.getElem?_toArray.symm.trans here
  obtain ⟨positive, bound⟩ := line_of_mem_lex (List.mem_of_getElem? here)
  have settled : (session.settle height).view.sourceOffset =
      Window.settle (Text.lines source).length (Window.rows (panesHeight height)) session.view.sourceOffset
        (some (token.location.line - 1)) := by
    rw [settle_sourceOffset, document, reveal]
    rfl
  have present : token.location.line - 1 < (Text.lines source).length := by omega
  have shown := Window.settle_shows present (Window.rows_pos (panesHeight height)) session.view.sourceOffset
  rw [← settled] at shown
  exact ⟨index, token, selected, here, bound, by omega, by omega⟩

theorem Pending.tokensOffset (pending : session.Pending) (height : Nat) :
    ∃ index, session.selected = some index ∧ (session.settle height).view.tokensOffset ≤ index ∧
      index < (session.settle height).view.tokensOffset + Window.rows (panesHeight height) := by
  obtain ⟨index, token, selected, here, -⟩ := pending.reveal
  have inside : index < session.document.tokens.size := (Array.getElem?_eq_some_iff.1 here).1
  rw [settle_tokensOffset session height (Nat.ne_zero_of_lt inside), if_pos pending.follow, selected]
  exact ⟨index, rfl, Window.settle_shows inside (Window.rows_pos _) _⟩

/-- After a key that moves the selection, and any keys behind it, the next draw shows what is selected: its line in
the rows of the source pane, and itself in those of the tokens pane. -/
theorem selection_shown {source : String} (present : lex source ≠ []) (before : List Event) {key : Key}
    (selecting : ((start (.ofSource source)).run before).Selecting key) (others : List Key) (width : Nat)
    {height : Nat} (tall : 4 ≤ height) :
    let drawn := (start (.ofSource source)).run (before ++ .key key :: others.map .key ++ [.draw width height])
    let rows := height - 3
    Window.rows (panesHeight height) = rows ∧
      (∀ x width, (Screen.Area.inside ⟨x, 0, width, panesHeight height⟩).height = rows) ∧
      ∃ index token, drawn.selected = some index ∧ (lex source)[index]? = some token ∧
        token.location.line ≤ (Text.lines source).length ∧
        drawn.view.sourceOffset < token.location.line ∧ token.location.line ≤ drawn.view.sourceOffset + rows ∧
        drawn.view.tokensOffset ≤ index ∧ index < drawn.view.tokensOffset + rows := by
  intro drawn rows
  let session := ((start (.ofSource source)).run (before ++ .key key :: others.map .key))
  have settled : drawn = session.settle height := run_append _ _
  have window : Window.rows (panesHeight height) = rows := by
    rw [rows_panesHeight]
    omega
  have document : session.document = .ofSource source := run_document _ _
  have pending : session.Pending := by
    have sound := run_sound (.ofSource source) before
    have filled : ((start (.ofSource source)).run before).document.tokens.size ≠ 0 := by
      rw [run_document]
      exact List.length_pos_iff.2 present |>.ne'
    have split : session = (((start (.ofSource source)).run before).press key).run (others.map .key) := run_append _ _
    rw [split]
    exact (sound.pending filled selecting).keys others
  refine ⟨window, fun x width => rfl, ?_⟩
  obtain ⟨index, token, selected, here, bound, line⟩ := pending.sourceOffset document height
  obtain ⟨index', selected', offset⟩ := pending.tokensOffset height
  obtain rfl : index = index' := Option.some.inj (selected.symm.trans selected')
  rw [window] at line offset
  rw [settled]
  exact ⟨index, token, selected, here, bound, line.1, line.2, offset.1, offset.2⟩

/-- On the lowest screen, with room for one row, where the source pane is scrolled on behind the key. -/
theorem selection_shown_single_row :
    let drawn := (start (.ofSource "a\nb")).run [.key .last, .key .down, .draw 9 4]
    lex "a\nb" ≠ [] ∧ ∃ index token, drawn.selected = some index ∧ (lex "a\nb")[index]? = some token ∧
      drawn.view.sourceOffset + 1 = token.location.line ∧ drawn.view.tokensOffset = index := by
  intro drawn
  have present : lex "a\nb" ≠ [] := by
    have solid : ¬Lexer.isBlank 'a' := by decide
    intro empty
    exact List.cons_ne_nil _ _ ((Lexer.tokens_cons solid ['\n', 'b'] .start).symm.trans empty)
  have selecting : ((start (.ofSource "a\nb")).run []).Selecting .last := trivial
  obtain ⟨-, -, index, token, selected, here, -, above, below, left, right⟩ :=
    selection_shown present [] selecting [.down] 9 (Nat.le_refl 4)
  have line : drawn.view.sourceOffset + 1 = token.location.line := Nat.le_antisymm above below
  have entry : drawn.view.tokensOffset = index := Nat.le_antisymm left (Nat.le_of_lt_succ right)
  exact ⟨present, index, token, selected, here, line, entry⟩

end ScriptLens.Explorer.Session
