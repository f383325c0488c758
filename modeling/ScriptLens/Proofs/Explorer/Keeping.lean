import ScriptLens.Proofs.Explorer.Showing

/-!
Whether the list of tokens keeps the selected one in view. It does so for as long as no screen is lower than one that
was drawn since the selection was moved (`Session.selection_kept`). On a lower one the rows at the bottom are lost, and
the selected one with them if it stands there (`Session.lost_when_lower`).
-/

namespace ScriptLens.Explorer.Session

/-- The selected token is among so many rows of the list from its offset on, or the next draw will show it. -/
def Near (session : Session) (rows : Nat) : Prop :=
  session.view.follow = true ∨ ∃ index, session.selected = some index ∧
    session.view.tokensOffset ≤ index ∧ index < session.view.tokensOffset + rows

/-- The selection is where it was put by the last of these events, or where it is at the start. -/
def Moved (document : Document) (events : List Event) : Prop :=
  events = [] ∨ ∃ earlier key, events = earlier ++ [.key key] ∧ ((start document).run earlier).Selecting key

variable {session next : Session} {rows : Nat}

theorem start_near {document : Document} (present : document.tokens.size ≠ 0) (room : 0 < rows) :
    (start document).Near rows := by
  have filled : ¬document.tokens.isEmpty := mt Array.isEmpty_iff_size_eq_zero.1 present
  have first : (start document).selected = some 0 := if_neg filled
  refine .inr ⟨0, first, Nat.le_refl 0, ?_⟩
  change 0 < 0 + rows
  omega

/-- A key that takes the selection elsewhere asks for it to be shown, and no other key moves the list. -/
theorem Near.press (near : session.Near rows) (pressed : Pressed session next) : next.Near rows := by
  cases pressed with
  | selects => exact .inl rfl
  | moves => exact near
  | leaves => exact near

theorem Near.settle (near : session.Near rows) (sound : session.Sound) (present : session.document.tokens.size ≠ 0)
    {height : Nat} (room : Window.rows (panesHeight height) ≤ rows ∨ session.document.tokens.size ≤ rows) :
    (session.settle height).Near rows := by
  obtain ⟨index, selected⟩ := sound.selected present
  have inside := sound.inside index selected
  refine .inr ⟨index, selected, ?_⟩
  rw [settle_tokensOffset session height present]
  by_cases follow : session.view.follow = true
  · rw [if_pos follow, selected]
    have shown := Window.settle_shows inside (Window.rows_pos (panesHeight height)) session.view.tokensOffset
    omega
  · rw [if_neg follow]
    rcases near with follows | ⟨other, selected', shown⟩
    · exact absurd follows follow
    · obtain rfl : index = other := Option.some.inj (selected.symm.trans selected')
      exact Window.settle_keeps inside shown room

theorem run_near (near : session.Near rows) (sound : session.Sound) (present : session.document.tokens.size ≠ 0)
    (events : List Event) (room : (∀ width height, .draw width height ∈ events →
      Window.rows (panesHeight height) ≤ rows) ∨ session.document.tokens.size ≤ rows) :
    (session.run events).Near rows := by
  induction events generalizing session with
  | nil => exact near
  | cons event events ih =>
    have later : (∀ width height, .draw width height ∈ events → Window.rows (panesHeight height) ≤ rows) ∨
        session.document.tokens.size ≤ rows :=
      room.imp_left fun lower width height member => lower width height (List.mem_cons_of_mem _ member)
    cases event with
    | key key =>
      have pressed := session.press_pressed key
      rw [← pressed.document_eq] at present later
      exact ih (near.press pressed) (sound.press pressed) present later
    | draw width height =>
      have here : Window.rows (panesHeight height) ≤ rows ∨ session.document.tokens.size ≤ rows :=
        room.imp_left fun lower => lower width height List.mem_cons_self
      exact ih (near.settle sound present here) (sound.settle height) present later

/-- A selection that has just been moved is near, however few rows are looked at. -/
theorem near_of_moved {document : Document} (present : document.tokens.size ≠ 0) (room : 0 < rows)
    {events : List Event} (moved : Moved document events) : ((start document).run events).Near rows := by
  rcases moved with rfl | ⟨earlier, key, rfl, selecting⟩
  · exact start_near present room
  · have filled : ((start document).run earlier).document.tokens.size ≠ 0 := by rwa [run_document]
    rw [run_append]
    exact .inl ((run_sound document earlier).pending filled selecting).follow

theorem near_since {document : Document} (present : document.tokens.size ≠ 0) {before since : List Event}
    (moved : Moved document before) {height : Nat}
    (lower : ∀ width' height', .draw width' height' ∈ since → height' ≤ height) :
    ((start document).run (before ++ since)).Near (Window.rows (panesHeight height)) := by
  have filled : ((start document).run before).document.tokens.size ≠ 0 := by rwa [run_document]
  have near := near_of_moved present (Window.rows_pos (panesHeight height)) moved
  rw [run_append]
  apply run_near near (run_sound document before) filled
  refine .inl fun width' height' member => ?_
  have bound := lower width' height' member
  rw [rows_panesHeight, rows_panesHeight]
  omega

theorem length_lex_semicolons : (lex ";;").length = 2 :=
  (congrArg List.length (Lexer.take_eq_tokens _)).symm.trans rfl

/-- After every draw the selected token is in the window of its list or below it, and it is in the window if no screen
was higher than this one since the selection was moved. -/
theorem selection_kept {source : String} (present : lex source ≠ []) (events : List Event) (width : Nat)
    {height : Nat} (tall : 4 ≤ height) :
    let drawn := (start (.ofSource source)).run (events ++ [.draw width height])
    let rows := height - 3
    Window.rows (panesHeight height) = rows ∧ ∃ index, drawn.selected = some index ∧ index < (lex source).length ∧
      drawn.view.tokensOffset ≤ index ∧
      ∀ before since, events = before ++ since → Moved (.ofSource source) before →
        (∀ width' height', .draw width' height' ∈ since → height' ≤ height) →
        index < drawn.view.tokensOffset + rows := by
  intro drawn rows
  let document : Document := .ofSource source
  let session : Session := (start document).run events
  have window : Window.rows (panesHeight height) = rows := by
    rw [rows_panesHeight]
    omega
  have filled : document.tokens.size ≠ 0 := List.length_pos_iff.2 present |>.ne'
  have same : session.document = document := run_document _ _
  have filled' : session.document.tokens.size ≠ 0 := by rwa [same]
  have sound : session.Sound := run_sound document events
  have settled : drawn = session.settle height := run_append _ _
  have stopped {count : Nat} (near : (session.settle height).Near count) : ∃ index, drawn.selected = some index ∧
      drawn.view.tokensOffset ≤ index ∧ index < drawn.view.tokensOffset + count := by
    rw [settled]
    exact near.resolve_left (Bool.eq_false_iff.1 (sound.settled height).2.1)
  -- With as many rows as there are tokens, to be near is not to be above the window.
  have near : session.Near document.tokens.size :=
    run_near (start_near filled (Nat.pos_of_ne_zero filled)) (start_sound document) filled events (.inr (Nat.le_refl _))
  obtain ⟨index, selected, above, -⟩ := stopped (near.settle sound filled' (.inr (by rw [same])))
  have inside : index < document.tokens.size := by
    rw [settled] at selected
    exact same ▸ (sound.settle height).inside index selected
  refine ⟨window, index, selected, inside, above, fun before since split moved lower => ?_⟩
  have near : session.Near (Window.rows (panesHeight height)) := by
    change ((start document).run events).Near _
    rw [split]
    exact near_since filled moved lower
  obtain ⟨index', selected', -, below⟩ := stopped (near.settle sound filled' (.inl (Nat.le_refl _)))
  obtain rfl : index = index' := Option.some.inj (selected.symm.trans selected')
  rwa [window] at below

/-- When the screen has its two rows again, the second token is shown again. -/
theorem selection_kept_regrown : lex ";;" ≠ [] ∧
    let drawn := (start (.ofSource ";;")).run [.key .last, .draw 40 5, .draw 40 4, .draw 40 5]
    ∃ index, drawn.selected = some index ∧ drawn.view.tokensOffset ≤ index ∧
      index < drawn.view.tokensOffset + 2 := by
  have present : lex ";;" ≠ [] := List.length_pos_iff.1 (by rw [length_lex_semicolons]; decide)
  have moved : Moved (.ofSource ";;") [.key .last] := .inr ⟨[], .last, rfl, trivial⟩
  obtain ⟨-, index, selected, -, above, below⟩ :=
    selection_kept present [.key .last, .draw 40 5, .draw 40 4] 40 (show 4 ≤ 5 by decide)
  have lower (width height : Nat) (member : .draw width height ∈ [Event.draw 40 5, Event.draw 40 4]) : height ≤ 5 := by
    simp only [List.mem_cons, Event.draw.injEq, List.not_mem_nil, or_false] at member
    omega
  exact ⟨present, index, selected, above, below [.key .last] [.draw 40 5, .draw 40 4] rfl moved lower⟩

theorem select_selected {index : Nat} (inside : index < session.document.tokens.size) :
    (session.select index).selected = some index := by
  rw [session.select_eq (Array.getElem?_eq_getElem inside)]

theorem settle_tokensOffset_of_resting (present : session.document.tokens.size ≠ 0)
    (resting : session.view.follow = false) (top : session.view.tokensOffset = 0) (height : Nat) :
    (session.settle height).view.tokensOffset = 0 := by
  rw [settle_tokensOffset session height present, resting, top]
  exact Nat.zero_min _

/-- With a screen that has room for all tokens, the list starts at the first one, and that does not change on a lower
screen: so the last of several tokens is selected and below the only row there is. -/
theorem lost_when_lower {source : String} (several : 2 ≤ (lex source).length) (width width' : Nat) {height : Nat}
    (roomy : (lex source).length + 3 ≤ height) :
    let drawn := (start (.ofSource source)).run [.key .last, .draw width height, .draw width' 4]
    drawn.selected = some ((lex source).length - 1) ∧ drawn.view.tokensOffset = 0 := by
  intro drawn
  let document : Document := .ofSource source
  let chosen : Session := (start document).select ((lex source).length - 1)
  have size : document.tokens.size = (lex source).length := List.size_toArray
  have filled : document.tokens.size ≠ 0 := by omega
  have pressed : Pressed (start document) chosen := (start document).select_pressed _
  have same : (chosen.settle height).document = document := pressed.document_eq
  have settled := ((start_sound document).press pressed).settled height
  have inside : (lex source).length - 1 < document.tokens.size := by omega
  have selected : chosen.selected = some ((lex source).length - 1) := select_selected inside
  have top : (chosen.settle height).view.tokensOffset = 0 := by
    have bound := settled.2.2.2.1
    rw [pressed.document_eq] at bound
    change (chosen.settle height).view.tokensOffset ≤ document.tokens.size - _ at bound
    omega
  refine ⟨selected, settle_tokensOffset_of_resting ?_ settled.2.1 top 4⟩
  rwa [same]

/-- Of two tokens the second is selected, and drawn on a screen with two rows for them. On the next screen, with a
single row, the first is shown. -/
theorem selection_lost : lex ";;" ≠ [] ∧
    let drawn := (start (.ofSource ";;")).run [.key .last, .draw 40 5, .draw 40 4]
    ∃ index, drawn.selected = some index ∧ ¬index < drawn.view.tokensOffset + (4 - 3) := by
  have two := length_lex_semicolons
  refine ⟨List.length_pos_iff.1 (by omega), ?_⟩
  intro drawn
  have several : 2 ≤ (lex ";;").length := by omega
  have roomy : (lex ";;").length + 3 ≤ 5 := by omega
  obtain ⟨selected, top⟩ := lost_when_lower several 40 40 roomy
  refine ⟨_, selected, ?_⟩
  rw [top]
  omega

end ScriptLens.Explorer.Session
