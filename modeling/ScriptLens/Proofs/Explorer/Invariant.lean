import ScriptLens.Proofs.Explorer.Run
import ScriptLens.Proofs.Explorer.Window

/-!
What every session keeps to, whatever keys are pressed and on screens of whatever sizes it is drawn (`Sound`).
-/

namespace ScriptLens.Explorer.Session

/-- A token is selected if there is one, and what is still to be brought into view is that token. -/
structure Sound (session : Session) : Prop where
  unselected : session.selected = none → session.document.tokens.size = 0
  inside : ∀ index, session.selected = some index → index < session.document.tokens.size
  reveal : ∀ line, session.view.reveal = some line → session.selectedLine = some line
  follow : session.view.follow → session.document.tokens.size ≠ 0
  resting : session.document.tokens.size = 0 → session.view.tokensOffset = 0

variable {session next : Session}

theorem start_sound (document : Document) : (start document).Sound := by
  refine ⟨fun nothing => ?_, fun index same => ?_, nofun, nofun, fun _ => rfl⟩
  · by_cases empty : document.tokens.isEmpty
    · exact Array.isEmpty_iff_size_eq_zero.1 empty
    · have first : (start document).selected = some 0 := if_neg empty
      simp [first] at nothing
  · by_cases empty : document.tokens.isEmpty
    · have nothing : (start document).selected = none := if_pos empty
      simp [nothing] at same
    · have first : (start document).selected = some 0 := if_neg empty
      obtain rfl : 0 = index := by simpa [first] using same
      exact Nat.pos_of_ne_zero fun size => empty (Array.isEmpty_iff_size_eq_zero.2 size)

theorem Sound.press (sound : session.Sound) (pressed : Pressed session next) : next.Sound := by
  cases pressed with
  | @selects index token here status =>
    have inside : index < session.document.tokens.size := (Array.getElem?_eq_some_iff.1 here).1
    exact {
      unselected := nofun
      inside := fun other same => Option.some.inj same ▸ inside
      reveal := fun line same => by simpa [selectedLine, here] using same
      follow := fun _ => Nat.ne_zero_of_lt inside
      resting := fun empty => absurd empty (Nat.ne_zero_of_lt inside) }
  | moves => exact ⟨sound.unselected, sound.inside, sound.reveal, sound.follow, sound.resting⟩
  | leaves => exact ⟨sound.unselected, sound.inside, sound.reveal, sound.follow, sound.resting⟩

theorem Sound.settle (sound : session.Sound) (height : Nat) : (session.settle height).Sound := by
  refine ⟨sound.unselected, sound.inside, nofun, fun follow => ?_, fun empty => ?_⟩
  · have still : (session.document.tokens.isEmpty && session.view.follow) = true := follow
    exact sound.follow (Bool.and_eq_true_iff.1 still).2
  · have empty' : session.document.tokens.isEmpty := Array.isEmpty_iff_size_eq_zero.2 empty
    calc (session.settle height).view.tokensOffset
        = session.view.tokensOffset := if_pos empty'
      _ = 0 := sound.resting empty

theorem run_sound (document : Document) (events : List Event) : ((start document).run events).Sound := by
  apply run_induction Sound
  · intro session next pressed sound
    exact sound.press pressed
  · intro session height sound
    exact sound.settle height
  · exact start_sound document

theorem Sound.selected_eq_none (sound : session.Sound) :
    session.selected = none ↔ session.document.tokens.size = 0 := by
  constructor
  · exact sound.unselected
  · intro empty
    cases selected : session.selected with
    | none => rfl
    | some index =>
      have inside := sound.inside index selected
      omega

theorem selectedLine_eq_some {line : Nat} : session.selectedLine = some line ↔ ∃ index,
    session.selected = some index ∧ ∃ token, session.document.tokens[index]? = some token ∧
      token.location.line = line := by
  simp [selectedLine, Option.bind_eq_some_iff]

/-- A draw leaves nothing still to be brought into view, and no offset past the end. -/
theorem Sound.settled (sound : session.Sound) (height : Nat) :
    let view := (session.settle height).view
    let rows := max 1 (height - 3)
    view.reveal = none ∧ view.follow = false ∧
      view.sourceOffset ≤ (Text.lines session.document.source).length - rows ∧
      view.tokensOffset ≤ session.document.tokens.size - rows ∧
      view.treeOffset ≤ session.treePane.items.length - rows := by
  dsimp only
  rw [← rows_panesHeight, settle_sourceOffset, settle_treeOffset]
  refine ⟨rfl, ?_, Window.settle_le _ _ _ _, ?_, Window.settle_le _ _ _ _⟩
  · apply Bool.eq_false_iff.2
    intro still
    have empty : session.document.tokens.isEmpty := (Bool.and_eq_true_iff.1 still).1
    exact (sound.settle height).follow still (Array.isEmpty_iff_size_eq_zero.1 empty)
  · by_cases empty : session.document.tokens.size = 0
    · rw [(sound.settle height).resting empty]
      exact Nat.zero_le _
    · rw [settle_tokensOffset session height empty]
      exact Window.settle_le _ _ _ _

/-- Through every run the document stays as it was read, the selection is a token of it, a line to be revealed is that
of the selected token, and a session that is to be left stays so; and after every draw, what the panes show starts no
further down than that it fills them. -/
theorem run_invariant (source : String) (events : List Event) :
    let session := (start (.ofSource source)).run events
    session.document = .ofSource source ∧
      (session.selected = none ↔ lex source = []) ∧
      (∀ index, session.selected = some index → index < (lex source).length) ∧
      (∀ line, session.view.reveal = some line → ∃ index token,
        session.selected = some index ∧ (lex source)[index]? = some token ∧ line = token.location.line) ∧
      (session.quit → ∀ later, (session.run later).quit) ∧
      ∀ width height,
        let view := (session.draw width height).1.view
        let rows := max 1 (height - 3)
        let recovery := Program.recover source
        let treeRows := max 1 recovery.program.outline.length +
          if recovery.errors = [] then 0 else 2 + recovery.errors.length
        view.reveal = none ∧ view.follow = false ∧ view.sourceOffset ≤ (Text.lines source).length - rows ∧
          view.tokensOffset ≤ (lex source).length - rows ∧ view.treeOffset ≤ treeRows - rows := by
  intro session
  have document : session.document = .ofSource source := run_document _ events
  have tokens : session.document.tokens = (lex source).toArray := by rw [document]; rfl
  have sound : session.Sound := run_sound _ events
  refine ⟨document, ?_, ?_, ?_, fun quit => run_quit quit, ?_⟩
  · rw [sound.selected_eq_none, tokens, List.size_toArray, List.length_eq_zero_iff]
  · intro index same
    have inside := sound.inside index same
    rwa [tokens, List.size_toArray] at inside
  · intro line pending
    obtain ⟨index, selected, token, here, same⟩ := selectedLine_eq_some.1 (sound.reveal line pending)
    rw [tokens, List.getElem?_toArray] at here
    exact ⟨index, token, selected, here, same.symm⟩
  · intro width height view rows recovery treeRows
    have settled := sound.settled height
    rw [length_treeItems, document] at settled
    exact settled

end ScriptLens.Explorer.Session
