import ScriptLens.Proofs.Explorer.Run
import ScriptLens.Proofs.Explorer.Window

/-!
What draws do to a session: they settle what is in view, and keys do not ask for that. So a session is known from its
keys but for the view (`Session.run_unviewed`). A view that is settled stays as it is (`Session.settle_settle`), and so
does the picture, whoever paints it: nothing here depends on how the panes are painted.
-/

namespace ScriptLens.Explorer

def Event.key? : Event → Option Key
  | .key pressed => some pressed
  | .draw _ _ => none

/-- The keys among the events, in order. -/
def keysOf (events : List Event) : List Key := events.filterMap Event.key?

section
variable (height offset : Nat)

theorem SourcePane.settle_settle (pane : SourcePane) (reveal : Option Nat) :
    pane.settle height (pane.settle height offset reveal) none = pane.settle height offset reveal :=
  Window.settle_settle _ _ offset _

theorem TokensPane.settle_settle (pane : TokensPane) (follow : Bool) :
    pane.settle height (pane.settle height offset follow) (pane.stillFollows follow) =
      pane.settle height offset follow := by
  unfold settle stillFollows
  cases pane.tokens.isEmpty with
  | true => rfl
  | false => exact Window.settle_settle _ _ offset _

theorem TreePane.settle_settle (pane : TreePane) :
    pane.settle height (pane.settle height offset) = pane.settle height offset :=
  Window.settle_settle _ _ offset none

end

theorem TokensPane.stillFollows_stillFollows (pane : TokensPane) (follow : Bool) :
    pane.stillFollows (pane.stillFollows follow) = pane.stillFollows follow :=
  Bool.and_self_left _ _

namespace Session

/-- A session with nothing said of what is in view. -/
def unviewed (session : Session) : Session := { session with view := .start }

/-- What a key does to a session but for the view. -/
def hear (session : Session) (key : Key) : Session := (session.press key).unviewed

variable (session : Session)

theorem settle_unviewed (height : Nat) : (session.settle height).unviewed = session.unviewed := rfl

theorem select_unviewed (index : Nat) : (session.unviewed.select index).unviewed = (session.select index).unviewed := by
  unfold select
  dsimp only [unviewed]
  split <;> rfl

theorem selectPrevious_unviewed : session.unviewed.selectPrevious.unviewed = session.selectPrevious.unviewed := by
  unfold selectPrevious
  dsimp only [unviewed]
  split
  · rfl
  · exact session.select_unviewed _

theorem selectNext_unviewed : session.unviewed.selectNext.unviewed = session.selectNext.unviewed := by
  unfold selectNext
  dsimp only [unviewed]
  split
  · rfl
  · exact session.select_unviewed _

theorem selectError_unviewed : session.unviewed.selectError.unviewed = session.selectError.unviewed := by
  unfold selectError
  dsimp only [unviewed]
  split
  · rfl
  · next error later errors =>
    exact congrArg (fun chosen => { chosen with status := error.message }) (session.select_unviewed _)

theorem up_unviewed : session.unviewed.up.unviewed = session.up.unviewed := by
  unfold up
  dsimp only [unviewed]
  split
  · rfl
  · exact session.selectPrevious_unviewed
  · rfl

theorem down_unviewed : session.unviewed.down.unviewed = session.down.unviewed := by
  unfold down
  dsimp only [unviewed]
  split
  · rfl
  · exact session.selectNext_unviewed
  · rfl

/-- Keys write what is in view, and read it for nothing else. -/
theorem hear_unviewed (key : Key) : session.unviewed.hear key = session.hear key := by
  unfold hear press
  split
  · rfl
  · rfl
  · exact session.selectError_unviewed
  · rfl
  · rfl
  · exact session.selectPrevious_unviewed
  · exact session.selectNext_unviewed
  · exact session.select_unviewed 0
  · exact session.select_unviewed _
  · exact session.up_unviewed
  · exact session.down_unviewed
  · rfl
  · rfl

/-- But for the view, a run is what is made of it by its keys. -/
theorem run_unviewed (events : List Event) :
    (session.run events).unviewed = (keysOf events).foldl hear session.unviewed := by
  induction events generalizing session with
  | nil => rfl
  | cons event events ih =>
    cases event with
    | key key =>
      change ((session.press key).run events).unviewed = (keysOf events).foldl hear (session.unviewed.hear key)
      rw [ih, hear_unviewed, hear]
    | draw width height =>
      change ((session.settle height).run events).unviewed = (keysOf events).foldl hear session.unviewed
      rw [ih, settle_unviewed]

/-- Nothing is left to settle in a view that has been settled for that height. -/
theorem settle_settle (height : Nat) : (session.settle height).settle height = session.settle height := by
  let panes := panesHeight height
  let view := session.view
  have follow := session.tokensPane.stillFollows_stillFollows view.follow
  have view : (session.settle height).settledView height = session.settledView height := by
    change View.mk _ _ _ _ _ = View.mk _ _ _ _ _
    rw [View.mk.injEq]
    exact ⟨session.sourcePane.settle_settle panes view.sourceOffset view.reveal, rfl,
      session.tokensPane.settle_settle panes view.tokensOffset view.follow, follow,
      session.treePane.settle_settle panes view.treeOffset⟩
  exact congrArg (fun view => { session with view := view }) view

/-- The same picture again, and no change in the session. -/
theorem drawnBy_drawnBy {Picture : Type} (painter : Session → Nat → Nat → Picture) (width height : Nat) :
    (session.drawnBy painter width height).1.drawnBy painter width height = session.drawnBy painter width height := by
  unfold drawnBy
  dsimp only
  rw [settle_settle]

/-- Behind the same keys, whatever was drawn between them, two runs are at the same session but for the view. A draw
that is made twice in a row shows the same picture, whoever paints it, and leaves the same session as if it is made
once. -/
theorem draws_unheard (source : String) {events events' : List Event} (same : keysOf events = keysOf events') :
    let session := (start (.ofSource source)).run events
    let session' := (start (.ofSource source)).run events'
    (session.focus = session'.focus ∧ session.selected = session'.selected ∧
      session.selectedLine = session'.selectedLine ∧ session.quit = session'.quit ∧
      session.status = session'.status) ∧
    ∀ {Picture : Type} (painter : Session → Nat → Nat → Picture) width height,
      let drawn := session.drawnBy painter width height
      drawn.1 = session.run [.draw width height] ∧ drawn.1.drawnBy painter width height = drawn := by
  intro session session'
  have heard : session.unviewed = session'.unviewed := by
    calc session.unviewed
        = (keysOf events).foldl hear (start (.ofSource source)).unviewed := run_unviewed _ events
      _ = (keysOf events').foldl hear (start (.ofSource source)).unviewed := by rw [same]
      _ = session'.unviewed := (run_unviewed _ events').symm
  have part {α : Type} (read : Session → α) : read session.unviewed = read session'.unviewed := congrArg read heard
  exact ⟨⟨part focus, part selected, part selectedLine, part quit, part status⟩,
    fun painter width height => ⟨rfl, session.drawnBy_drawnBy painter width height⟩⟩

/-- The last token is selected and the tree scrolled, in one of two runs with draws in front, between and behind. -/
theorem draws_unheard_scrolled :
    let keys : List Event := [.key .last, .key .backTab, .key .down]
    let drawn : List Event := [.draw 9 4, .key .last, .draw 80 3, .draw 9 4, .key .backTab, .key .down, .draw 0 0]
    let session := (start (.ofSource "a\nb")).run keys
    let session' := (start (.ofSource "a\nb")).run drawn
    keysOf keys = keysOf drawn ∧ session.selectedLine = session'.selectedLine ∧ session.status = session'.status := by
  intro keys drawn session session'
  have same : keysOf keys = keysOf drawn := rfl
  obtain ⟨⟨-, -, line, -, status⟩, -⟩ := draws_unheard "a\nb" same
  exact ⟨same, line, status⟩

end Session
end ScriptLens.Explorer
