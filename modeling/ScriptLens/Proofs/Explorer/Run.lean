import ScriptLens.Explorer.Session

/-!
Sessions as they run, key by key and draw by draw. Of all that a key can do there are three kinds
(`Session.press_pressed`), and a draw settles the view and nothing else, so that a property of every run takes a
lemma for each (`Session.run_induction`).
-/

namespace ScriptLens.Explorer

/-- A key that is pressed, or a draw on a screen of that size. -/
inductive Event where
  | key (key : Key)
  | draw (width height : Nat)
  deriving DecidableEq

namespace Session

def react (session : Session) : Event → Session
  | .key key => session.press key
  | .draw width height => (session.draw width height).1

def run (session : Session) (events : List Event) : Session := events.foldl react session

variable {session next : Session}

theorem run_append (earlier later : List Event) : session.run (earlier ++ later) = (session.run earlier).run later :=
  List.foldl_append

/-- What a key makes of a session. Offsets may go anywhere; the selection goes to tokens only. -/
inductive Pressed (session : Session) : Session → Prop where
  | selects {index : Nat} {token : Token} (here : session.document.tokens[index]? = some token) (status : String) :
      Pressed session { session with
        selected := some index
        view := { session.view with reveal := some token.location.line, follow := true }
        status := status }
  | moves (focus : Focus) (sourceOffset treeOffset : Nat) (status : String) :
      Pressed session { session with
        focus := focus
        view := { session.view with sourceOffset := sourceOffset, treeOffset := treeOffset }
        status := status }
  | leaves : Pressed session { session with quit := true }

variable (session)

theorem Pressed.refl : Pressed session session :=
  .moves session.focus session.view.sourceOffset session.view.treeOffset session.status

theorem select_restated_pressed (index : Nat) (status : String) :
    Pressed session { session.select index with status := status } := by
  unfold select
  dsimp only
  split
  · exact .moves session.focus session.view.sourceOffset session.view.treeOffset status
  · next token here => exact .selects here status

theorem select_pressed (index : Nat) : Pressed session (session.select index) :=
  session.select_restated_pressed index (session.select index).status

theorem selectPrevious_pressed : Pressed session session.selectPrevious := by
  unfold selectPrevious
  split
  · exact .refl session
  · exact session.select_pressed _

theorem selectNext_pressed : Pressed session session.selectNext := by
  unfold selectNext
  split
  · exact .refl session
  · exact session.select_pressed _

theorem selectError_pressed : Pressed session session.selectError := by
  unfold selectError
  split
  · exact .moves session.focus session.view.sourceOffset session.view.treeOffset "No syntax errors"
  · exact session.select_restated_pressed _ _

theorem up_pressed : Pressed session session.up := by
  unfold up
  split
  · exact .moves session.focus (session.view.sourceOffset - 1) session.view.treeOffset session.status
  · exact session.selectPrevious_pressed
  · exact .moves session.focus session.view.sourceOffset (session.view.treeOffset - 1) session.status

theorem down_pressed : Pressed session session.down := by
  unfold down
  split
  · exact .moves session.focus (session.view.sourceOffset + 1) session.view.treeOffset session.status
  · exact session.selectNext_pressed
  · exact .moves session.focus session.view.sourceOffset (session.view.treeOffset + 1) session.status

theorem press_pressed (key : Key) : Pressed session (session.press key) := by
  have focused (focus : Focus) : Pressed session { session with focus := focus } :=
    .moves focus session.view.sourceOffset session.view.treeOffset session.status
  unfold press
  split
  · exact .leaves
  · exact .leaves
  · exact session.selectError_pressed
  · exact focused session.focus.next
  · exact focused session.focus.previous
  · exact session.selectPrevious_pressed
  · exact session.selectNext_pressed
  · exact session.select_pressed 0
  · exact session.select_pressed _
  · exact session.up_pressed
  · exact session.down_pressed
  · exact .refl session
  · exact .refl session

/-- What it is to select a token that is there. -/
theorem select_eq {index : Nat} {token : Token} (here : session.document.tokens[index]? = some token) :
    session.select index = { session with
      selected := some index
      view := { session.view with reveal := some token.location.line, follow := true }
      status := token.description ++ " at " ++ token.location.text } := by
  have inside : index < session.document.tokens.size := (Array.getElem?_eq_some_iff.1 here).1
  have bound : min index (session.document.tokens.size - 1) = index := by omega
  unfold select
  dsimp only
  rw [bound, here]

/-- What every key and every draw preserves is so after any run. -/
theorem run_induction (holds : Session → Prop)
    (pressed : ∀ {session next : Session}, Pressed session next → holds session → holds next)
    (settled : ∀ (session : Session) (height : Nat), holds session → holds (session.settle height))
    (session : Session) (start : holds session) (events : List Event) : holds (session.run events) := by
  induction events generalizing session with
  | nil => exact start
  | cons event events ih =>
    apply ih
    cases event with
    | key key => exact pressed (session.press_pressed key) start
    | draw width height => exact settled session height start

@[simp] theorem settle_document (height : Nat) : (session.settle height).document = session.document := rfl

theorem Pressed.document_eq {session next : Session} (pressed : Pressed session next) :
    next.document = session.document := by
  cases pressed <;> rfl

theorem run_document (events : List Event) : (session.run events).document = session.document := by
  apply run_induction fun later => later.document = session.document
  · intro later next pressed same
    exact pressed.document_eq.trans same
  · intro later height same
    exact (later.settle_document height).trans same
  · rfl

/-- Nothing takes back that the session is to be left. -/
theorem run_quit {session : Session} (quit : session.quit) (events : List Event) : (session.run events).quit := by
  apply run_induction fun later => later.quit
  · intro later next pressed quit
    cases pressed with
    | selects => exact quit
    | moves => exact quit
    | leaves => rfl
  · intro later height quit
    exact quit
  · exact quit

end Session
end ScriptLens.Explorer
