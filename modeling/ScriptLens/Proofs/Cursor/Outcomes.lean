import Mathlib.Data.Set.Basic
import ScriptLens.Proofs.Cursor.Procedures

/-!
What comes of procedures in sequence. What can come of one is a set (`Procedure.outcomes`), and it is known by
equations, one for each way to build a procedure. Where it has one element, the procedure ends, and in one way only.
-/

namespace ScriptLens.Procedure

variable {α β γ : Type} {cursor : Cursor}

theorem bind_pure_eq (procedure : Procedure α) : procedure.bind .done = procedure := by
  induction procedure with
  | done value => rfl
  | throw error => rfl
  | change move next ih => exact congrArg (Procedure.change move) (funext ih)
  | attempt inner next _ ih => exact congrArg (Procedure.attempt inner) (funext ih)
  | call routine next ih => exact congrArg (Procedure.call routine) (funext ih)

theorem bind_bind (procedure : Procedure α) (next : α → Procedure β) (later : β → Procedure γ) :
    (procedure.bind next).bind later = procedure.bind fun value => (next value).bind later := by
  induction procedure with
  | done value => rfl
  | throw error => rfl
  | change move first ih => exact congrArg (Procedure.change move) (funext fun value => ih value next)
  | attempt inner first _ ih => exact congrArg (Procedure.attempt inner) (funext fun value => ih value next)
  | call routine first ih => exact congrArg (Procedure.call routine) (funext fun value => ih value next)

instance : LawfulMonad Procedure := LawfulMonad.mk' Procedure bind_pure_eq (fun _ _ => rfl) bind_bind

theorem ends_done {value : α} {ending : Except SyntaxError α × Cursor} :
    (.done value : Procedure α).Ends cursor ending ↔ ending = (.ok value, cursor) := by
  constructor
  · intro ends
    cases ends
    rfl
  · rintro rfl
    exact .done value cursor

theorem ends_throw {error : SyntaxError} {ending : Except SyntaxError α × Cursor} :
    (.throw error : Procedure α).Ends cursor ending ↔ ending = (.error error, cursor) := by
  constructor
  · intro ends
    cases ends
    rfl
  · rintro rfl
    exact .throw error cursor

theorem ends_change {move : Cursor → β × Cursor} {next : β → Procedure α} {ending : Except SyntaxError α × Cursor} :
    (Procedure.change move next).Ends cursor ending ↔ (next (move cursor).1).Ends (move cursor).2 ending := by
  constructor
  · intro ends
    cases ends with
    | change ends => exact ends
  · exact .change

theorem ends_attempt {inner : Procedure β} {next : Except SyntaxError β → Procedure α}
    {ending : Except SyntaxError α × Cursor} :
    (Procedure.attempt inner next).Ends cursor ending ↔
      ∃ outcome middle, inner.Ends cursor (outcome, middle) ∧ (next outcome).Ends middle ending := by
  constructor
  · intro ends
    cases ends with
    | attempt first later => exact ⟨_, _, first, later⟩
  · rintro ⟨outcome, middle, first, later⟩
    exact .attempt first later

theorem ends_call {routine : Routine β} {next : β → Procedure α} {ending : Except SyntaxError α × Cursor} :
    (Procedure.call routine next).Ends cursor ending ↔
      (∃ value middle, routine.body.Ends cursor (.ok value, middle) ∧ (next value).Ends middle ending) ∨
        ∃ error middle, routine.body.Ends cursor (.error error, middle) ∧ ending = (.error error, middle) := by
  constructor
  · intro ends
    cases ends with
    | returned first later => exact .inl ⟨_, _, first, later⟩
    | thrown first => exact .inr ⟨_, _, first, rfl⟩
  · rintro (⟨value, middle, first, later⟩ | ⟨error, middle, first, rfl⟩)
    · exact .returned first later
    · exact .thrown first

theorem ends_bind {procedure : Procedure α} {next : α → Procedure β} {ending : Except SyntaxError β × Cursor} :
    (procedure >>= next).Ends cursor ending ↔
      (∃ value middle, procedure.Ends cursor (.ok value, middle) ∧ (next value).Ends middle ending) ∨
        ∃ error middle, procedure.Ends cursor (.error error, middle) ∧ ending = (.error error, middle) := by
  change (procedure.bind next).Ends cursor ending ↔ _
  induction procedure generalizing cursor with
  | done value => simp [Procedure.bind, ends_done]
  | throw error => simp [Procedure.bind, ends_throw]
  | change move first ih => simp only [Procedure.bind, ends_change, ih]
  | attempt inner first _ ih =>
    simp only [Procedure.bind, ends_attempt, ih]
    grind
  | call routine first ih =>
    simp only [Procedure.bind, ends_call, ih]
    grind

/-- All that can come of a procedure. -/
def outcomes (procedure : Procedure α) (cursor : Cursor) : Set (Except SyntaxError α × Cursor) :=
  {ending | procedure.Ends cursor ending}

theorem outcomes_pure (value : α) (cursor : Cursor) :
    (pure value : Procedure α).outcomes cursor = {(.ok value, cursor)} := Set.ext fun _ => ends_done

theorem outcomes_throw (error : SyntaxError) (cursor : Cursor) :
    (.throw error : Procedure α).outcomes cursor = {(.error error, cursor)} := Set.ext fun _ => ends_throw

theorem outcomes_change (move : Cursor → β × Cursor) (next : β → Procedure α) (cursor : Cursor) :
    (Procedure.change move next).outcomes cursor = (next (move cursor).1).outcomes (move cursor).2 :=
  Set.ext fun _ => ends_change

theorem outcomes_attempt {inner : Procedure β} {middle : Cursor} {outcome : Except SyntaxError β}
    (ended : inner.outcomes cursor = {(outcome, middle)}) (next : Except SyntaxError β → Procedure α) :
    (Procedure.attempt inner next).outcomes cursor = (next outcome).outcomes middle := by
  have only (ending : Except SyntaxError β × Cursor) : inner.Ends cursor ending ↔ ending = (outcome, middle) :=
    Set.ext_iff.1 ended ending
  refine Set.ext fun ending => ends_attempt.trans ?_
  simp only [only, Prod.mk.injEq]
  constructor
  · rintro ⟨_, _, ⟨rfl, rfl⟩, later⟩
    exact later
  · exact fun later => ⟨outcome, middle, ⟨rfl, rfl⟩, later⟩

/-- A call does what the body does. -/
theorem outcomes_run (routine : Routine α) (cursor : Cursor) :
    (run routine).outcomes cursor = routine.body.outcomes cursor := by
  have whole : (run routine).outcomes cursor = (routine.body >>= Procedure.done).outcomes cursor :=
    Set.ext fun _ => ends_call.trans ends_bind.symm
  rw [whole]
  exact congrArg (outcomes · cursor) (bind_pure routine.body)

theorem bind_congr_at {procedure other : Procedure α} {start after : Cursor}
    (same : procedure.outcomes start = other.outcomes after) (next : α → Procedure β) :
    (procedure >>= next).outcomes start = (other >>= next).outcomes after := by
  have alike (ending : Except SyntaxError α × Cursor) : procedure.Ends start ending ↔ other.Ends after ending :=
    Set.ext_iff.1 same ending
  refine Set.ext fun ending => ends_bind.trans (Iff.trans ?_ ends_bind.symm)
  simp only [alike]

theorem bind_of_returns {procedure : Procedure α} {next : α → Procedure β} {after : Cursor} {value : α}
    (returns : procedure.outcomes cursor = {(.ok value, after)}) :
    (procedure >>= next).outcomes cursor = (next value).outcomes after :=
  bind_congr_at (returns.trans (outcomes_pure value after).symm) next

theorem bind_of_throws {procedure : Procedure α} {next : α → Procedure β} {after : Cursor} {error : SyntaxError}
    (throws : procedure.outcomes cursor = {(.error error, after)}) :
    (procedure >>= next).outcomes cursor = {(.error error, after)} :=
  (bind_congr_at (throws.trans (outcomes_throw error after).symm) next).trans (outcomes_throw error after)

theorem change_bind (move : Cursor → α × Cursor) (next : α → Procedure β) (cursor : Cursor) :
    (.change move .done >>= next).outcomes cursor = (next (move cursor).1).outcomes (move cursor).2 :=
  outcomes_change ..

theorem attempt_bind {inner : Procedure α} {middle : Cursor} {outcome : Except SyntaxError α}
    (ended : inner.outcomes cursor = {(outcome, middle)}) (next : Except SyntaxError α → Procedure β) :
    (.attempt inner .done >>= next).outcomes cursor = (next outcome).outcomes middle :=
  outcomes_attempt ended _

theorem peek_bind (next : Token → Procedure β) (cursor : Cursor) :
    (peek >>= next).outcomes cursor = (next cursor.current).outcomes cursor := change_bind ..

theorem advance_bind (next : Token → Procedure β) (cursor : Cursor) :
    (advance >>= next).outcomes cursor = (next cursor.current).outcomes cursor.next := change_bind ..

theorem outcomes_advance (cursor : Cursor) :
    advance.outcomes cursor = (pure cursor.current : Procedure Token).outcomes cursor.next := outcomes_change ..

theorem outcomes_fail (production : Production) (expected : Expected) (cursor : Cursor) :
    (fail production expected : Procedure α).outcomes cursor =
      {(.error ⟨⟨production, expected⟩, cursor.current⟩, cursor)} := by
  rw [fail, peek_bind, outcomes_throw]

theorem take_bind {kind : Kind} (here : cursor.current.kind = kind) (production : Production) (expected : Expected)
    (next : Token → Procedure β) :
    (take kind production expected >>= next).outcomes cursor = (advance >>= next).outcomes cursor := by
  have same : (take kind production expected).outcomes cursor = advance.outcomes cursor := by
    rw [take, peek_bind, if_pos here]
  exact bind_congr_at same next

/-- Where all levels are open, nothing is done. -/
theorem nested_of_full (full : cursor.depth = nestingLimit) (production : Production) (inner : Procedure α) :
    (nested production inner).outcomes cursor =
      (fail production .shallowerNesting : Procedure α).outcomes cursor := by
  rw [nested, change_bind, if_pos (Nat.le_of_eq full.symm)]

theorem nested_of_room (room : cursor.depth < nestingLimit) (production : Production) {inner : Procedure α}
    {outcome : Except SyntaxError α} {after : Cursor} (ended : inner.outcomes cursor.deeper = {(outcome, after)}) :
    (nested production inner).outcomes cursor = {(outcome, after.shallower)} := by
  rw [nested, change_bind, if_neg (Nat.not_le.mpr room), change_bind, attempt_bind ended, change_bind]
  cases outcome with
  | ok value => exact outcomes_pure value after.shallower
  | error error => exact outcomes_throw error after.shallower

end ScriptLens.Procedure
