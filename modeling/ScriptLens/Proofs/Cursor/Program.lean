import ScriptLens.Program.Parser
import ScriptLens.Proofs.Cursor.Stmt

/-! The procedures for whole programs, from a cursor with no level open to one with none. -/

namespace ScriptLens.Procedure
open Reader

variable {cursor : Cursor}

theorem program_follows : Follows 0 (run .statement) Program.statement.read := statement_follows (Nat.zero_add _)

theorem untilEnd_follows (before : List Stmt) : Follows 0 (run (.untilEnd before)) (Program.untilEnd before) := by
  intro cursor same
  generalize shown : cursor.input.ahead = tokens
  fun_induction Program.untilEnd before tokens generalizing cursor with
  | case1 before =>
    rw [outcomes_run, Routine.body, peek_bind, if_pos (Cursor.kind_of_done shown)]
    exact agrees_pure shown _
  | case2 before token rest next after outcome ih =>
    obtain ⟨rfl, real, -⟩ := Cursor.shows shown
    have start := program_follows cursor same
    rw [shown, outcome] at start
    rw [outcomes_run, Routine.body, peek_bind, if_neg real]
    exact start.goesOn fun behind kept left => ih behind (kept.trans same) left
  | case3 before token rest fault after outcome =>
    obtain ⟨rfl, real, -⟩ := Cursor.shows shown
    have start := program_follows cursor same
    rw [shown, outcome] at start
    rw [outcomes_run, Routine.body, peek_bind, if_neg real]
    exact start.stops _

/-- What is skipped behind a fault. -/
theorem synchronize_resumes (cursor : Cursor) :
    ∃ after : Cursor, after.depth = cursor.depth ∧
      after.input = ⟨Program.resume cursor.input.ahead, cursor.input.stop⟩ ∧
      (run .synchronize).outcomes cursor = {(.ok (), after)} := by
  generalize shown : cursor.input.ahead = tokens
  fun_induction Program.resume tokens generalizing cursor with
  | case1 =>
    refine ⟨cursor, rfl, by rw [← shown], ?_⟩
    rw [outcomes_run, Routine.body, peek_bind, if_pos (Cursor.kind_of_done shown), outcomes_pure]
  | case2 token rest opens =>
    obtain ⟨rfl, real, -⟩ := Cursor.shows shown
    refine ⟨cursor, rfl, by rw [← shown], ?_⟩
    rw [outcomes_run, Routine.body, peek_bind, if_neg real, if_pos opens, outcomes_pure]
  | case3 token rest plain mark =>
    obtain ⟨rfl, real, left⟩ := Cursor.shows shown
    refine ⟨cursor.next, cursor.depth_next, by rw [← left, ← Cursor.stop_next real], ?_⟩
    rw [outcomes_run, Routine.body, peek_bind, if_neg real, if_neg plain, advance_bind, if_pos mark, outcomes_pure]
  | case4 token rest plain unmarked ih =>
    obtain ⟨rfl, real, left⟩ := Cursor.shows shown
    obtain ⟨after, depth, input, same⟩ := ih cursor.next left
    refine ⟨after, depth.trans cursor.depth_next, by rw [input, Cursor.stop_next real], ?_⟩
    rw [outcomes_run, Routine.body, peek_bind, if_neg real, if_neg plain, advance_bind, if_neg unmarked, same]

theorem salvage_salvages (before : List Stmt) (errors : List SyntaxError) {cursor : Cursor} (same : cursor.depth = 0) :
    ∃ after : Cursor, after.depth = 0 ∧ after.input = ⟨[], cursor.input.stop⟩ ∧
      (run (.salvage before errors)).outcomes cursor =
        {(.ok (Program.salvage cursor.input.stop before errors cursor.input.ahead), after)} := by
  generalize shown : cursor.input.ahead = tokens
  generalize ends : cursor.input.stop = stop
  fun_induction Program.salvage stop before errors tokens generalizing cursor with
  | case1 before errors =>
    refine ⟨cursor, same, by rw [← shown, ← ends], ?_⟩
    rw [outcomes_run, Routine.body, peek_bind, if_pos (Cursor.kind_of_done shown), outcomes_pure]
  | case2 before errors token rest next after outcome ih =>
    obtain ⟨rfl, real, -⟩ := Cursor.shows shown
    obtain ⟨middle, depth, input, reads⟩ := program_follows cursor same
    rw [shown, outcome] at input reads
    obtain ⟨last, closed, done, goesOn⟩ := ih (depth.trans same) (congrArg Input.ahead input)
      ((congrArg Input.stop input).trans ends)
    refine ⟨last, closed, done, ?_⟩
    rw [outcomes_run, Routine.body, peek_bind, if_neg real, attempt_bind reads]
    exact goesOn
  | case3 before errors token rest fault after outcome ih =>
    obtain ⟨rfl, real, -⟩ := Cursor.shows shown
    obtain ⟨middle, depth, input, reads⟩ := program_follows cursor same
    rw [shown, outcome] at input reads
    obtain ⟨behind, depth', input', skips⟩ := synchronize_resumes middle
    rw [input] at input'
    obtain ⟨last, closed, done, goesOn⟩ := ih (depth'.trans (depth.trans same)) (congrArg Input.ahead input')
      ((congrArg Input.stop input').trans ends)
    have found : middle.current = after.headD stop := by
      rw [← middle.current_input, input, ends]
      rfl
    rw [← found] at goesOn ⊢
    refine ⟨last, closed, done, ?_⟩
    rw [outcomes_run, Routine.body, peek_bind, if_neg real, attempt_bind reads]
    exact (bind_of_returns skips).trans goesOn

end ScriptLens.Procedure
