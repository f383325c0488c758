import ScriptLens.Proofs.Cursor.Expr
import ScriptLens.Stmt.Parser

/-! The procedures for statements do what the readers do, and leave as many levels open as they find. -/

namespace ScriptLens.Procedure
open Reader

variable {depth : Nat} {cursor : Cursor}

theorem untilBrace_follows {statement : Consumer Stmt} (follows : Follows depth (run .statement) statement.read)
    (before : List Stmt) : Follows depth (run (.untilBrace before)) (Stmt.untilBrace statement before) := by
  intro cursor same
  generalize shown : cursor.input.ahead = tokens
  fun_induction Stmt.untilBrace statement before tokens generalizing cursor with
  | case1 before =>
    have ending := Cursor.kind_of_done shown
    rw [outcomes_run, Routine.body, peek_bind, ending]
    exact agrees_fail shown _ _
  | case2 before token rest closing =>
    obtain ⟨rfl, -, -⟩ := Cursor.shows shown
    rw [outcomes_run, Routine.body, peek_bind, if_pos closing]
    exact agrees_taken shown (.pure _)
  | case3 before token rest open_ next after outcome ih =>
    obtain ⟨rfl, real, -⟩ := Cursor.shows shown
    have start := follows cursor same
    rw [shown, outcome] at start
    rw [outcomes_run, Routine.body, peek_bind, if_neg open_, if_neg real]
    exact start.goesOn fun behind kept left => ih behind (kept.trans same) left
  | case4 before token rest open_ fault after outcome =>
    obtain ⟨rfl, real, -⟩ := Cursor.shows shown
    have start := follows cursor same
    rw [shown, outcome] at start
    rw [outcomes_run, Routine.body, peek_bind, if_neg open_, if_neg real]
    exact start.stops _

theorem block_follows {deeper : Option (Consumer Stmt)} (full : deeper = none → depth = nestingLimit)
    (inside : ∀ statement ∈ deeper, depth < nestingLimit ∧ Follows (depth + 1) (run .statement) statement.read) :
    Follows depth (run .block) (Stmt.block deeper) := by
  rintro cursor rfl
  rw [outcomes_run, Routine.body]
  cases deeper with
  | none =>
    rw [nested_of_full (full rfl)]
    exact agrees_fail rfl _ _
  | some statement =>
    obtain ⟨room, follows⟩ := inside statement rfl
    have body : Follows (cursor.depth + 1) (expect .block .leftBrace >>= fun _ => run (.untilBrace []))
        (Stmt.block (some statement)) :=
      (Follows.take (by decide) _ _).bind fun _ => untilBrace_follows follows []
    exact Agrees.nested (body cursor.deeper rfl) room .block

section
variable {read : Reader Expr} {deeper : Option (Consumer Stmt)}
  (value : Follows depth (run (.expression .whole)) read) (body : Follows depth (run .block) (Stmt.block deeper))

include value in
theorem ending_follows {α : Type} (production : Production) (build : Expr → α) :
    Follows depth (do let value ← run (.expression .whole); let _ ← expect production .semicolon; return build value)
      (do let value ← read; let _ ← Reader.expect production .semicolon; return build value) :=
  value.bind fun _ => (Follows.take (by decide) _ _).bind fun _ => .pure _

include value body in
theorem guarded_follows {α : Type} (production : Production) {next : Expr → List Stmt → Procedure α}
    {following : Expr × List Stmt → Reader α}
    (later : ∀ condition body, Follows depth (next condition body) (following (condition, body))) :
    Follows depth (do let condition ← guard production; let body ← run .block; next condition body)
      (Stmt.guarded read deeper production >>= following) := by
  simp only [guard, Stmt.guarded, bind_assoc, pure_bind]
  exact (Follows.take (by decide) _ _).bind fun _ => value.bind fun condition =>
    (Follows.take (by decide) _ _).bind fun _ => body.bind fun body => later condition body

include body in
theorem alternative_follows : Follows depth alternative (Stmt.alternative deeper) := by
  rintro cursor rfl
  rw [alternative, peek_bind]
  cases shown : cursor.input.ahead with
  | nil =>
    have other : cursor.current.isKeyword .elseKw = false := by
      simp [Token.isKeyword, Token.keyword?, Cursor.kind_of_done shown]
    rw [other]
    exact agrees_pure shown none
  | cons token rest =>
    obtain ⟨rfl, -, -⟩ := Cursor.shows shown
    rw [Stmt.alternative]
    split
    · exact agrees_taken shown (body.bind fun other => .pure (some other))
    · exact agrees_pure shown none

include value body in
/-- A statement that starts with a reserved word. -/
theorem statement_agrees_word (same : cursor.depth = depth) {first : Token} {rest : List Token}
    (shown : cursor.input.ahead = first :: rest) (opens : first.opensStmt = true) :
    Agrees cursor (Stmt.statementWith read deeper (first :: rest)) ((run .statement).outcomes cursor) := by
  subst same
  obtain ⟨rfl, -, -⟩ := Cursor.shows shown
  rw [outcomes_run, Routine.body, peek_bind, Stmt.statementWith, Stmt.behind?]
  unfold Token.opensStmt at opens
  cases word : cursor.current.keyword? with
  | none =>
    rw [word] at opens
    contradiction
  | some keyword =>
    rw [word] at opens
    cases keyword with
    | varKw =>
      dsimp only
      exact agrees_taken shown ((Follows.take (by decide) _ _).bind fun name =>
        (Follows.take (by decide) _ _).bind fun _ => ending_follows value _ _)
    | ifKw =>
      dsimp only
      refine agrees_taken shown (guarded_follows value body _ fun condition inner =>
        (alternative_follows body).bind fun other => ?_)
      cases other <;> exact .pure _
    | whileKw =>
      dsimp only
      exact agrees_taken shown (guarded_follows value body _ fun condition inner => .pure _)
    | returnKw =>
      dsimp only
      exact agrees_taken shown (ending_follows value _ _)
    | _ => contradiction

theorem statement_of_plain (plain : cursor.current.opensStmt = false) :
    (run .statement).outcomes cursor =
      (if cursor.current.kind = .identifier then assignment else fail .statement .statement).outcomes cursor := by
  rw [outcomes_run, Routine.body, peek_bind]
  unfold Token.opensStmt at plain
  cases word : cursor.current.keyword? with
  | none => rfl
  | some keyword =>
    rw [word] at plain
    cases keyword <;> first | rfl | contradiction

theorem behind?_of_plain {first : Token} (plain : first.opensStmt = false) :
    Stmt.behind? read deeper first = if first.kind = .identifier then some (Stmt.assignment read first) else none := by
  unfold Token.opensStmt at plain
  unfold Stmt.behind?
  split at plain <;> simp_all

include value in
/-- A statement that starts with a name, or none at all. -/
theorem statement_agrees_plain (same : cursor.depth = depth) {first : Token} {rest : List Token}
    (shown : cursor.input.ahead = first :: rest) (plain : first.opensStmt = false) :
    Agrees cursor (Stmt.statementWith read deeper (first :: rest)) ((run .statement).outcomes cursor) := by
  subst same
  obtain ⟨rfl, -, -⟩ := Cursor.shows shown
  rw [statement_of_plain plain, Stmt.statementWith, behind?_of_plain plain]
  by_cases name : cursor.current.kind = .identifier
  · simp only [name, if_true]
    rw [assignment, identifier, take_bind name]
    exact agrees_taken shown ((Follows.take (by decide) _ _).bind fun _ => ending_follows value _ _)
  · simp only [name, if_false]
    exact agrees_fail shown _ _

include value body in
theorem statement_follows_with : Follows depth (run .statement) (Stmt.statementWith read deeper) := by
  intro cursor same
  cases shown : cursor.input.ahead with
  | nil =>
    have ending := Cursor.kind_of_done shown
    rw [statement_of_plain (by simp [Token.opensStmt, Token.keyword?, ending]), if_neg (by simp [ending])]
    exact agrees_fail shown _ _
  | cons first rest =>
    cases opens : first.opensStmt with
    | true => exact statement_agrees_word value body same shown opens
    | false => exact statement_agrees_plain value same shown opens

end

/-- As many levels are left as the reader is given. -/
theorem statement_follows {allowed : Nat} (levels : depth + allowed = nestingLimit) :
    Follows depth (run .statement) (Stmt.statement allowed).read := by
  induction allowed generalizing depth with
  | zero =>
    exact statement_follows_with (expression_follows (unary_follows levels)) (block_follows (fun _ => levels) (by simp))
  | succ allowed ih =>
    refine statement_follows_with (expression_follows (unary_follows levels))
      (block_follows (by simp) fun inner same => ?_)
    obtain rfl := Option.some.inj same
    exact ⟨by omega, ih (by omega)⟩

end ScriptLens.Procedure
