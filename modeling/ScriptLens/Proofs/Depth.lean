import ScriptLens.Proofs.Reading.Nesting
import ScriptLens.Proofs.Recovery

/-!
Errors about nesting. They lie where as many levels are open as are allowed, and in front of a token that would open
one more (`Program.errors_located`). Only for blocks that token is not looked at: a block that is due is refused there
whatever stands in its place (`Program.parse_loops`).
-/

namespace ScriptLens

theorem Input.kind_stop {tokens : List Token} (endless : Endless tokens) :
    (ofTokens tokens).stop.kind = .endOfInput := by
  rw [ofTokens, find_endOfInput_eq_none endless]
  rfl

namespace Program
open Reader Stmt

/-- The error of a parse lies where the parse has come to. -/
theorem located_of_parse {tokens : List Token} (endless : Input.Endless tokens) {error : SyntaxError} {after : Input}
    (failed : (Input.ofTokens tokens).parse = (.error error, after)) : ∃ before, tokens = before ++ after.ahead ∧
      error.found = after.ahead.headD (Input.ofTokens tokens).stop ∧
      error.toFault.Located nestingLimit (Nesting.start.after before) error.found.kind := by
  obtain ⟨failed, found, -⟩ := Input.parse_eq_error_iff.1 failed
  have leads := untilEnd_tracks [] (Input.ofTokens tokens).ahead
  rw [failed, Input.ahead_ofTokens endless] at leads
  obtain ⟨before, same, located⟩ := leads
  refine ⟨before, same, found, ?_⟩
  have kind : error.found.kind = Kind.ahead after.ahead := by
    rw [found]
    cases after.ahead with
    | nil => exact Input.kind_stop endless
    | cons token rest => rfl
  rwa [kind]

/-- The same for an error that is found on the way, at its place among all tokens. -/
theorem Segment.Fits.located {tokens own : List Token} (endless : Input.Endless tokens) {error : SyntaxError}
    {start found : Nat} (fits : (fault own error found).Fits tokens start) :
    error.found = (tokens.drop found).headD (Input.ofTokens tokens).stop ∧
      error.toFault.Located nestingLimit (Nesting.start.after ((tokens.take found).drop start)) error.found.kind := by
  obtain ⟨behind, fails, -⟩ := fits
  have endless' : Input.Endless (tokens.drop start) := fun token among => endless token (List.mem_of_mem_drop among)
  obtain ⟨-, -, stops⟩ := Input.parse_eq_error_iff.1 fails
  obtain ⟨before, same, here, located⟩ := located_of_parse endless' fails
  have split : tokens.drop start = (tokens.take found).drop start ++ tokens.drop found := by
    calc tokens.drop start
        = (tokens.drop start).take (found - start) ++ (tokens.drop start).drop (found - start) :=
          (List.take_append_drop ..).symm
      _ = (tokens.take found).drop start ++ tokens.drop found := by
          rw [List.drop_take, List.drop_drop, Nat.add_sub_cancel' behind]
  rw [List.append_cancel_right (split.symm.trans same)]
  exact ⟨by rw [here, ← stops], located⟩

/-- Every error, the first and those found behind it, lies where it says: at the token that reading has come to. For
those found behind the first the levels are counted from where reading went on. -/
theorem errors_located {tokens : List Token} (endless : Input.Endless tokens) :
    (∀ error after, (Input.ofTokens tokens).parse = (.error error, after) → ∃ before, tokens = before ++ after.ahead ∧
      error.found = after.ahead.headD (Input.ofTokens tokens).stop ∧
      error.toFault.Located nestingLimit (Nesting.start.after before) error.found.kind) ∧
    ∃ segments : List Segment, segments.flatMap Segment.own = tokens ∧
      (Input.ofTokens tokens).recover.1.errors = segments.filterMap Segment.error? ∧
      ∀ before own error found later, segments = before ++ .fault own error found :: later →
        let start := (before.flatMap Segment.own).length
        (Segment.fault own error found).Fits tokens start ∧
          error.found = (tokens.drop found).headD (Input.ofTokens tokens).stop ∧
          error.toFault.Located nestingLimit (Nesting.start.after ((tokens.take found).drop start))
            error.found.kind := by
  refine ⟨fun error after failed => located_of_parse endless failed, ?_⟩
  obtain ⟨segments, cuts, pieces⟩ := exists_cuts (Input.ofTokens tokens).stop [] [] [] tokens endless rfl
  refine ⟨segments, cuts.flatMap_own, ?_, fun before own error found later split => ?_⟩
  · rw [Input.recover, Input.ahead_ofTokens endless]
    exact congrArg Recovery.errors pieces
  · have fits : (Segment.fault own error found).Fits tokens (before.flatMap Segment.own).length := by
      simpa using cuts.fits split
    exact ⟨fits, fits.located endless⟩

section
variable {allowed : Nat} {fault : Fault} {behind after : List Token}

theorem untilBrace_of_error {statement : Consumer Stmt} (before : List Stmt) {token : Token} {rest : List Token}
    (inside : token.kind ≠ .rightBrace) (fails : statement.read (token :: rest) = .error fault after) :
    untilBrace statement before (token :: rest) = .error fault after := by
  rw [untilBrace, if_neg inside]
  split
  · next next after' reads => exact absurd (fails.symm.trans reads) (by simp)
  · next fault' after' reads => exact congrArg₂ _ (by grind) (by grind)

/-- A loop whose body is refused, behind a condition that is not. -/
theorem loop_of_error (word : Token.Word .whileKw) (guard : Expr.Guard) (shallow : guard.condition.levels ≤ allowed)
    (fails : block (inside allowed) behind = .error fault after) :
    (Stmt.statement allowed).read (word.1 :: (guard.tokens ++ behind)) = .error fault after := by
  obtain ⟨opening, condition, closing⟩ := guard
  have reads : Expr.read allowed (condition.tokens ++ closing.1 :: behind) =
      .ok condition.expr (closing.1 :: behind) := by
    rw [Expr.read_settled allowed condition (Expr.ends_rightParen closing behind),
      (condition.overflow_eq_none _ _).2 shallow]
    rfl
  have reads : repetition (Expr.read allowed) (inside allowed) word.1
      (opening.1 :: (condition.tokens ++ closing.1 :: behind)) = .error fault after := by
    apply bind_of_error
    rw [guarded, expect, bind_take, bind_of_ok reads, expect, bind_take]
    exact bind_of_error fails
  simp only [statement_eq, statementWith, behind?, word.2, Expr.Guard.tokens, List.cons_append, List.append_assoc,
    List.nil_append]
  exact reads

end

/-- The start of a loop. -/
def loop : List Token :=
  [⟨.keyword, "while", .start⟩, ⟨.leftParen, "(", .start⟩, ⟨.identifier, "a", .start⟩,
    ⟨.rightParen, ")", .start⟩]

def brace : Token := ⟨.leftBrace, "\x7b", .start⟩

/-- So many loops that are begun inside one another, and one more whose body is still due. -/
def loops : Nat → List Token → List Token
  | 0, behind => loop ++ behind
  | count + 1, behind => loop ++ brace :: loops count behind

theorem read_loop {allowed : Nat} {fault : Fault} {behind after : List Token}
    (fails : block (inside allowed) behind = .error fault after) :
    (Stmt.statement allowed).read (loop ++ behind) = .error fault after := by
  obtain ⟨name, -, -, tokens, -, levels⟩ :=
    (Expr.Derivation.leaf ⟨⟨.identifier, "a", .start⟩, .inr (.inl rfl)⟩).exists_alone .whole
  have shallow : name.levels ≤ allowed := by
    rw [levels]
    exact Nat.zero_le _
  have reads := loop_of_error ⟨⟨.keyword, "while", .start⟩, rfl⟩
    ⟨⟨⟨.leftParen, "(", .start⟩, rfl⟩, name, ⟨⟨.rightParen, ")", .start⟩, rfl⟩⟩ shallow fails
  rwa [Expr.Guard.tokens, tokens] at reads

theorem exists_loops_head (count : Nat) (behind : List Token) :
    ∃ rest, loops count behind = ⟨.keyword, "while", .start⟩ :: rest := by
  cases count <;> exact ⟨_, rfl⟩

/-- What refuses the block that is due refuses the outermost statement. -/
theorem read_loops {left : Nat} {fault : Fault} {behind after : List Token}
    (fails : block (inside left) behind = .error fault after) (count : Nat) :
    (Stmt.statement (left + count)).read (loops count behind) = .error fault after := by
  induction count with
  | zero => exact read_loop fails
  | succ count ih =>
    apply read_loop
    obtain ⟨rest, head⟩ := exists_loops_head count behind
    rw [head] at ih ⊢
    exact (bind_take _ _ ⟨brace, rfl⟩ _).trans (untilBrace_of_error [] (by decide) ih)

theorem endless_loops {behind : List Token} (endless : Input.Endless behind) (count : Nat) :
    Input.Endless (loops count behind) := by
  induction count with
  | zero => simpa [loops, loop, Input.Endless] using endless
  | succ count ih => simpa [loops, loop, brace, Input.Endless] using ih

/-- With as many loops open as levels are allowed, nothing may stand behind the next condition, not even something
that is no block. -/
theorem parse_loops {behind : List Token} (endless : Input.Endless behind) :
    (Input.ofTokens (loops nestingLimit behind)).parse.1 =
      .error ⟨⟨.block, .shallowerNesting⟩, behind.headD (Input.ofTokens (loops nestingLimit behind)).stop⟩ := by
  have refused : block (inside 0) behind = .error ⟨.block, .shallowerNesting⟩ behind := rfl
  have fails := read_loops refused nestingLimit
  obtain ⟨rest, head⟩ := exists_loops_head nestingLimit behind
  have endless' : Input.Endless ([] ++ ⟨.keyword, "while", .start⟩ :: rest) :=
    head ▸ endless_loops endless nestingLimit
  rw [Nat.zero_add, head] at fails
  rw [head]
  exact congrArg Prod.fst (parse_eq_error_of_read endless' fails)

/-- A brace opens the level that is one too many. -/
theorem errors_located_brace : Input.Endless (loops nestingLimit [brace]) ∧
    (Input.ofTokens (loops nestingLimit [brace])).parse.1 = .error ⟨⟨.block, .shallowerNesting⟩, brace⟩ ∧
    ∃ before, loops nestingLimit [brace] = before ++ (Input.ofTokens (loops nestingLimit [brace])).parse.2.ahead ∧
      (Nesting.start.after before).levels = nestingLimit ∧ (Nesting.start.after before).Opens brace.kind := by
  have endless : Input.Endless [brace] := by simp [Input.Endless, brace]
  have endless' := endless_loops endless nestingLimit
  have failed := parse_loops endless
  obtain ⟨before, same, -, located⟩ := (errors_located endless').1 _ _ (Prod.ext failed rfl)
  obtain ⟨full, opens⟩ := located.deep.1 rfl
  refine ⟨endless', failed, before, same, full, ?_⟩
  rcases opens with opens | due
  · exact opens
  · exact .inr ⟨due, rfl⟩

/-- A name in its place opens none, and is refused for the same reason. -/
theorem parse_loops_unopened :
    let name : Token := ⟨.identifier, "a", .start⟩
    let assignment : List Token :=
      [name, ⟨.assign, "=", .start⟩, ⟨.number, "1", .start⟩, ⟨.semicolon, ";", .start⟩]
    Input.Endless (loops nestingLimit assignment) ∧
      (Input.ofTokens (loops nestingLimit assignment)).parse.1 = .error ⟨⟨.block, .shallowerNesting⟩, name⟩ := by
  intro name assignment
  have endless : Input.Endless assignment := by simp [Input.Endless, assignment, name]
  exact ⟨endless_loops endless nestingLimit, parse_loops endless⟩

end Program
end ScriptLens
