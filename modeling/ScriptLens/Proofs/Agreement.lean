import ScriptLens.Proofs.Recovery

/-!
Reading that stops at the first error and reading that goes on behind it. Up to that error both do the same
(`Program.salvage_of_untilEnd`), so what the one answers is part of what the other does (`Input.parse_eq_verdict`).
-/

namespace ScriptLens

/-- What is left of an answer for one who stops at the first error. -/
def Recovery.verdict (recovery : Recovery) : Except SyntaxError Program :=
  match recovery.errors with
  | [] => .ok recovery.program
  | error :: _ => .error error

theorem Recovery.verdict_eq_ok {recovery : Recovery} {program : Program} :
    recovery.verdict = .ok program ↔ recovery.errors = [] ∧ recovery.program = program := by
  obtain ⟨read, errors⟩ := recovery
  cases errors <;> simp [verdict]

theorem Recovery.verdict_eq_error {recovery : Recovery} {error : SyntaxError} :
    recovery.verdict = .error error ↔ ∃ later, recovery.errors = error :: later := by
  obtain ⟨read, errors⟩ := recovery
  cases errors <;> simp [verdict]

namespace Program

/-- What was read and found before stands in front of what comes. -/
theorem salvage_eq (stop : Token) (before : List Stmt) (errors : List SyntaxError) (tokens : List Token) :
    salvage stop before errors tokens =
      ⟨before.reverse ++ (salvage stop [] [] tokens).program,
        errors.reverse ++ (salvage stop [] [] tokens).errors⟩ := by
  cases tokens with
  | nil => simp [salvage]
  | cons token rest =>
    cases outcome : statement.read (token :: rest) with
    | ok next after =>
      have shorter := statement.consumes outcome
      rw [salvage_of_ok outcome, salvage_of_ok outcome, salvage_eq stop (next :: before), salvage_eq stop [next]]
      simp
    | error fault after =>
      have shorter := resume_shorter outcome
      rw [salvage_of_error outcome, salvage_of_error outcome, salvage_eq stop before, salvage_eq stop [] [_]]
      simp
termination_by tokens.length
decreasing_by all_goals exact shorter

/-- Reading that goes on does what reading to the end does, as far as that comes. -/
theorem salvage_of_untilEnd (stop : Token) (before : List Stmt) (errors : List SyntaxError) (tokens : List Token) :
    match untilEnd before tokens with
    | .ok program _ => salvage stop before errors tokens = ⟨program, errors.reverse⟩
    | .error fault rest => ∃ reached,
        salvage stop before errors tokens =
          salvage stop reached (⟨fault, rest.headD stop⟩ :: errors) (resume rest) := by
  fun_induction untilEnd before tokens with
  | case1 before => rw [salvage]
  | case2 before token rest next after outcome ih =>
    rw [salvage_of_ok outcome]
    exact ih
  | case3 before token rest fault after outcome => exact ⟨before, salvage_of_error outcome⟩

end Program

theorem Input.parse_eq_verdict (input : Input) : input.parse.1 = input.recover.1.verdict := by
  have same := Program.salvage_of_untilEnd input.stop [] [] input.ahead
  unfold parse recover
  split
  · next program rest outcome =>
    rw [outcome] at same
    rw [same]
    rfl
  · next fault rest outcome =>
    rw [outcome] at same
    obtain ⟨reached, same⟩ := same
    rw [same, Program.salvage_eq]
    rfl

/-- Reading to the end gives a program just if reading on behind errors finds none, and then both give the same
program. Otherwise the error of the one is the first error of the other. -/
theorem recover_agrees (tokens : List Token) :
    (∀ program, (Input.ofTokens tokens).parse.1 = .ok program ↔
      (Input.ofTokens tokens).recover.1.errors = [] ∧ (Input.ofTokens tokens).recover.1.program = program) ∧
    ∀ error, (Input.ofTokens tokens).parse.1 = .error error ↔
      ∃ later, (Input.ofTokens tokens).recover.1.errors = error :: later := by
  rw [Input.parse_eq_verdict]
  exact ⟨fun _ => Recovery.verdict_eq_ok, fun _ => Recovery.verdict_eq_error⟩

end ScriptLens
