import Mathlib.Data.List.TakeWhile
import ScriptLens.Program.Parser
import ScriptLens.Proofs.Reading.Stmt
import ScriptLens.Proofs.Reading.Viability

/-!
What comes of reading whole programs. A statement that is read has a derivation within the levels allowed
(`Stmt.statement_eq_ok_iff`), and a list of tokens is read to its end just if it has one (`untilEnd_eq_ok_iff`).
-/

namespace ScriptLens

namespace Stmt
open Reader

/-- A second branch is read wherever one follows. -/
theorem ends_of_alternative {deeper : Option (Consumer Stmt)} {other : Option (List Stmt)} {rest : List Token}
    (outcome : alternative deeper rest = .ok other rest) : Ends rest := by
  cases rest with
  | nil => simp [Ends]
  | cons token rest =>
    rw [alternative] at outcome
    split at outcome
    · have forward := (block_forward deeper).map some rest
      rw [outcome] at forward
      exact absurd forward.length_le (Nat.not_succ_le_self _)
    · next different => simpa [Ends, Token.isKeyword] using different

theorem stopsAt_of_read {allowed : Nat} {derivation : Derivation} {rest : List Token} {stmt : Stmt}
    (outcome : (statement allowed).read (derivation.tokens ++ rest) = .ok stmt rest) : derivation.StopsAt rest := by
  cases derivation with
  | ifThen word guard body =>
    simp only [statement_eq, Derivation.tokens, List.cons_append, List.append_assoc, statementWith, behind?, word.2,
      conditional] at outcome
    obtain ⟨⟨condition, stmts⟩, middle, reads, outcome⟩ := bind_eq_ok.1 outcome
    rw [guarded_settled fun left _ => statement_settled left] at reads
    obtain ⟨-, -, rfl⟩ := settled_eq_ok.1 reads
    obtain ⟨other, middle, reads, outcome⟩ := bind_eq_ok.1 outcome
    have same : middle = rest := by
      cases other <;> exact (pure_eq_ok.1 outcome).2
    subst same
    exact ends_of_alternative reads
  | _ => trivial

theorem statement_eq_ok_iff {allowed : Nat} {tokens rest : List Token} {stmt : Stmt} :
    (statement allowed).read tokens = .ok stmt rest ↔
      ∃ derivation : Derivation, tokens = derivation.tokens ++ rest ∧ derivation.StopsAt rest ∧
        derivation.levels ≤ allowed ∧ derivation.stmt = stmt := by
  constructor
  · intro outcome
    have explained := statement_viable allowed tokens
    rw [outcome] at explained
    obtain ⟨_, ⟨derivation, rfl⟩, rfl⟩ := explained
    have stops := stopsAt_of_read outcome
    rw [statement_settled allowed derivation rest stops] at outcome
    obtain ⟨shallow, value, -⟩ := settled_eq_ok.1 outcome
    exact ⟨derivation, rfl, stops, (derivation.overflow_eq_none _ _).1 shallow, value⟩
  · rintro ⟨derivation, rfl, stops, levels, rfl⟩
    rw [statement_settled allowed derivation rest stops, (derivation.overflow_eq_none _ _).2 levels]
    rfl

end Stmt

namespace Program
open Reader Stmt

def language : Language Token := {sentence | ∃ derivations : List Stmt.Derivation, tokensOf derivations = sentence}

theorem untilEnd_of_error {token : Token} {rest after : List Token} {fault : Fault}
    (failed : statement.read (token :: rest) = .error fault after) (before : List Stmt) :
    untilEnd before (token :: rest) = .error fault after := by
  rw [untilEnd]
  split
  · next next after' reads => exact absurd (failed.symm.trans reads) (by simp)
  · next fault' after' reads => exact congrArg₂ _ (by grind) (by grind)

theorem untilEnd_viable (before : List Stmt) : Viable (untilEnd before) language := by
  intro tokens
  fun_induction untilEnd before tokens with
  | case1 => exact ⟨[], ⟨[], rfl⟩, rfl⟩
  | case2 before token rest next after outcome ih =>
    have explained : Explains _ _ (statement.read (token :: rest)) := statement_viable nestingLimit _
    rw [outcome] at explained
    obtain ⟨_, ⟨derivation, rfl⟩, same⟩ := explained
    rw [same]
    apply ih.behind derivation.tokens
    rintro _ ⟨derivations, rfl⟩
    exact ⟨derivation :: derivations, rfl⟩
  | case3 before token rest fault after outcome =>
    have explained : Explains _ _ (statement.read (token :: rest)) := statement_viable nestingLimit _
    rw [outcome] at explained
    apply explained.within
    rintro _ ⟨derivation, rfl⟩
    exact ⟨[], [derivation], rfl⟩

theorem rest_of_untilEnd {before : List Stmt} {tokens rest : List Token} {program : Program}
    (outcome : untilEnd before tokens = .ok program rest) : rest = [] := by
  fun_induction untilEnd before tokens with
  | case1 => exact (EStateM.Result.ok.inj outcome).2.symm
  | case2 before token rest next after reads ih => exact ih outcome
  | case3 => contradiction

theorem untilEnd_settled (before : List Stmt) (derivations : List Stmt.Derivation) :
    untilEnd before (tokensOf derivations) =
      settled (overflowOf derivations nestingLimit []) (before.reverse ++ stmtsOf derivations) [] := by
  induction derivations generalizing before with
  | nil => simp [untilEnd, tokensOf, stmtsOf, overflowOf, settled]
  | cons derivation others ih =>
    have ends : Ends (tokensOf others ++ []) := ends_tokensOf others (by simp [Closes])
    have reads := statement_settled nestingLimit derivation _ (derivation.stopsAt_of_ends ends)
    obtain ⟨first, behind, same, -⟩ := derivation.exists_head
    simp only [tokensOf, overflowOf, stmtsOf, List.append_nil] at reads ⊢
    rw [same, List.cons_append] at reads ⊢
    rw [untilEnd, statement, reads]
    cases derivation.overflow nestingLimit (tokensOf others) with
    | none =>
      have later := ih (derivation.stmt :: before)
      rwa [List.reverse_cons, List.append_assoc] at later
    | some place => rfl

/-- A sentence can be read but for the levels that it opens. -/
theorem expected_of_mem_language {tokens rest : List Token} {fault : Fault} (member : tokens ∈ language)
    (failed : untilEnd [] tokens = .error fault rest) : fault.expected = .shallowerNesting := by
  obtain ⟨derivations, rfl⟩ := member
  rw [untilEnd_settled] at failed
  exact expected_of_settled_eq_error failed

theorem untilEnd_eq_ok_iff {tokens rest : List Token} {program : Program} :
    untilEnd [] tokens = .ok program rest ↔
      ∃ derivations : List Stmt.Derivation, tokensOf derivations = tokens ∧ levelsOf derivations ≤ nestingLimit ∧
        stmtsOf derivations = program ∧ rest = [] := by
  constructor
  · intro outcome
    have explained := untilEnd_viable [] tokens
    rw [outcome] at explained
    obtain ⟨_, ⟨derivations, rfl⟩, same⟩ := explained
    obtain rfl := rest_of_untilEnd outcome
    rw [List.append_nil] at same
    rw [same, untilEnd_settled] at outcome
    obtain ⟨shallow, value, -⟩ := settled_eq_ok.1 outcome
    exact ⟨derivations, same.symm, (overflowOf_eq_none _ _ _).1 shallow, value, rfl⟩
  · rintro ⟨derivations, rfl, levels, rfl, rfl⟩
    rw [untilEnd_settled, (overflowOf_eq_none _ _ _).2 levels]
    rfl

end Program

namespace Input
open Stmt

/-- No token stands for the end, so all of them are read. -/
def Endless (tokens : List Token) : Prop := ∀ token ∈ tokens, token.kind ≠ .endOfInput

theorem find_endOfInput_eq_none {tokens : List Token} (endless : Endless tokens) :
    tokens.find? (fun token => token.kind == .endOfInput) = none := by
  simpa [List.find?_eq_none, Endless] using endless

theorem ahead_ofTokens {tokens : List Token} (endless : Endless tokens) : (ofTokens tokens).ahead = tokens :=
  List.takeWhile_eq_self_iff.2 fun token member => by simpa using endless token member

theorem parse_eq_ok_iff {input : Input} {program : Program} :
    input.parse.1 = .ok program ↔ ∃ derivations : List Derivation,
      tokensOf derivations = input.ahead ∧ levelsOf derivations ≤ nestingLimit ∧ stmtsOf derivations = program := by
  have reads : input.parse.1 = .ok program ↔ ∃ rest, Program.untilEnd [] input.ahead = .ok program rest := by
    unfold parse
    split <;> simp_all
  simp [reads, Program.untilEnd_eq_ok_iff]

theorem parse_eq_error_iff {input after : Input} {error : SyntaxError} :
    input.parse = (.error error, after) ↔
      Program.untilEnd [] input.ahead = .error error.toFault after.ahead ∧
        error.found = after.ahead.headD input.stop ∧ after.stop = input.stop := by
  obtain ⟨fault, found⟩ := error
  obtain ⟨ahead, stop⟩ := after
  unfold parse
  split <;> simp_all [Prod.ext_iff, eq_comm] <;> grind

end Input
end ScriptLens
