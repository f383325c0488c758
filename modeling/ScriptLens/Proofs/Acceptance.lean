import ScriptLens.Proofs.Reading.Program

/-!
Which lists of tokens are programs: those that the grammar derives within the levels allowed, and what is read
is the tree of the one derivation there is. Each statement has the place of its first token
(`Stmt.Derivation.location_stmt`).
-/

namespace ScriptLens
open Stmt

/-- A statement has the place of its first token. -/
theorem Stmt.Derivation.location_stmt (derivation : Derivation) :
    derivation.tokens.head?.map Token.location = some derivation.stmt.location := by
  cases derivation <;> rfl

namespace Program

/-- The program is the tree of the only derivation. Parentheses around an operand are a level, and those
around a condition are not. -/
theorem parse_eq_ok_iff_derived {tokens : List Token} (endless : Input.Endless tokens) :
    (∀ program : Program, (Input.ofTokens tokens).parse.1 = .ok program ↔
      ∃ derivations : List Derivation,
        tokensOf derivations = tokens ∧ levelsOf derivations ≤ nestingLimit ∧ stmtsOf derivations = program) ∧
    ∀ derivations others : List Derivation,
      tokensOf derivations = tokens → tokensOf others = tokens → derivations = others := by
  constructor
  · intro program
    rw [Input.parse_eq_ok_iff, Input.ahead_ofTokens endless]
  · intro derivations others same same'
    exact tokensOf_injective (same.trans same'.symm)

theorem parse_eq_ok_return :
    let word : Token := ⟨.keyword, "return", .start⟩
    let name : Token := ⟨.identifier, "a", ⟨1, 8⟩⟩
    let semicolon : Token := ⟨.semicolon, ";", ⟨1, 9⟩⟩
    Input.Endless [word, name, semicolon] ∧
      (Input.ofTokens [word, name, semicolon]).parse.1 = .ok [.returnValue (.leaf name) word.location] := by
  intro word name semicolon
  have endless : Input.Endless [word, name, semicolon] := by simp [Input.Endless, word, name, semicolon]
  let value : Expr.Derivation .whole :=
    .single (.single (.single (.single (.single (.single (.leaf ⟨name, .inr (.inl rfl)⟩))))))
  refine ⟨endless, ((parse_eq_ok_iff_derived endless).1 _).2 ⟨[.returnValue ⟨word, rfl⟩ ⟨value, ⟨semicolon, rfl⟩⟩], ?_⟩⟩
  exact ⟨rfl, by decide, rfl⟩

/-- A number in so many parentheses. -/
def deepNumber (count : Nat) : List Token :=
  List.replicate count ⟨.leftParen, "(", .start⟩ ++ ⟨.number, "1", .start⟩ ::
    List.replicate count ⟨.rightParen, ")", .start⟩

/-- An empty branch with such a condition, to which it adds the parentheses that every condition has. -/
def deepCondition (count : Nat) : List Token :=
  ⟨.keyword, "if", .start⟩ :: (deepNumber (count + 1) ++
    [⟨.leftBrace, "\x7b", .start⟩, ⟨.rightBrace, "\x7d", .start⟩])

theorem deepNumber_succ (count : Nat) : deepNumber (count + 1) =
    ⟨.leftParen, "(", .start⟩ :: (deepNumber count ++ [⟨.rightParen, ")", .start⟩]) := by
  rw [deepNumber, List.replicate_succ, List.replicate_succ', deepNumber, List.append_assoc]
  rfl

theorem exists_derivation_deepNumber (count : Nat) : ∃ derivation : Expr.Derivation .whole,
    derivation.tokens = deepNumber count ∧ derivation.levels = count := by
  induction count with
  | zero =>
    obtain ⟨whole, -, -, tokens, -, levels⟩ :=
      (Expr.Derivation.leaf ⟨⟨.number, "1", .start⟩, .inl rfl⟩).exists_alone .whole
    exact ⟨whole, tokens, levels⟩
  | succ count ih =>
    obtain ⟨inner, tokens, levels⟩ := ih
    let operand : Expr.Derivation .operand :=
      .parens ⟨⟨.leftParen, "(", .start⟩, rfl⟩ inner ⟨⟨.rightParen, ")", .start⟩, rfl⟩
    obtain ⟨whole, -, -, tokens', -, levels'⟩ := operand.exists_alone .whole
    refine ⟨whole, ?_, ?_⟩
    · rw [tokens', deepNumber_succ, ← tokens]
      rfl
    · rw [levels', ← levels]
      rfl

theorem endless_deepCondition (count : Nat) : Input.Endless (deepCondition count) := by
  intro token member
  simp only [deepCondition, deepNumber, List.mem_append, List.mem_cons, List.mem_replicate, List.not_mem_nil] at member
  grind

theorem parse_deepCondition {count : Nat} (shallow : count ≤ nestingLimit) :
    ∃ program, (Input.ofTokens (deepCondition count)).parse.1 = .ok program := by
  obtain ⟨condition, tokens, levels⟩ := exists_derivation_deepNumber count
  let guard : Expr.Guard := ⟨⟨⟨.leftParen, "(", .start⟩, rfl⟩, condition, ⟨⟨.rightParen, ")", .start⟩, rfl⟩⟩
  let body : Block := .braces ⟨⟨.leftBrace, "\x7b", .start⟩, rfl⟩ [] ⟨⟨.rightBrace, "\x7d", .start⟩, rfl⟩
  have same : tokensOf [.ifThen ⟨⟨.keyword, "if", .start⟩, rfl⟩ guard body] = deepCondition count := by
    rw [deepCondition, deepNumber_succ, ← tokens]
    simp [tokensOf, Derivation.tokens, Expr.Guard.tokens, Block.tokens, guard, body]
  have bound : levelsOf [.ifThen ⟨⟨.keyword, "if", .start⟩, rfl⟩ guard body] ≤ nestingLimit := by
    have positive : 1 ≤ nestingLimit := by decide
    simp only [levelsOf, Derivation.levels, Block.levels, guard, body, levels]
    omega
  exact ⟨_, Input.parse_eq_ok_iff.2
    ⟨_, same.trans (Input.ahead_ofTokens (endless_deepCondition count)).symm, bound, rfl⟩⟩

theorem exists_open_deepCondition (count : Nat) : ∃ front, front <+: deepCondition count ∧
    front.countP (·.kind = .leftParen) = count + 1 ∧ front.countP (·.kind = .rightParen) = 0 := by
  refine ⟨⟨.keyword, "if", .start⟩ :: List.replicate (count + 1) ⟨.leftParen, "(", .start⟩, ?_, ?_, ?_⟩
  · rw [deepCondition, deepNumber, List.append_assoc]
    exact List.prefix_append ..
  · simp [List.countP_replicate]
  · simp [List.countP_replicate]

/-- One parenthesis more than the limit is open in front of the number, and yet the program is read. -/
theorem parse_ok_past_limit :
    (∃ program, (Input.ofTokens (deepCondition 256)).parse.1 = .ok program) ∧
      ∃ front, front <+: deepCondition 256 ∧ front.countP (·.kind = .leftParen) = nestingLimit + 1 ∧
        front.countP (·.kind = .rightParen) = 0 :=
  ⟨parse_deepCondition (Nat.le_refl 256), exists_open_deepCondition 256⟩

end Program
end ScriptLens
