import ScriptLens.Proofs.Grammar.Stmt
import ScriptLens.Proofs.Reading.Expr
import ScriptLens.Stmt.Parser

/-!
What comes of reading statements. In front of a derivation a statement is read as the derivation says, up to
the first level too many (`statement_settled`).
-/

namespace ScriptLens.Stmt
open Reader

/-- The tokens behind a derivation do not go on with it. Only a condition without a second branch could be
gone on with. -/
def Derivation.StopsAt : Derivation → List Token → Prop
  | .ifThen .., rest => Ends rest
  | _, _ => True

theorem Derivation.stopsAt_of_ends (derivation : Derivation) {rest : List Token} (ends : Ends rest) :
    derivation.StopsAt rest := by
  cases derivation with
  | ifThen => exact ends
  | _ => trivial

/-- A reader of statements that reads every derivation as far as so many levels allow. -/
def Settles (statement : Consumer Stmt) (allowed : Nat) : Prop :=
  ∀ (derivation : Derivation) (rest : List Token), derivation.StopsAt rest →
    statement.read (derivation.tokens ++ rest) = settled (derivation.overflow allowed rest) derivation.stmt rest

/-- How the statements of a block are read, if so many levels are left around it. -/
def inside : Nat → Option (Consumer Stmt)
  | 0 => none
  | allowed + 1 => some (statement allowed)

theorem statement_eq (allowed : Nat) :
    (statement allowed).read = statementWith (Expr.read allowed) (inside allowed) := by
  cases allowed <;> rfl

theorem untilBrace_settled {statement : Consumer Stmt} {allowed : Nat} (settles : Settles statement allowed)
    (before : List Stmt) (derivations : List Derivation) (closing : Token.Of .rightBrace) (rest : List Token) :
    untilBrace statement before (tokensOf derivations ++ closing.1 :: rest) =
      settled (overflowOf derivations allowed (closing.1 :: rest)) (before.reverse ++ stmtsOf derivations) rest := by
  induction derivations generalizing before with
  | nil =>
    simp only [tokensOf, stmtsOf, overflowOf, List.nil_append, List.append_nil]
    rw [untilBrace, if_pos closing.2]
    rfl
  | cons derivation others ih =>
    have stops := derivation.stopsAt_of_ends (ends_tokensOf others (closes_rightBrace closing rest))
    have reads := settles derivation (tokensOf others ++ closing.1 :: rest) stops
    obtain ⟨first, behind, same, starts⟩ := derivation.exists_head
    have unclosed : first.kind ≠ .rightBrace := fun kind =>
      not_startsStmt_of_closes (show Closes [first] by simp [Closes, kind]) first [] rfl starts
    simp only [tokensOf, overflowOf, stmtsOf, List.append_assoc]
    rw [same, List.cons_append] at reads ⊢
    rw [untilBrace, if_neg unclosed, reads]
    cases derivation.overflow allowed (tokensOf others ++ closing.1 :: rest) with
    | none =>
      have later := ih (derivation.stmt :: before)
      rwa [List.reverse_cons, List.append_assoc] at later
    | some place => rfl

section
variable {allowed : Nat} (settles : ∀ left, allowed = left + 1 → Settles (statement left) left)
include settles

theorem block_settled (body : Block) (rest : List Token) :
    block (inside allowed) (body.tokens ++ rest) = settled (body.overflow allowed rest) body.stmts rest := by
  obtain ⟨opening, derivations, closing⟩ := body
  simp only [Block.tokens, Block.stmts, List.cons_append, List.append_assoc, List.nil_append]
  cases allowed with
  | zero => rfl
  | succ left =>
    calc
      _ = untilBrace (statement left) [] (tokensOf derivations ++ closing.1 :: rest) := bind_take _ _ opening _
      _ = _ := untilBrace_settled (settles left rfl) [] derivations closing rest

theorem guarded_settled (production : Production) (guard : Expr.Guard) (body : Block) (rest : List Token) :
    guarded (Expr.read allowed) (inside allowed) production (guard.tokens ++ (body.tokens ++ rest)) =
      settled ((guard.overflow allowed (body.tokens ++ rest)).or (body.overflow allowed rest))
        (guard.condition.expr, body.stmts) rest := by
  obtain ⟨opening, condition, closing⟩ := guard
  simp only [Expr.Guard.tokens, Expr.Guard.overflow, List.cons_append, List.append_assoc, List.nil_append]
  have inner := Expr.read_settled allowed condition (Expr.ends_rightParen closing (body.tokens ++ rest))
  refine (bind_take _ _ opening _).trans (bind_settled inner ((bind_take _ _ closing _).trans ?_))
  exact bind_settled_ok (block_settled settles body rest) rfl

theorem alternative_settled (other : Token.Word .elseKw) (body : Block) (rest : List Token) :
    alternative (inside allowed) (other.1 :: (body.tokens ++ rest)) =
      settled (body.overflow allowed rest) (some body.stmts) rest := by
  rw [alternative, if_pos (by simp [Token.isKeyword, other.2])]
  exact bind_settled_ok (block_settled settles body rest) rfl

end

theorem alternative_of_ends (deeper : Option (Consumer Stmt)) {rest : List Token} (ends : Ends rest) :
    alternative deeper rest = settled none none rest := by
  cases rest with
  | nil => rfl
  | cons token rest =>
    have different : token.keyword? ≠ some .elseKw := ends token rfl
    rw [alternative, if_neg (by simpa [Token.isKeyword] using different)]
    rfl

theorem ending_settled (allowed : Nat) (production : Production) (statement : Expr → Stmt)
    (ending : Expr.Terminated) (rest : List Token) :
    (do let value ← Expr.read allowed; let _ ← expect production .semicolon; return statement value : Reader Stmt)
        (ending.tokens ++ rest) =
      settled (ending.overflow allowed rest) (statement ending.value.expr) rest := by
  obtain ⟨value, semicolon⟩ := ending
  simp only [Expr.Terminated.tokens, Expr.Terminated.overflow, List.append_assoc, List.cons_append, List.nil_append]
  have reads := Expr.read_settled allowed value (Expr.ends_semicolon semicolon rest)
  exact bind_settled_ok reads (bind_take _ _ semicolon rest)

theorem statement_settled (allowed : Nat) : Settles (statement allowed) allowed := by
  induction allowed using Nat.strongRecOn with
  | ind allowed ih =>
  have settles : ∀ left, allowed = left + 1 → Settles (statement left) left := by
    rintro left rfl
    exact ih left (Nat.lt_succ_self left)
  intro derivation rest stops
  rw [statement_eq]
  cases derivation with
  | declare word name equals ending =>
    simp only [Derivation.tokens, Derivation.overflow, Derivation.stmt, List.cons_append, statementWith, behind?, word.2]
    exact (bind_take _ _ name _).trans ((bind_take _ _ equals _).trans (ending_settled allowed _ _ ending rest))
  | assign name equals ending =>
    have noWord : name.1.keyword? = none := by simp [Token.keyword?, name.2]
    simp only [Derivation.tokens, Derivation.overflow, Derivation.stmt, List.cons_append, statementWith, behind?, noWord,
      name.2, if_true]
    exact (bind_take _ _ equals _).trans (ending_settled allowed _ _ ending rest)
  | ifThen word guard body =>
    simp only [Derivation.tokens, Derivation.overflow, Derivation.stmt, List.cons_append, List.append_assoc,
      statementWith, behind?, word.2]
    apply bind_settled_ok (guarded_settled settles _ guard body rest)
    exact bind_settled_ok (alternative_of_ends _ stops) rfl
  | ifElse word guard body other alternative =>
    simp only [Derivation.tokens, Derivation.overflow, Derivation.stmt, List.cons_append, List.append_assoc,
      statementWith, behind?, word.2]
    calc
      _ = settled (((guard.overflow allowed (body.tokens ++ other.1 :: (alternative.tokens ++ rest))).or
            (body.overflow allowed (other.1 :: (alternative.tokens ++ rest)))).or (alternative.overflow allowed rest))
          (.ifElse guard.condition.expr body.stmts alternative.stmts word.1.location) rest := by
        apply bind_settled (guarded_settled settles _ guard body _)
        exact bind_settled_ok (alternative_settled settles other alternative rest) rfl
      _ = _ := by rw [Option.or_assoc]
  | whileDo word guard body =>
    simp only [Derivation.tokens, Derivation.overflow, Derivation.stmt, List.cons_append, List.append_assoc,
      statementWith, behind?, word.2]
    exact bind_settled_ok (guarded_settled settles _ guard body rest) rfl
  | returnValue word ending =>
    simp only [Derivation.tokens, Derivation.overflow, Derivation.stmt, List.cons_append, statementWith, behind?, word.2]
    exact ending_settled allowed _ _ ending rest

end ScriptLens.Stmt
