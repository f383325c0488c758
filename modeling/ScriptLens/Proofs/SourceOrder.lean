import ScriptLens.Proofs.Places
import ScriptLens.Proofs.Provenance
import ScriptLens.Proofs.Turns

/-!
What syntax keeps of the tokens it was read from (`Expr.kept`, `Stmt.kept`), in the order in which its parts are listed.
That is their order in the source (`Stmt.keptOf_sublist`), so an expression starts where the first of its tokens stands.
-/

namespace ScriptLens

/-- A reserved word, written at a place. -/
def Keyword.token (keyword : Keyword) (place : Location) : Token := ⟨.keyword, keyword.text, place⟩

def Identifier.token (name : Identifier) : Token := ⟨.identifier, name.text, name.location⟩

theorem Token.Word.eq_token {keyword : Keyword} (word : Token.Word keyword) :
    word.1 = keyword.token word.1.location := by
  obtain ⟨⟨kind, text, location⟩, spelt⟩ := word
  obtain rfl := Token.kind_of_keyword? spelt
  rw [Keyword.token, Keyword.ofText?_eq_some.1 spelt]

theorem Token.Of.eq_token (name : Token.Of .identifier) :
    name.1 = (⟨name.1.text, name.1.location⟩ : Identifier).token := by
  obtain ⟨⟨kind, text, location⟩, same⟩ := name
  cases same
  rfl

namespace Expr

/-- The tokens of an expression from left to right, but for its parentheses. -/
def kept : Expr → List Token
  | leaf token => [token]
  | negate op operand => op :: operand.kept
  | binary op left right => left.kept ++ op :: right.kept

theorem exists_kept_head (e : Expr) : ∃ first rest, e.kept = first :: rest ∧ first.location = e.location := by
  induction e with
  | leaf token => exact ⟨token, [], rfl, rfl⟩
  | negate op operand => exact ⟨op, operand.kept, rfl, rfl⟩
  | binary op left right ihLeft =>
    obtain ⟨first, rest, same, start⟩ := ihLeft
    exact ⟨first, rest ++ op :: right.kept, by rw [kept, same, List.cons_append], start⟩

theorem kept_sublist_of_mem_parts {e part : Expr} (member : part ∈ e.parts) : part.kept.Sublist e.kept := by
  induction e with
  | leaf token =>
    obtain rfl := List.mem_singleton.1 member
    exact List.Sublist.refl _
  | negate op operand ih =>
    rcases List.mem_cons.1 member with rfl | inner
    · exact List.Sublist.refl _
    · exact (ih inner).cons op
  | binary op left right ihLeft ihRight =>
    rcases List.mem_cons.1 member with rfl | inner
    · exact List.Sublist.refl _
    rcases List.mem_append.1 inner with inner | inner
    · exact (ihLeft inner).trans (List.sublist_append_left ..)
    · exact ((ihRight inner).cons op).trans (List.sublist_append_right ..)

theorem Derivation.kept_sublist {layer : Layer} (derivation : Derivation layer) :
    derivation.expr.kept.Sublist derivation.tokens := by
  induction derivation with
  | leaf => exact List.Sublist.refl _
  | negate op inner ih => exact ih.cons_cons op.1
  | parens opening inner closing ih => exact (ih.trans (List.sublist_append_left ..)).cons opening.1
  | single inner ih => exact ih
  | join left op right ihLeft ihRight => exact ihLeft.append (ihRight.cons_cons op.1)

/-- Where tokens follow one another, an expression starts with the first of its own. -/
theorem location_least {e : Expr} (increasing : e.kept.Pairwise fun earlier later => earlier.location < later.location) :
    (∃ token ∈ e.kept, token.location = e.location) ∧
      ∀ token ∈ e.kept, token.location = e.location ∨ e.location < token.location := by
  obtain ⟨first, rest, same, start⟩ := e.exists_kept_head
  rw [same] at increasing ⊢
  refine ⟨⟨first, List.mem_cons_self, start⟩, List.forall_mem_cons.2 ⟨.inl start, fun token member => .inr ?_⟩⟩
  rw [← start]
  exact List.rel_of_pairwise_cons increasing member

end Expr

namespace Stmt

mutual

/-- What a statement keeps of its tokens: the word or the name that it starts with, the name that it declares, its
condition or value, and its bodies. -/
def kept : Stmt → List Token
  | declare name value place => Keyword.varKw.token place :: name.token :: value.kept
  | assign name value place => (⟨name.text, place⟩ : Identifier).token :: value.kept
  | ifThen condition body place => Keyword.ifKw.token place :: (condition.kept ++ keptOf body)
  | ifElse condition body other place => Keyword.ifKw.token place :: (condition.kept ++ (keptOf body ++ keptOf other))
  | whileDo condition body place => Keyword.whileKw.token place :: (condition.kept ++ keptOf body)
  | returnValue value place => Keyword.returnKw.token place :: value.kept

def keptOf : List Stmt → List Token
  | [] => []
  | stmt :: rest => stmt.kept ++ keptOf rest

end

/-- It starts where the statement starts. -/
theorem exists_kept_head (stmt : Stmt) : ∃ first rest, stmt.kept = first :: rest ∧ first.location = stmt.location := by
  cases stmt <;> exact ⟨_, _, rfl, rfl⟩

mutual

theorem kept_sublist_of_mem_exprs : (stmt : Stmt) → ∀ e ∈ stmt.exprs, e.kept.Sublist stmt.kept
  | declare name value place, e, member => by
    obtain rfl := List.mem_singleton.1 member
    exact ((List.Sublist.refl _).cons _).cons _
  | assign name value place, e, member => by
    obtain rfl := List.mem_singleton.1 member
    exact (List.Sublist.refl _).cons _
  | ifThen condition body place, e, member => by
    rcases List.mem_cons.1 member with rfl | member
    · exact (List.sublist_append_left ..).cons _
    · exact ((kept_sublist_of_mem_exprsOf body e member).trans (List.sublist_append_right ..)).cons _
  | ifElse condition body other place, e, member => by
    rcases List.mem_cons.1 member with rfl | member
    · exact (List.sublist_append_left ..).cons _
    · have inside : e.kept.Sublist (keptOf body ++ keptOf other) := by
        rcases List.mem_append.1 member with member | member
        · exact (kept_sublist_of_mem_exprsOf body e member).trans (List.sublist_append_left ..)
        · exact (kept_sublist_of_mem_exprsOf other e member).trans (List.sublist_append_right ..)
      exact (inside.trans (List.sublist_append_right ..)).cons _
  | whileDo condition body place, e, member => by
    rcases List.mem_cons.1 member with rfl | member
    · exact (List.sublist_append_left ..).cons _
    · exact ((kept_sublist_of_mem_exprsOf body e member).trans (List.sublist_append_right ..)).cons _
  | returnValue value place, e, member => by
    obtain rfl := List.mem_singleton.1 member
    exact (List.Sublist.refl _).cons _

theorem kept_sublist_of_mem_exprsOf : (stmts : List Stmt) → ∀ e ∈ exprsOf stmts, e.kept.Sublist (keptOf stmts)
  | [], e, member => absurd member List.not_mem_nil
  | stmt :: rest, e, member => by
    rcases List.mem_append.1 member with member | member
    · exact (kept_sublist_of_mem_exprs stmt e member).trans (List.sublist_append_left ..)
    · exact (kept_sublist_of_mem_exprsOf rest e member).trans (List.sublist_append_right ..)

end

theorem kept_sublist_ending (ending : Expr.Terminated) : ending.value.expr.kept.Sublist ending.tokens :=
  ending.value.kept_sublist.trans (List.sublist_append_left ..)

theorem kept_sublist_guard (guard : Expr.Guard) : guard.condition.expr.kept.Sublist guard.tokens :=
  (guard.condition.kept_sublist.trans (List.sublist_append_left ..)).cons guard.opening.1

mutual

theorem Derivation.kept_sublist : (derivation : Derivation) → derivation.stmt.kept.Sublist derivation.tokens
  | .declare word name equals ending => by
    rw [Derivation.stmt, kept, Derivation.tokens, ← word.eq_token, ← Token.Of.eq_token name]
    exact (((kept_sublist_ending ending).cons equals.1).cons_cons name.1).cons_cons word.1
  | .assign name equals ending => by
    rw [Derivation.stmt, kept, Derivation.tokens, ← Token.Of.eq_token name]
    exact ((kept_sublist_ending ending).cons equals.1).cons_cons name.1
  | .ifThen word guard body => by
    rw [Derivation.stmt, kept, Derivation.tokens, ← word.eq_token]
    exact ((kept_sublist_guard guard).append body.kept_sublist).cons_cons word.1
  | .ifElse word guard body other alternative => by
    rw [Derivation.stmt, kept, Derivation.tokens, ← word.eq_token, ← List.append_assoc]
    exact (((kept_sublist_guard guard).append body.kept_sublist).append
      (alternative.kept_sublist.cons other.1)).cons_cons word.1
  | .whileDo word guard body => by
    rw [Derivation.stmt, kept, Derivation.tokens, ← word.eq_token]
    exact ((kept_sublist_guard guard).append body.kept_sublist).cons_cons word.1
  | .returnValue word ending => by
    rw [Derivation.stmt, kept, Derivation.tokens, ← word.eq_token]
    exact (kept_sublist_ending ending).cons_cons word.1

theorem Block.kept_sublist : (block : Block) → (keptOf block.stmts).Sublist block.tokens
  | .braces opening inside _ =>
    ((keptOf_sublist inside).trans (List.sublist_append_left ..)).cons opening.1

theorem keptOf_sublist : (derivations : List Derivation) → (keptOf (stmtsOf derivations)).Sublist (tokensOf derivations)
  | [] => .slnil
  | derivation :: others => derivation.kept_sublist.append (keptOf_sublist others)

end

/-- An assignment stands where its name stands. -/
theorem Derivation.place_of_assign (derivation : Derivation) {name : Identifier} {value : Expr} {place : Location}
    (same : derivation.stmt = .assign name value place) : name.location = place := by
  cases derivation with
  | assign word equals ending =>
    obtain ⟨rfl, -, rfl⟩ := Stmt.assign.inj same
    rfl
  | _ => exact absurd same nofun

end Stmt

namespace Program
open Stmt

/-- What a program keeps of the tokens of its source stands there in the same order. So it stands behind one another,
and the place of an expression, or of any part of one, is the first among those of its tokens. The name that is
assigned to, which is kept once, stands at the place of its statement. -/
theorem kept_in_order {source : String} {program : Program}
    (read : parse source = .ok program ∨ (recover source).program = program) :
    (keptOf program).Sublist (lex source) ∧
      ((keptOf program).Pairwise fun earlier later => earlier.location < later.location) ∧
      (∀ e ∈ exprsOf program, ∀ part ∈ e.parts,
        (∃ token ∈ part.kept, token.location = part.location) ∧
          ∀ token ∈ part.kept, token.location = part.location ∨ part.location < token.location) ∧
      ∀ depth name value place, Inside program depth (.assign name value place) → name.location = place := by
  obtain ⟨derivations, rfl, inside, -⟩ := exists_derivations_of_read read
  rw [Input.ahead_ofSource] at inside
  have kept := (keptOf_sublist derivations).trans inside
  have increasing := lex_increasing source
  refine ⟨kept, increasing.sublist kept, fun e member part among => Expr.location_least ?_, ?_⟩
  · have within := (Expr.kept_sublist_of_mem_parts among).trans (kept_sublist_of_mem_exprsOf _ e member)
    exact increasing.sublist (within.trans kept)
  · intro depth name value place inside
    obtain ⟨derivation, same, -⟩ := inside.exists_derivation
    exact derivation.place_of_assign same

/-- A loop behind a semicolon too many. The difference in it starts behind a parenthesis, of which nothing is kept. -/
theorem kept_in_order_loop :
    let difference : Expr := .binary ⟨.minus, "-", ⟨1, 23⟩⟩ (.leaf ⟨.identifier, "c", ⟨1, 20⟩⟩)
      (.leaf ⟨.number, "1", ⟨1, 25⟩⟩)
    let loop : Stmt := .whileDo (.leaf ⟨.identifier, "a", ⟨1, 10⟩⟩) [.assign ⟨"b", ⟨1, 15⟩⟩ difference ⟨1, 15⟩] ⟨1, 3⟩
    (recover "; while (a) \x7b b = (c) - 1; \x7d").program = [loop] ∧
      (keptOf [loop]).map (·.text) = ["while", "a", "b", "c", "-", "1"] ∧
      ((keptOf [loop]).Pairwise fun earlier later => earlier.location < later.location) ∧
      ∀ token ∈ difference.kept, token.location = ⟨1, 20⟩ ∨ ⟨1, 20⟩ < token.location := by
  intro difference loop
  let condition : Expr.Derivation .whole :=
    .single (.single (.single (.single (.single (.single (.leaf ⟨⟨.identifier, "a", ⟨1, 10⟩⟩, .inr (.inl rfl)⟩))))))
  let name : Expr.Derivation .whole :=
    .single (.single (.single (.single (.single (.single (.leaf ⟨⟨.identifier, "c", ⟨1, 20⟩⟩, .inr (.inl rfl)⟩))))))
  let value : Expr.Derivation .whole := .single (.single (.single (.single (.join
    (.single (.single (.parens ⟨⟨.leftParen, "(", ⟨1, 19⟩⟩, rfl⟩ name ⟨⟨.rightParen, ")", ⟨1, 21⟩⟩, rfl⟩)))
    ⟨⟨.minus, "-", ⟨1, 23⟩⟩, rfl⟩ (.single (.leaf ⟨⟨.number, "1", ⟨1, 25⟩⟩, .inl rfl⟩))))))
  let body : Stmt.Block := .braces ⟨⟨.leftBrace, "\x7b", ⟨1, 13⟩⟩, rfl⟩
    [.assign ⟨⟨.identifier, "b", ⟨1, 15⟩⟩, rfl⟩ ⟨⟨.assign, "=", ⟨1, 17⟩⟩, rfl⟩ ⟨value, ⟨⟨.semicolon, ";", ⟨1, 26⟩⟩, rfl⟩⟩]
    ⟨⟨.rightBrace, "\x7d", ⟨1, 28⟩⟩, rfl⟩
  let derivation : Stmt.Derivation := .whileDo ⟨⟨.keyword, "while", ⟨1, 3⟩⟩, rfl⟩
    ⟨⟨⟨.leftParen, "(", ⟨1, 9⟩⟩, rfl⟩, condition, ⟨⟨.rightParen, ")", ⟨1, 11⟩⟩, rfl⟩⟩ body
  let semicolon : Token := ⟨.semicolon, ";", ⟨1, 1⟩⟩
  have lexed : lex "; while (a) \x7b b = (c) - 1; \x7d" = semicolon :: (derivation.tokens ++ []) :=
    (Lexer.take_eq_tokens _).symm.trans rfl
  have fails : statement.read (semicolon :: (derivation.tokens ++ [])) =
    .error ⟨.statement, .statement⟩ (semicolon :: (derivation.tokens ++ [])) := rfl
  have resumed : resume (semicolon :: (derivation.tokens ++ [])) = derivation.tokens ++ [] := by
    rw [resume]
    rfl
  have reads : statement.read (derivation.tokens ++ []) = .ok loop [] :=
    statement_eq_ok_iff.2 ⟨derivation, rfl, trivial, by decide, rfl⟩
  have recovered : (recover "; while (a) \x7b b = (c) - 1; \x7d").program = [loop] := by
    rw [recover, Input.recover, Input.ahead_ofSource, lexed, salvage_of_error fails, resumed]
    exact congrArg Recovery.program ((salvage_of_ok reads).trans (salvage.eq_1 _ _ _))
  obtain ⟨-, increasing, least, -⟩ := kept_in_order (.inr recovered)
  have member : difference ∈ exprsOf [loop] := by simp [exprsOf, exprs, loop]
  exact ⟨recovered, rfl, increasing, (least difference member difference List.mem_cons_self).2⟩

end Program
end ScriptLens
