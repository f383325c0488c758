import ScriptLens.Proofs.Grammar.Expr
import ScriptLens.Stmt.Basic

/-!
The grammar of statements, blocks and programs, as its derivation trees. A program is derived in one way
at most (`tokensOf_injective`).
-/

namespace ScriptLens

/-- The value at the end of a statement, with the semicolon behind it. -/
structure Expr.Terminated where
  value : Expr.Derivation .whole
  semicolon : Token.Of .semicolon

/-- The condition of a statement. Its parentheses belong to the statement and open no level. -/
structure Expr.Guard where
  opening : Token.Of .leftParen
  condition : Expr.Derivation .whole
  closing : Token.Of .rightParen

namespace Expr.Terminated

def tokens (ending : Expr.Terminated) : List Token := ending.value.tokens ++ [ending.semicolon.1]

def overflow (ending : Expr.Terminated) (allowed : Nat) (rest : List Token) : Option (Production × List Token) :=
  ending.value.overflow allowed (ending.semicolon.1 :: rest)

theorem unique {ending other : Expr.Terminated} {rest rest' : List Token}
    (same : ending.tokens ++ rest = other.tokens ++ rest') : ending = other ∧ rest = rest' := by
  obtain ⟨value, semicolon⟩ := ending
  obtain ⟨value', semicolon'⟩ := other
  simp only [tokens, List.append_assoc, List.cons_append, List.nil_append] at same
  obtain ⟨rfl, behind⟩ := Derivation.whole_unique (ends_semicolon semicolon _) (ends_semicolon semicolon' _) same
  obtain ⟨semicolons, rfl⟩ := List.cons.inj behind
  exact ⟨by rw [Subtype.ext semicolons], rfl⟩

end Expr.Terminated

namespace Expr.Guard

def tokens (guard : Expr.Guard) : List Token :=
  guard.opening.1 :: (guard.condition.tokens ++ [guard.closing.1])

def overflow (guard : Expr.Guard) (allowed : Nat) (rest : List Token) : Option (Production × List Token) :=
  guard.condition.overflow allowed (guard.closing.1 :: rest)

theorem unique {guard other : Expr.Guard} {rest rest' : List Token}
    (same : guard.tokens ++ rest = other.tokens ++ rest') : guard = other ∧ rest = rest' := by
  obtain ⟨opening, condition, closing⟩ := guard
  obtain ⟨opening', condition', closing'⟩ := other
  simp only [tokens, List.cons_append, List.append_assoc, List.nil_append, List.cons.injEq] at same
  obtain ⟨openings, tail⟩ := same
  obtain ⟨rfl, behind⟩ := Derivation.whole_unique (ends_rightParen closing _) (ends_rightParen closing' _) tail
  obtain ⟨closings, rfl⟩ := List.cons.inj behind
  exact ⟨by rw [Subtype.ext openings, Subtype.ext closings], rfl⟩

end Expr.Guard

namespace Stmt

mutual

inductive Derivation where
  | declare (word : Token.Word .varKw) (name : Token.Of .identifier) (equals : Token.Of .assign)
      (ending : Expr.Terminated)
  | assign (name : Token.Of .identifier) (equals : Token.Of .assign) (ending : Expr.Terminated)
  | ifThen (word : Token.Word .ifKw) (guard : Expr.Guard) (body : Block)
  | ifElse (word : Token.Word .ifKw) (guard : Expr.Guard) (body : Block) (other : Token.Word .elseKw)
      (alternative : Block)
  | whileDo (word : Token.Word .whileKw) (guard : Expr.Guard) (body : Block)
  | returnValue (word : Token.Word .returnKw) (ending : Expr.Terminated)

inductive Block where
  | braces (opening : Token.Of .leftBrace) (inside : List Derivation) (closing : Token.Of .rightBrace)

end

mutual

def Derivation.tokens : Derivation → List Token
  | .declare word name equals ending => word.1 :: name.1 :: equals.1 :: ending.tokens
  | .assign name equals ending => name.1 :: equals.1 :: ending.tokens
  | .ifThen word guard body => word.1 :: (guard.tokens ++ body.tokens)
  | .ifElse word guard body other alternative =>
    word.1 :: (guard.tokens ++ body.tokens ++ other.1 :: alternative.tokens)
  | .whileDo word guard body => word.1 :: (guard.tokens ++ body.tokens)
  | .returnValue word ending => word.1 :: ending.tokens

def Block.tokens : Block → List Token
  | .braces opening inside closing => opening.1 :: (tokensOf inside ++ [closing.1])

def tokensOf : List Derivation → List Token
  | [] => []
  | derivation :: rest => derivation.tokens ++ tokensOf rest

end

mutual

/-- The statement that is kept. Its place is that of the first token. -/
def Derivation.stmt : Derivation → Stmt
  | .declare word name _ ending => .declare ⟨name.1.text, name.1.location⟩ ending.value.expr word.1.location
  | .assign name _ ending => .assign ⟨name.1.text, name.1.location⟩ ending.value.expr name.1.location
  | .ifThen word guard body => .ifThen guard.condition.expr body.stmts word.1.location
  | .ifElse word guard body _ alternative =>
    .ifElse guard.condition.expr body.stmts alternative.stmts word.1.location
  | .whileDo word guard body => .whileDo guard.condition.expr body.stmts word.1.location
  | .returnValue word ending => .returnValue ending.value.expr word.1.location

def Block.stmts : Block → List Stmt
  | .braces _ inside _ => stmtsOf inside

def stmtsOf : List Derivation → List Stmt
  | [] => []
  | derivation :: rest => derivation.stmt :: stmtsOf rest

end

mutual

/-- The most levels that are open at once: those of expressions, and one for each block. -/
def Derivation.levels : Derivation → Nat
  | .declare _ _ _ ending => ending.value.levels
  | .assign _ _ ending => ending.value.levels
  | .ifThen _ guard body => max guard.condition.levels body.levels
  | .ifElse _ guard body _ alternative => max guard.condition.levels (max body.levels alternative.levels)
  | .whileDo _ guard body => max guard.condition.levels body.levels
  | .returnValue _ ending => ending.value.levels

def Block.levels : Block → Nat
  | .braces _ inside _ => levelsOf inside + 1

def levelsOf : List Derivation → Nat
  | [] => 0
  | derivation :: rest => max derivation.levels (levelsOf rest)

end

mutual

/-- The first place where a level is opened though none of so many is left, as for expressions. -/
def Derivation.overflow : Derivation → Nat → List Token → Option (Production × List Token)
  | .declare _ _ _ ending, allowed, rest => ending.overflow allowed rest
  | .assign _ _ ending, allowed, rest => ending.overflow allowed rest
  | .ifThen _ guard body, allowed, rest =>
    (guard.overflow allowed (body.tokens ++ rest)).or (body.overflow allowed rest)
  | .ifElse _ guard body other alternative, allowed, rest =>
    (guard.overflow allowed (body.tokens ++ other.1 :: (alternative.tokens ++ rest))).or
      ((body.overflow allowed (other.1 :: (alternative.tokens ++ rest))).or (alternative.overflow allowed rest))
  | .whileDo _ guard body, allowed, rest =>
    (guard.overflow allowed (body.tokens ++ rest)).or (body.overflow allowed rest)
  | .returnValue _ ending, allowed, rest => ending.overflow allowed rest

def Block.overflow : Block → Nat → List Token → Option (Production × List Token)
  | .braces opening inside closing, 0, rest =>
    some (.block, opening.1 :: (tokensOf inside ++ closing.1 :: rest))
  | .braces _ inside closing, allowed + 1, rest => overflowOf inside allowed (closing.1 :: rest)

def overflowOf : List Derivation → Nat → List Token → Option (Production × List Token)
  | [], _, _ => none
  | derivation :: others, allowed, rest =>
    (derivation.overflow allowed (tokensOf others ++ rest)).or (overflowOf others allowed rest)

end

mutual

theorem Derivation.overflow_eq_none : (derivation : Derivation) → (allowed : Nat) → (rest : List Token) →
    (derivation.overflow allowed rest = none ↔ derivation.levels ≤ allowed)
  | .declare _ _ _ ending, _, _ => ending.value.overflow_eq_none _ _
  | .assign _ _ ending, _, _ => ending.value.overflow_eq_none _ _
  | .ifThen _ guard body, allowed, rest => by
    simp only [Derivation.overflow, Derivation.levels, Expr.Guard.overflow, Option.or_eq_none_iff, Nat.max_le,
      guard.condition.overflow_eq_none, body.overflow_eq_none]
  | .ifElse _ guard body _ alternative, allowed, rest => by
    simp only [Derivation.overflow, Derivation.levels, Expr.Guard.overflow, Option.or_eq_none_iff, Nat.max_le,
      guard.condition.overflow_eq_none, body.overflow_eq_none, alternative.overflow_eq_none]
  | .whileDo _ guard body, allowed, rest => by
    simp only [Derivation.overflow, Derivation.levels, Expr.Guard.overflow, Option.or_eq_none_iff, Nat.max_le,
      guard.condition.overflow_eq_none, body.overflow_eq_none]
  | .returnValue _ ending, _, _ => ending.value.overflow_eq_none _ _

theorem Block.overflow_eq_none : (block : Block) → (allowed : Nat) → (rest : List Token) →
    (block.overflow allowed rest = none ↔ block.levels ≤ allowed)
  | .braces _ inside _, 0, rest => by simp [Block.overflow, Block.levels]
  | .braces _ inside closing, allowed + 1, rest => by
    simp only [Block.overflow, Block.levels, overflowOf_eq_none inside, Nat.add_le_add_iff_right]

theorem overflowOf_eq_none : (derivations : List Derivation) → (allowed : Nat) → (rest : List Token) →
    (overflowOf derivations allowed rest = none ↔ levelsOf derivations ≤ allowed)
  | [], _, _ => by simp [overflowOf, levelsOf]
  | derivation :: others, allowed, rest => by
    simp only [overflowOf, levelsOf, Option.or_eq_none_iff, Nat.max_le, derivation.overflow_eq_none,
      overflowOf_eq_none others]

end

theorem levelsOf_le {derivations : List Derivation} {allowed : Nat} :
    levelsOf derivations ≤ allowed ↔ ∀ derivation ∈ derivations, derivation.levels ≤ allowed := by
  induction derivations with
  | nil => simp [levelsOf]
  | cons derivation rest ih => simp only [levelsOf, Nat.max_le, ih, List.forall_mem_cons]

/-- What may stand behind a statement: no branch that would go on with it. -/
def Ends (rest : List Token) : Prop := ∀ token ∈ rest.head?, token.keyword? ≠ some .elseKw

/-- What may stand behind a list of statements: a closing brace or nothing. -/
def Closes (rest : List Token) : Prop := ∀ token ∈ rest.head?, token.kind = .rightBrace

end Stmt

/-- The word or name that a statement can start with. -/
def Token.StartsStmt (token : Token) : Prop :=
  token.kind = .identifier ∨ token.keyword? = some .varKw ∨ token.keyword? = some .ifKw ∨
    token.keyword? = some .whileKw ∨ token.keyword? = some .returnKw

theorem Token.kind_of_keyword? {token : Token} {keyword : Keyword} (word : token.keyword? = some keyword) :
    token.kind = .keyword := by
  unfold keyword? at word
  split at word
  · assumption
  · contradiction

namespace Stmt

theorem Derivation.exists_head (derivation : Derivation) :
    ∃ first rest, derivation.tokens = first :: rest ∧ first.StartsStmt := by
  cases derivation with
  | declare word => exact ⟨word.1, _, rfl, .inr (.inl word.2)⟩
  | assign name => exact ⟨name.1, _, rfl, .inl name.2⟩
  | ifThen word => exact ⟨word.1, _, rfl, .inr (.inr (.inl word.2))⟩
  | ifElse word => exact ⟨word.1, _, rfl, .inr (.inr (.inl word.2))⟩
  | whileDo word => exact ⟨word.1, _, rfl, .inr (.inr (.inr (.inl word.2)))⟩
  | returnValue word => exact ⟨word.1, _, rfl, .inr (.inr (.inr (.inr word.2)))⟩

/-- A statement that is determined by the tokens in front of which it stands. -/
def Derivation.Unique (derivation : Derivation) : Prop :=
  ∀ (other : Derivation) (rest rest' : List Token), Ends rest → Ends rest' →
    derivation.tokens ++ rest = other.tokens ++ rest' → derivation = other ∧ rest = rest'

theorem not_startsStmt_of_closes {rest : List Token} (closes : Closes rest) (first : Token) (others : List Token) :
    rest = first :: others → ¬first.StartsStmt := by
  rintro rfl starts
  have closing : first.kind = .rightBrace := closes first rfl
  rcases starts with name | word | word | word | word
  · exact absurd (closing.symm.trans name) (by decide)
  all_goals exact absurd (closing.symm.trans (Token.kind_of_keyword? word)) (by decide)

theorem ends_of_startsStmt {first : Token} (starts : first.StartsStmt) (rest : List Token) :
    Ends (first :: rest) := by
  intro token member
  obtain rfl : first = token := by simpa using member
  rcases starts with name | word | word | word | word
  · intro other
    exact absurd (name.symm.trans (Token.kind_of_keyword? other)) (by decide)
  all_goals simp [word]

theorem ends_of_closes {rest : List Token} (closes : Closes rest) : Ends rest := by
  intro token member word
  exact absurd ((closes token member).symm.trans (Token.kind_of_keyword? word)) (by decide)

theorem ends_tokensOf (derivations : List Derivation) {rest : List Token} (closes : Closes rest) :
    Ends (tokensOf derivations ++ rest) := by
  cases derivations with
  | nil => exact ends_of_closes closes
  | cons derivation others =>
    obtain ⟨first, behind, same, starts⟩ := derivation.exists_head
    simp only [tokensOf, same, List.cons_append]
    exact ends_of_startsStmt starts _

theorem tokensOf_unique {derivations others : List Derivation} {rest rest' : List Token}
    (closes : Closes rest) (closes' : Closes rest') (unique : ∀ derivation ∈ derivations, derivation.Unique)
    (same : tokensOf derivations ++ rest = tokensOf others ++ rest') : derivations = others ∧ rest = rest' := by
  induction derivations generalizing others with
  | nil =>
    cases others with
    | nil => exact ⟨rfl, same⟩
    | cons other others =>
      obtain ⟨first, behind, head, starts⟩ := other.exists_head
      simp only [tokensOf, head, List.cons_append] at same
      exact absurd starts (not_startsStmt_of_closes closes _ _ same)
  | cons derivation derivations ih =>
    cases others with
    | nil =>
      obtain ⟨first, behind, head, starts⟩ := derivation.exists_head
      simp only [tokensOf, head, List.cons_append] at same
      exact absurd starts (not_startsStmt_of_closes closes' _ _ same.symm)
    | cons other others =>
      simp only [tokensOf, List.append_assoc] at same
      obtain ⟨rfl, tail⟩ := unique derivation (by simp) _ _ _ (ends_tokensOf derivations closes)
        (ends_tokensOf others closes') same
      obtain ⟨rfl, rfl⟩ := ih (fun later member => unique later (by simp [member])) tail
      exact ⟨rfl, rfl⟩

theorem closes_rightBrace (closing : Token.Of .rightBrace) (rest : List Token) : Closes (closing.1 :: rest) := by
  simp [Closes, closing.2]

def Block.inside : Block → List Derivation
  | .braces _ inside _ => inside

theorem Block.levels_lt {block : Block} {derivation : Derivation} (member : derivation ∈ block.inside) :
    derivation.levels < block.levels := by
  obtain ⟨opening, inside, closing⟩ := block
  have bound := levelsOf_le.1 (Nat.le_refl (levelsOf inside)) derivation member
  rw [Block.levels]
  omega

theorem Block.unique {block other : Block} (unique : ∀ derivation ∈ block.inside, derivation.Unique)
    {rest rest' : List Token} (same : block.tokens ++ rest = other.tokens ++ rest') :
    block = other ∧ rest = rest' := by
  obtain ⟨opening, inside, closing⟩ := block
  obtain ⟨opening', inside', closing'⟩ := other
  change ∀ derivation ∈ inside, derivation.Unique at unique
  simp only [Block.tokens, List.cons_append, List.append_assoc, List.nil_append, List.cons.injEq] at same
  obtain ⟨openings, tail⟩ := same
  obtain ⟨rfl, behind⟩ := tokensOf_unique (closes_rightBrace closing _) (closes_rightBrace closing' _) unique tail
  obtain ⟨closings, rfl⟩ := List.cons.inj behind
  exact ⟨by rw [Subtype.ext openings, Subtype.ext closings], rfl⟩

/-- A condition with its block is determined, too. -/
theorem guarded_unique {guard guard' : Expr.Guard} {body body' : Block}
    (unique : ∀ derivation ∈ body.inside, derivation.Unique) {rest rest' : List Token}
    (same : guard.tokens ++ body.tokens ++ rest = guard'.tokens ++ body'.tokens ++ rest') :
    guard = guard' ∧ body = body' ∧ rest = rest' := by
  rw [List.append_assoc, List.append_assoc] at same
  obtain ⟨rfl, tail⟩ := Expr.Guard.unique same
  obtain ⟨rfl, rfl⟩ := Block.unique unique tail
  exact ⟨rfl, rfl, rfl⟩

/-- The reserved word that a derivation starts with, or none if it starts with a name. -/
def Derivation.word? : Derivation → Option Keyword
  | .declare .. => some .varKw
  | .assign .. => none
  | .ifThen .. => some .ifKw
  | .ifElse .. => some .ifKw
  | .whileDo .. => some .whileKw
  | .returnValue .. => some .returnKw

theorem Derivation.head_word? (derivation : Derivation) (rest : List Token) :
    (derivation.tokens ++ rest).head?.bind Token.keyword? = derivation.word? := by
  cases derivation with
  | declare word => exact word.2
  | assign name => simp [tokens, word?, Token.keyword?, name.2]
  | ifThen word => exact word.2
  | ifElse word => exact word.2
  | whileDo word => exact word.2
  | returnValue word => exact word.2

theorem Derivation.unique_of_levels (allowed : Nat) (derivation : Derivation) (bound : derivation.levels ≤ allowed) :
    derivation.Unique := by
  induction allowed using Nat.strongRecOn generalizing derivation with
  | ind allowed ih =>
  intro other rest rest' ends ends' same
  have form : derivation.word? = other.word? := by rw [← derivation.head_word? rest, same, other.head_word?]
  have inner {body : Block} (bound : body.levels ≤ allowed) : ∀ derivation ∈ body.inside, derivation.Unique := by
    intro derivation member
    have shallower := Block.levels_lt member
    exact ih derivation.levels (by omega) derivation (Nat.le_refl _)
  cases derivation with
  | declare word name equals ending =>
    cases other with
    | declare word' name' equals' ending' =>
      simp only [tokens, List.cons_append, List.cons.injEq] at same
      obtain ⟨words, names, signs, tail⟩ := same
      obtain ⟨rfl, rfl⟩ := Expr.Terminated.unique tail
      rw [Subtype.ext words, Subtype.ext names, Subtype.ext signs]
      exact ⟨rfl, rfl⟩
    | _ => simp [word?] at form
  | assign name equals ending =>
    cases other with
    | assign name' equals' ending' =>
      simp only [tokens, List.cons_append, List.cons.injEq] at same
      obtain ⟨names, signs, tail⟩ := same
      obtain ⟨rfl, rfl⟩ := Expr.Terminated.unique tail
      rw [Subtype.ext names, Subtype.ext signs]
      exact ⟨rfl, rfl⟩
    | _ => simp [word?] at form
  | ifThen word guard body =>
    have unique := inner (Nat.le_trans (Nat.le_max_right ..) bound)
    cases other with
    | ifThen word' guard' body' =>
      obtain ⟨words, tail⟩ := List.cons.inj same
      obtain ⟨rfl, rfl, rfl⟩ := guarded_unique unique tail
      exact ⟨by rw [Subtype.ext words], rfl⟩
    | ifElse word' guard' body' other' alternative =>
      simp only [tokens, List.cons_append, List.append_assoc (_ ++ _), List.cons.injEq] at same
      obtain ⟨-, -, behind⟩ := guarded_unique unique same.2
      exact absurd other'.2 (ends other'.1 (by simp [behind]))
    | _ => simp [word?] at form
  | ifElse word guard body branch alternative =>
    simp only [levels, Nat.max_le] at bound
    have unique := inner bound.2.1
    cases other with
    | ifThen word' guard' body' =>
      simp only [tokens, List.cons_append, List.append_assoc (_ ++ _), List.cons.injEq] at same
      obtain ⟨-, -, behind⟩ := guarded_unique unique same.2
      exact absurd branch.2 (ends' branch.1 (by simp [← behind]))
    | ifElse word' guard' body' branch' alternative' =>
      simp only [tokens, List.cons_append, List.append_assoc (_ ++ _), List.cons.injEq] at same
      obtain ⟨rfl, rfl, behind⟩ := guarded_unique unique same.2
      obtain ⟨branches, behind⟩ := List.cons.inj behind
      obtain ⟨rfl, rfl⟩ := Block.unique (inner bound.2.2) behind
      rw [Subtype.ext same.1, Subtype.ext branches]
      exact ⟨rfl, rfl⟩
    | _ => simp [word?] at form
  | whileDo word guard body =>
    cases other with
    | whileDo word' guard' body' =>
      obtain ⟨words, tail⟩ := List.cons.inj same
      obtain ⟨rfl, rfl, rfl⟩ := guarded_unique (inner (Nat.le_trans (Nat.le_max_right ..) bound)) tail
      exact ⟨by rw [Subtype.ext words], rfl⟩
    | _ => simp [word?] at form
  | returnValue word ending =>
    cases other with
    | returnValue word' ending' =>
      obtain ⟨words, tail⟩ := List.cons.inj same
      obtain ⟨rfl, rfl⟩ := Expr.Terminated.unique tail
      exact ⟨by rw [Subtype.ext words], rfl⟩
    | _ => simp [word?] at form

theorem Derivation.unique (derivation : Derivation) : derivation.Unique :=
  unique_of_levels derivation.levels derivation (Nat.le_refl _)

/-- A list of tokens is a list of statements in one way at most. -/
theorem tokensOf_injective {derivations others : List Derivation} (same : tokensOf derivations = tokensOf others) :
    derivations = others := by
  have closes : Closes [] := by simp [Closes]
  have same : tokensOf derivations ++ [] = tokensOf others ++ [] := by rw [same]
  exact (tokensOf_unique closes closes (fun derivation _ => derivation.unique) same).1

end Stmt
end ScriptLens
