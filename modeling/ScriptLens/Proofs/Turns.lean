import ScriptLens.Proofs.Overflow
import ScriptLens.Proofs.Recovery

/-!
How far down a program reaches that was read. Bodies and what they hold pay for their depth with levels, and in an
expression there is at most one turn away from the left edge for each precedence before the next level is opened
(`Expr.Derivation.turns_le`). Along its left edge an expression reaches down as far as one likes
(`Program.exists_leftmost`).
-/

namespace ScriptLens

namespace Expr

/-- A step from an operator down to an operand. -/
inductive Step where
  | inner | left | right
  deriving DecidableEq

/-- The ways from the root of an expression down to its leaves. -/
inductive Way : Expr → List Step → Prop where
  | leaf (token : Token) : Way (.leaf token) []
  | inner (op : Token) {operand : Expr} {steps : List Step} (further : Way operand steps) :
      Way (.negate op operand) (.inner :: steps)
  | left (op : Token) {left : Expr} (right : Expr) {steps : List Step} (further : Way left steps) :
      Way (.binary op left right) (.left :: steps)
  | right (op : Token) (left : Expr) {right : Expr} {steps : List Step} (further : Way right steps) :
      Way (.binary op left right) (.right :: steps)

/-- How often a way enters a right operand, or the operand of a negation. -/
def turns (steps : List Step) : Nat := steps.countP fun step => step ≠ .left

@[simp] theorem turns_inner (steps : List Step) : turns (.inner :: steps) = turns steps + 1 :=
  List.countP_cons_of_pos rfl

@[simp] theorem turns_left (steps : List Step) : turns (.left :: steps) = turns steps :=
  List.countP_cons_of_neg (by decide)

@[simp] theorem turns_right (steps : List Step) : turns (.right :: steps) = turns steps + 1 :=
  List.countP_cons_of_pos rfl

namespace Derivation

/-- Where a level is opened all precedences are allowed again; up to there each turn is to a tighter one. -/
theorem turns_le {layer : Layer} (derivation : Derivation layer) {steps : List Step}
    (way : derivation.expr.Way steps) : turns steps + layer.rank ≤ 6 * (derivation.levels + 1) := by
  induction derivation generalizing steps with
  | leaf atom =>
    change Way (.leaf atom.1) steps at way
    cases way
    exact Nat.le_refl 6
  | negate op inner ih =>
    change Way (.negate op.1 inner.expr) steps at way
    cases way with
    | inner _ further =>
      have bound := ih further
      simp only [turns_inner, levels, Layer.rank] at bound ⊢
      omega
  | parens opening inner closing ih =>
    have bound := ih way
    simp only [levels, Layer.rank, Precedence.rank] at bound ⊢
    omega
  | @single precedence inner ih =>
    have bound := ih way
    rw [Precedence.rank_tighter] at bound
    exact Nat.le_trans (Nat.le_succ _) bound
  | @join precedence left op right ihLeft ihRight =>
    change Way (.binary op.1 left.expr right.expr) steps at way
    rw [levels]
    cases way with
    | left _ _ further =>
      have bound := ihLeft further
      rw [turns_left]
      omega
    | right _ _ further =>
      have bound := ihRight further
      rw [Precedence.rank_tighter] at bound
      rw [turns_right, Layer.rank]
      omega

def one : Derivation .operand := .leaf ⟨⟨.number, "1", .start⟩, .inl rfl⟩

/-- A sum of ones, with so many plus signs. -/
def sum : Nat → Derivation (.joined .additive)
  | 0 => .single (.single one)
  | count + 1 => .join (sum count) ⟨⟨.plus, "+", .start⟩, rfl⟩ (.single one)

theorem levels_sum (count : Nat) : (sum count).levels = 0 := by
  induction count with
  | zero => rfl
  | succ count ih => exact (Nat.max_zero _).trans ih

theorem leftmost_sum (count : Nat) : (sum count).expr.Way (List.replicate count .left) := by
  induction count with
  | zero => exact .leaf _
  | succ count ih => exact .left _ _ ih

/-- An operand behind an operator of every precedence, the loosest first. -/
def ladder (last : Derivation .operand) : Derivation .whole :=
  .join (.single (.single (.single (.single (.single (.single one)))))) ⟨⟨.keyword, "or", .start⟩, rfl⟩
    (.join (.single (.single (.single (.single (.single one))))) ⟨⟨.keyword, "and", .start⟩, rfl⟩
      (.join (.single (.single (.single (.single one)))) ⟨⟨.equal, "==", .start⟩, rfl⟩
        (.join (.single (.single (.single one))) ⟨⟨.less, "<", .start⟩, rfl⟩
          (.join (.single (.single one)) ⟨⟨.plus, "+", .start⟩, rfl⟩
            (.join (.single one) ⟨⟨.times, "*", .start⟩, rfl⟩ last)))))

theorem levels_ladder (last : Derivation .operand) : (ladder last).levels = last.levels := by
  change max 0 (max 0 (max 0 (max 0 (max 0 (max 0 last.levels))))) = last.levels
  simp only [Nat.zero_max]

theorem rightmost_ladder {last : Derivation .operand} {steps : List Step} (way : last.expr.Way steps) :
    (ladder last).expr.Way (List.replicate 6 .right ++ steps) :=
  .right _ _ (.right _ _ (.right _ _ (.right _ _ (.right _ _ (.right _ _ way)))))

/-- As many ladders inside one another, each in parentheses. -/
def ladders : Nat → Derivation .operand
  | 0 => one
  | count + 1 => .parens ⟨⟨.leftParen, "(", .start⟩, rfl⟩ (ladder (ladders count)) ⟨⟨.rightParen, ")", .start⟩, rfl⟩

theorem levels_ladders (count : Nat) : (ladders count).levels = count := by
  induction count with
  | zero => rfl
  | succ count ih => rw [ladders, levels, levels_ladder, ih]

theorem rightmost_ladders (count : Nat) : (ladders count).expr.Way (List.replicate (6 * count) .right) := by
  induction count with
  | zero => exact .leaf _
  | succ count ih =>
    have way := rightmost_ladder ih
    rwa [← List.replicate_add, Nat.add_comm, ← Nat.mul_succ] at way

end Derivation
end Expr

namespace Stmt

/-- The condition or the value of a statement. -/
def expr : Stmt → Expr
  | declare _ value _ => value
  | assign _ value _ => value
  | ifThen condition _ _ => condition
  | ifElse condition _ _ _ => condition
  | whileDo condition _ _ => condition
  | returnValue value _ => value

/-- The bodies of a statement. -/
def bodies : Stmt → List (List Stmt)
  | ifThen _ body _ => [body]
  | ifElse _ body other _ => [body, other]
  | whileDo _ body _ => [body]
  | _ => []

/-- The statements of a list and of the bodies in it, with the number of bodies around them. -/
inductive Inside : List Stmt → Nat → Stmt → Prop where
  | here {stmts : List Stmt} {stmt : Stmt} (member : stmt ∈ stmts) : Inside stmts 0 stmt
  | deeper {stmts body : List Stmt} {outer stmt : Stmt} {depth : Nat} (member : outer ∈ stmts)
      (among : body ∈ outer.bodies) (further : Inside body depth stmt) : Inside stmts (depth + 1) stmt

theorem exists_of_mem_stmtsOf {derivations : List Derivation} {stmt : Stmt} (member : stmt ∈ stmtsOf derivations) :
    ∃ derivation : Derivation, derivation.stmt = stmt ∧ derivation.levels ≤ levelsOf derivations := by
  induction derivations with
  | nil => exact absurd member List.not_mem_nil
  | cons derivation others ih =>
    rw [levelsOf]
    rcases List.mem_cons.1 member with rfl | later
    · exact ⟨derivation, rfl, Nat.le_max_left ..⟩
    · obtain ⟨other, same, bound⟩ := ih later
      exact ⟨other, same, Nat.le_trans bound (Nat.le_max_right ..)⟩

namespace Derivation

theorem exists_expr (derivation : Derivation) : ∃ value : Expr.Derivation .whole,
    value.expr = derivation.stmt.expr ∧ value.levels ≤ derivation.levels := by
  cases derivation with
  | declare word name equals ending => exact ⟨ending.value, rfl, Nat.le_refl _⟩
  | assign name equals ending => exact ⟨ending.value, rfl, Nat.le_refl _⟩
  | ifThen word guard body => exact ⟨guard.condition, rfl, Nat.le_max_left ..⟩
  | ifElse word guard body other alternative => exact ⟨guard.condition, rfl, Nat.le_max_left ..⟩
  | whileDo word guard body => exact ⟨guard.condition, rfl, Nat.le_max_left ..⟩
  | returnValue word ending => exact ⟨ending.value, rfl, Nat.le_refl _⟩

/-- A body takes a level. -/
theorem exists_body (derivation : Derivation) {body : List Stmt} (among : body ∈ derivation.stmt.bodies) :
    ∃ inside : List Derivation, stmtsOf inside = body ∧ levelsOf inside < derivation.levels := by
  cases derivation with
  | declare => exact absurd among List.not_mem_nil
  | assign => exact absurd among List.not_mem_nil
  | ifThen word guard block =>
    obtain ⟨opening, inside, closing⟩ := block
    obtain rfl := List.mem_singleton.1 among
    exact ⟨inside, rfl, Nat.le_max_right ..⟩
  | ifElse word guard block other block' =>
    obtain ⟨opening, inside, closing⟩ := block
    obtain ⟨opening', inside', closing'⟩ := block'
    simp only [levels, Block.levels]
    rcases List.mem_cons.1 among with rfl | among
    · exact ⟨inside, rfl, by omega⟩
    · obtain rfl := List.mem_singleton.1 among
      exact ⟨inside', rfl, by omega⟩
  | whileDo word guard block =>
    obtain ⟨opening, inside, closing⟩ := block
    obtain rfl := List.mem_singleton.1 among
    exact ⟨inside, rfl, Nat.le_max_right ..⟩
  | returnValue => exact absurd among List.not_mem_nil

end Derivation

/-- What is inside was derived as well, and the bodies around it take their levels first. -/
theorem Inside.exists_derivation {derivations : List Derivation} {depth : Nat} {stmt : Stmt}
    (inside : Inside (stmtsOf derivations) depth stmt) :
    ∃ derivation : Derivation, derivation.stmt = stmt ∧ depth + derivation.levels ≤ levelsOf derivations := by
  generalize same : stmtsOf derivations = stmts at inside
  induction inside generalizing derivations with
  | here member =>
    subst same
    obtain ⟨derivation, stmt, bound⟩ := exists_of_mem_stmtsOf member
    exact ⟨derivation, stmt, by omega⟩
  | deeper member among further ih =>
    subst same
    obtain ⟨outer, rfl, bound⟩ := exists_of_mem_stmtsOf member
    obtain ⟨within, body, less⟩ := outer.exists_body among
    obtain ⟨derivation, stmt, bound'⟩ := ih body
    exact ⟨derivation, stmt, by omega⟩

/-- The bodies around a statement and what its expression opens are open at once. -/
theorem Inside.exists_expr {derivations : List Derivation} {depth : Nat} {stmt : Stmt}
    (inside : Inside (stmtsOf derivations) depth stmt) :
    ∃ value : Expr.Derivation .whole, value.expr = stmt.expr ∧ depth + value.levels ≤ levelsOf derivations := by
  obtain ⟨derivation, rfl, bound⟩ := inside.exists_derivation
  obtain ⟨value, expr, bound'⟩ := derivation.exists_expr
  exact ⟨value, expr, by omega⟩

end Stmt

namespace Program
open Stmt

/-- An expression as the value of the only statement. -/
def returning (value : Expr.Derivation .whole) : List Stmt.Derivation :=
  [.returnValue ⟨⟨.keyword, "return", .start⟩, rfl⟩ ⟨value, ⟨⟨.semicolon, ";", .start⟩, rfl⟩⟩]

theorem parse_returning {value : Expr.Derivation .whole} (shallow : value.levels ≤ nestingLimit) :
    (Input.ofTokens (tokensOf (returning value))).parse.1 = .ok [.returnValue value.expr .start] := by
  have bound : levelsOf (returning value) ≤ nestingLimit := by
    rw [returning, levelsOf, levelsOf]
    exact Nat.max_le.2 ⟨shallow, Nat.zero_le _⟩
  exact Input.parse_eq_ok_iff.2 ⟨_, (Input.ahead_ofTokens (endless_tokensOf _)).symm, bound, rfl⟩

/-- However long a chain of operators is, it is read, and its tree reaches down to the left as far. -/
theorem exists_leftmost (count : Nat) : ∃ tokens value place,
    (Input.ofTokens tokens).parse.1 = .ok [.returnValue value place] ∧ value.Way (List.replicate count .left) := by
  obtain ⟨value, -, expr, levels⟩ := (Expr.Derivation.sum count).exists_whole
  have shallow : value.levels ≤ nestingLimit := by
    rw [levels, Expr.Derivation.levels_sum]
    exact Nat.zero_le _
  refine ⟨_, _, _, parse_returning shallow, ?_⟩
  rw [expr]
  exact Expr.Derivation.leftmost_sum count

/-- No statement that is read lies in more bodies than levels are allowed, and the more bodies are around it, the
fewer turns away from the left edge its expression has. The left edge itself has no bound. -/
theorem turns_bounded :
    (∀ (tokens : List Token) (program : Program),
      (Input.ofTokens tokens).parse.1 = .ok program ∨ (Input.ofTokens tokens).recover.1.program = program →
      ∀ (depth : Nat) (stmt : Stmt), Inside program depth stmt → depth ≤ nestingLimit ∧
        ∀ steps, stmt.expr.Way steps → Expr.turns steps ≤ 6 * (nestingLimit + 1 - depth)) ∧
    ∀ count, ∃ tokens value place,
      (Input.ofTokens tokens).parse.1 = .ok [.returnValue value place] ∧ value.Way (List.replicate count .left) := by
  refine ⟨fun tokens program read depth stmt inside => ?_, exists_leftmost⟩
  obtain ⟨derivations, rfl, -, shallow⟩ := exists_derivations_of_read read
  obtain ⟨value, expr, bound⟩ := inside.exists_expr
  refine ⟨by omega, fun steps way => ?_⟩
  rw [← expr] at way
  have few := value.turns_le way
  omega

/-- With all operators in all parentheses there is a way that takes as many turns as are allowed, and none takes
more. -/
theorem turns_bounded_ladders : ∃ tokens value place,
    (Input.ofTokens tokens).parse.1 = .ok [.returnValue value place] ∧
      value.Way (List.replicate 1542 .right) ∧ ∀ steps, value.Way steps → Expr.turns steps ≤ 1542 := by
  have shallow : (Expr.Derivation.ladder (Expr.Derivation.ladders nestingLimit)).levels ≤ nestingLimit := by
    rw [Expr.Derivation.levels_ladder, Expr.Derivation.levels_ladders]
  have read := parse_returning shallow
  refine ⟨_, _, _, read, ?_, fun steps way => ?_⟩
  · exact Expr.Derivation.rightmost_ladder (Expr.Derivation.rightmost_ladders nestingLimit)
  · exact (turns_bounded.1 _ _ (.inl read) 0 _ (.here (List.mem_singleton_self _))).2 steps way

end Program
end ScriptLens
