import ScriptLens.Expr.Parser
import ScriptLens.Proofs.Grammar.Expr
import ScriptLens.Proofs.Reading.Outcome

/-!
What comes of reading expressions. In front of a derivation an expression is read as the derivation says, up to
the first level too many (`read_settled`).
-/

namespace ScriptLens

/-- A chain that goes on with links. -/
def Spine.attached (spine : Spine) (links : List Expr.Link) : Spine :=
  links.foldl (fun spine link => spine.attach link.op.1 link.precedence link.operand.expr) spine

namespace Expr
open Reader

namespace Derivation

variable {layer : Layer}

/-- The open operators behind which a chain ends that is derived like this. -/
def spine {layer : Layer} : Derivation layer → Spine
  | leaf atom => .last (.leaf atom.1)
  | negate op inner => .last (.negate op.1 inner.expr)
  | parens _ inner _ => .last inner.expr
  | single inner => inner.spine
  | @join precedence left op right => .link left.expr op.1 precedence right.spine

theorem toExpr_spine (derivation : Derivation layer) : derivation.spine.toExpr = derivation.expr := by
  induction derivation with
  | leaf => rfl
  | negate => rfl
  | parens => rfl
  | single inner ih => exact ih
  | join left op right _ ih => rw [spine, Spine.toExpr, ih, expr]

/-- All open operators belong to the layer. -/
theorem spine_cases (derivation : Derivation layer) :
    derivation.spine = .last derivation.expr ∨
      ∃ left op precedence rest, derivation.spine = .link left op precedence rest ∧ layer.rank ≤ precedence.rank := by
  induction derivation with
  | leaf => exact .inl rfl
  | negate => exact .inl rfl
  | parens => exact .inl rfl
  | @single precedence inner ih =>
    rcases ih with alone | ⟨left, op, inside, rest, same, bound⟩
    · exact .inl alone
    · rw [Precedence.rank_tighter] at bound
      exact .inr ⟨left, op, inside, rest, same, Nat.le_of_succ_le bound⟩
  | join left op right => exact .inr ⟨_, _, _, _, rfl, Nat.le_refl _⟩

/-- An operator takes all of a derivation of its layer as its left operand. -/
theorem attach_spine {precedence : Precedence} (left : Derivation (.joined precedence)) (op : Token) (right : Expr) :
    left.spine.attach op precedence right = .link left.expr op precedence (.last right) := by
  have whole := left.toExpr_spine
  rcases left.spine_cases with alone | ⟨inside, other, loose, rest, same, bound⟩
  · rw [alone, Spine.attach]
  · rw [same] at whole ⊢
    have tight : ¬loose < precedence := Nat.not_lt.2 bound
    rw [Spine.attach, if_neg tight, whole]

/-- Tighter operators go into the right operand. -/
theorem attached_link {precedence : Precedence} (left : Expr) (op : Token) (spine : Spine) {links : List Link}
    (tighter : ∀ link ∈ links, precedence.rank < link.precedence.rank) :
    (Spine.link left op precedence spine).attached links = .link left op precedence (spine.attached links) := by
  induction links generalizing spine with
  | nil => rfl
  | cons link links ih =>
    have inside : precedence < link.precedence := tighter link (by simp)
    have step : (Spine.link left op precedence spine).attach link.op.1 link.precedence link.operand.expr =
        .link left op precedence (spine.attach link.op.1 link.precedence link.operand.expr) := by
      rw [Spine.attach, if_pos inside]
    simp only [Spine.attached, List.foldl_cons, step]
    exact ih _ fun other member => tighter other (by simp [member])

/-- Reading a chain from the left builds the tree of its layers. -/
theorem attached_links (derivation : Derivation layer) :
    (Spine.last derivation.first.expr).attached derivation.links = derivation.spine := by
  induction derivation with
  | leaf => rfl
  | negate => rfl
  | parens => rfl
  | single inner ih => exact ih
  | @join precedence left op right ihLeft ihRight =>
    calc
      _ = ((Spine.last left.first.expr).attached left.links).attached
          (⟨precedence, op, right.first⟩ :: right.links) := List.foldl_append
      _ = (left.spine.attach op.1 precedence right.first.expr).attached right.links := by rw [ihLeft]; rfl
      _ = .link left.expr op.1 precedence ((Spine.last right.first.expr).attached right.links) := by
        rw [attach_spine, attached_link _ _ _ right.rank_lt_of_mem_links]
      _ = _ := by rw [ihRight, spine]

end Derivation

/-- A reader of operands that reads every derivation as far as so many levels allow. -/
def Settles (operand : Consumer Expr) (allowed : Nat) : Prop :=
  ∀ (derivation : Derivation .operand) (rest : List Token),
    operand.read (derivation.tokens ++ rest) = settled (derivation.overflow allowed rest) derivation.expr rest

theorem chain_of_ends (operand : Consumer Expr) (spine : Spine) {rest : List Token} (ends : Ends rest) :
    chain operand spine rest = .ok spine.toExpr rest := by
  cases rest with
  | nil => rw [chain]
  | cons token rest =>
    have none : Precedence.ofToken? token = none := ends token rfl
    rw [chain, none]

theorem chain_settled {operand : Consumer Expr} {allowed : Nat} (settles : Settles operand allowed) (spine : Spine)
    (links : List Link) {rest : List Token} (ends : Ends rest) :
    chain operand spine (links.flatMap Link.tokens ++ rest) =
      settled (Link.overflow links allowed rest) (spine.attached links).toExpr rest := by
  induction links generalizing spine with
  | nil => exact chain_of_ends operand spine ends
  | cons link links ih =>
    have reads := settles link.operand (links.flatMap Link.tokens ++ rest)
    simp only [List.flatMap_cons, Link.tokens, List.cons_append, List.append_assoc]
    rw [chain, link.op.2]
    dsimp only
    rw [reads, Link.overflow]
    cases link.operand.overflow allowed (links.flatMap Link.tokens ++ rest) with
    | none => exact ih _
    | some place => rfl

theorem joined_settled {operand : Consumer Expr} {allowed : Nat} (settles : Settles operand allowed)
    (derivation : Derivation .whole) {rest : List Token} (ends : Ends rest) :
    joined operand (derivation.tokens ++ rest) = settled (derivation.overflow allowed rest) derivation.expr rest := by
  have tree : ((Spine.last derivation.first.expr).attached derivation.links).toExpr = derivation.expr := by
    rw [derivation.attached_links, derivation.toExpr_spine]
  rw [derivation.tokens_flat, derivation.overflow_flat, List.append_assoc, ← tree]
  exact bind_settled (settles derivation.first _) (chain_settled settles _ derivation.links ends)

theorem operand_settles (allowed : Nat) : Settles (operand allowed) allowed := by
  induction allowed with
  | zero =>
    intro derivation rest
    cases derivation with
    | leaf atom =>
      rcases atom.2 with kind | kind | kind <;>
        simp [operand, operandWith, Derivation.tokens, Derivation.overflow, Derivation.expr, settled, kind]
    | negate op inner =>
      simp [operand, operandWith, Derivation.tokens, Derivation.overflow, settled, op.2]
    | parens opening inner closing =>
      simp [operand, operandWith, Derivation.tokens, Derivation.overflow, settled, opening.2]
  | succ allowed ih =>
    intro derivation rest
    cases derivation with
    | leaf atom =>
      rcases atom.2 with kind | kind | kind <;>
        simp [operand, operandWith, Derivation.tokens, Derivation.overflow, Derivation.expr, settled, kind]
    | negate op inner =>
      simp only [operand, operandWith, Derivation.tokens, Derivation.overflow, Derivation.expr, op.2,
        List.cons_append]
      exact bind_settled_ok (ih inner rest) rfl
    | parens opening inner closing =>
      simp only [operand, operandWith, Derivation.tokens, Derivation.overflow, Derivation.expr, opening.2,
        List.cons_append, List.append_assoc, List.nil_append]
      have reads := joined_settled ih inner (ends_rightParen closing rest)
      exact bind_settled_ok reads (bind_take _ _ closing rest)

/-- An expression is read as its derivation says, if what stands behind it does not go on with it. -/
theorem read_settled (allowed : Nat) (derivation : Derivation .whole) {rest : List Token} (ends : Ends rest) :
    read allowed (derivation.tokens ++ rest) = settled (derivation.overflow allowed rest) derivation.expr rest :=
  joined_settled (operand_settles allowed) derivation ends

end Expr
end ScriptLens
