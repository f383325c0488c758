import Mathlib.Data.List.Induction
import ScriptLens.Expr.Spine
import ScriptLens.SyntaxError

/-!
The grammar of expressions, as its derivation trees. Each precedence is a layer whose operators associate
to the left; below the tightest stand the operands. Seen flat, a derivation is an operand followed by
links, and it is determined by them (`eq_of_flat`, `exists_flat`).
-/

namespace ScriptLens

/-- A token of a kind. -/
abbrev Token.Of (kind : Kind) := {token : Token // token.kind = kind}

/-- A token that is a reserved word. -/
abbrev Token.Word (keyword : Keyword) := {token : Token // token.keyword? = some keyword}

/-- A token that is an expression by itself. -/
abbrev Token.Atom :=
  {token : Token // token.kind = .number ∨ token.kind = .identifier ∨ token.kind = .boolean}

/-- A token that joins two operands. -/
abbrev Token.Joining (precedence : Precedence) := {token : Token // Precedence.ofToken? token = some precedence}

namespace Expr

/-- Chains whose operators have this precedence or a tighter one, or operands. -/
inductive Layer where
  | joined (precedence : Precedence)
  | operand

namespace Layer

abbrev whole : Layer := joined .disjunction

def rank : Layer → Nat
  | joined precedence => precedence.rank
  | operand => 6

end Layer
end Expr

/-- The layer below a precedence, to which its right operands belong. -/
def Precedence.tighter : Precedence → Expr.Layer
  | disjunction => .joined conjunction
  | conjunction => .joined equality
  | equality => .joined relational
  | relational => .joined additive
  | additive => .joined multiplicative
  | multiplicative => .operand

theorem Precedence.rank_tighter (precedence : Precedence) : precedence.tighter.rank = precedence.rank + 1 := by
  cases precedence <;> rfl

theorem Precedence.rank_lt_six (precedence : Precedence) : precedence.rank < 6 := by
  cases precedence <;> decide

theorem Precedence.rank_injective {a b : Precedence} (same : a.rank = b.rank) : a = b := by
  cases a <;> cases b <;> first | rfl | exact absurd same (by decide)

namespace Expr

inductive Derivation : Layer → Type where
  | leaf (atom : Token.Atom) : Derivation .operand
  | negate (op : Token.Of .minus) (inner : Derivation .operand) : Derivation .operand
  | parens (opening : Token.Of .leftParen) (inner : Derivation .whole) (closing : Token.Of .rightParen) :
      Derivation .operand
  | single {precedence : Precedence} (inner : Derivation precedence.tighter) : Derivation (.joined precedence)
  | join {precedence : Precedence} (left : Derivation (.joined precedence)) (op : Token.Joining precedence)
      (right : Derivation precedence.tighter) : Derivation (.joined precedence)

namespace Derivation

variable {layer : Layer}

/-- The tokens at the leaves, from left to right. -/
def tokens {layer : Layer} : Derivation layer → List Token
  | leaf atom => [atom.1]
  | negate op inner => op.1 :: inner.tokens
  | parens opening inner closing => opening.1 :: (inner.tokens ++ [closing.1])
  | single inner => inner.tokens
  | join left op right => left.tokens ++ op.1 :: right.tokens

/-- The tree that is kept: layers and parentheses leave no trace in it. -/
def expr {layer : Layer} : Derivation layer → Expr
  | leaf atom => .leaf atom.1
  | negate op inner => .negate op.1 inner.expr
  | parens _ inner _ => inner.expr
  | single inner => inner.expr
  | join left op right => .binary op.1 left.expr right.expr

/-- The most levels that are open at once. -/
def levels {layer : Layer} : Derivation layer → Nat
  | leaf _ => 0
  | negate _ inner => inner.levels + 1
  | parens _ inner _ => inner.levels + 1
  | single inner => inner.levels
  | join left _ right => max left.levels right.levels

/-- The first place where a level is opened though none of so many is left, and the production that opens
it. The tokens from there on are given, with those behind the derivation. -/
def overflow {layer : Layer} : Derivation layer → Nat → List Token → Option (Production × List Token)
  | leaf _, _, _ => none
  | negate op inner, 0, rest => some (.expression, op.1 :: (inner.tokens ++ rest))
  | negate _ inner, allowed + 1, rest => inner.overflow allowed rest
  | parens opening inner closing, 0, rest =>
    some (.expression, opening.1 :: (inner.tokens ++ closing.1 :: rest))
  | parens _ inner closing, allowed + 1, rest => inner.overflow allowed (closing.1 :: rest)
  | single inner, allowed, rest => inner.overflow allowed rest
  | join left op right, allowed, rest =>
    (left.overflow allowed (op.1 :: (right.tokens ++ rest))).or (right.overflow allowed rest)

theorem overflow_eq_none (derivation : Derivation layer) (allowed : Nat) (rest : List Token) :
    derivation.overflow allowed rest = none ↔ derivation.levels ≤ allowed := by
  induction derivation generalizing allowed rest with
  | leaf atom => simp [overflow, levels]
  | negate op inner ih => cases allowed <;> simp [overflow, levels, ih]
  | parens opening inner closing ih => cases allowed <;> simp [overflow, levels, ih]
  | single inner ih => simp [overflow, levels, ih]
  | join left op right ihLeft ihRight => simp only [overflow, levels, Option.or_eq_none_iff, ihLeft, ihRight, Nat.max_le]

end Derivation

/-- An operator and the operand behind it. -/
structure Link where
  precedence : Precedence
  op : Token.Joining precedence
  operand : Derivation .operand

namespace Link

def tokens (link : Link) : List Token := link.op.1 :: link.operand.tokens

/-- The first link whose operand opens a level too many, as in `Derivation.overflow`. -/
def overflow : List Link → Nat → List Token → Option (Production × List Token)
  | [], _, _ => none
  | link :: links, allowed, rest =>
    (link.operand.overflow allowed (links.flatMap tokens ++ rest)).or (overflow links allowed rest)

theorem overflow_append (links more : List Link) (allowed : Nat) (rest : List Token) :
    overflow (links ++ more) allowed rest =
      (overflow links allowed (more.flatMap tokens ++ rest)).or (overflow more allowed rest) := by
  induction links with
  | nil => rfl
  | cons link links ih => simp only [List.cons_append, overflow, ih, List.flatMap_append, List.append_assoc,
      Option.or_assoc]

end Link

namespace Derivation

variable {layer : Layer}

/-- The operand that a derivation starts with. -/
def first {layer : Layer} : Derivation layer → Derivation .operand
  | leaf atom => leaf atom
  | negate op inner => negate op inner
  | parens opening inner closing => parens opening inner closing
  | single inner => inner.first
  | join left _ _ => left.first

/-- What follows its first operand. -/
def links {layer : Layer} : Derivation layer → List Link
  | leaf _ => []
  | negate _ _ => []
  | parens _ _ _ => []
  | single inner => inner.links
  | join left op right => left.links ++ ⟨_, op, right.first⟩ :: right.links

theorem first_operand (derivation : Derivation .operand) : derivation.first = derivation := by
  cases derivation <;> rfl

theorem links_operand (derivation : Derivation .operand) : derivation.links = [] := by
  cases derivation <;> rfl

theorem tokens_flat (derivation : Derivation layer) :
    derivation.tokens = derivation.first.tokens ++ derivation.links.flatMap Link.tokens := by
  induction derivation with
  | leaf => rfl
  | negate => simp [first, links]
  | parens => simp [first, links]
  | single inner ih => exact ih
  | join left op right ihLeft ihRight =>
    simp only [tokens, first, links, List.flatMap_append, List.flatMap_cons, Link.tokens, ihLeft, ihRight,
      List.append_assoc, List.cons_append]

theorem levels_flat (derivation : Derivation layer) (allowed : Nat) :
    derivation.levels ≤ allowed ↔
      derivation.first.levels ≤ allowed ∧ ∀ link ∈ derivation.links, link.operand.levels ≤ allowed := by
  induction derivation with
  | leaf => simp [first, links]
  | negate => simp [first, links]
  | parens => simp [first, links]
  | single inner ih => exact ih
  | join left op right ihLeft ihRight =>
    simp only [levels, first, links, Nat.max_le, ihLeft, ihRight, List.forall_mem_append, List.forall_mem_cons,
      and_assoc]

theorem overflow_flat (derivation : Derivation layer) (allowed : Nat) (rest : List Token) :
    derivation.overflow allowed rest =
      (derivation.first.overflow allowed (derivation.links.flatMap Link.tokens ++ rest)).or
        (Link.overflow derivation.links allowed rest) := by
  induction derivation generalizing allowed rest with
  | leaf => simp [first, links, Link.overflow]
  | negate => simp [first, links, Link.overflow]
  | parens => simp [first, links, Link.overflow]
  | single inner ih => exact ih allowed rest
  | join left op right ihLeft ihRight =>
    simp only [overflow, first, links, ihLeft, ihRight, Link.overflow_append, Link.overflow, Link.tokens,
      List.flatMap_append, List.flatMap_cons, right.tokens_flat, List.append_assoc, List.cons_append, Option.or_assoc]

/-- No operator is looser than the layer. -/
theorem rank_le_of_mem_links (derivation : Derivation layer) :
    ∀ link ∈ derivation.links, layer.rank ≤ link.precedence.rank := by
  induction derivation with
  | leaf => simp [links]
  | negate => simp [links]
  | parens => simp [links]
  | @single precedence inner ih =>
    intro link member
    have tighter := ih link member
    rw [Precedence.rank_tighter] at tighter
    exact Nat.le_of_succ_le tighter
  | @join precedence left op right ihLeft ihRight =>
    intro link member
    rcases List.mem_append.mp member with before | later
    · exact ihLeft link before
    rcases List.mem_cons.mp later with rfl | behind
    · exact Nat.le_refl _
    · have tighter := ihRight link behind
      rw [Precedence.rank_tighter] at tighter
      exact Nat.le_of_succ_le tighter

theorem rank_lt_of_mem_links {precedence : Precedence} (inner : Derivation precedence.tighter) :
    ∀ link ∈ inner.links, precedence.rank < link.precedence.rank := by
  intro link member
  have bound := inner.rank_le_of_mem_links link member
  rwa [Precedence.rank_tighter] at bound

/-- A layer is not mistaken for the one below it. -/
theorem links_ne_join {precedence : Precedence} (inner right : Derivation precedence.tighter)
    (left : Derivation (.joined precedence)) (op : Token.Joining precedence) :
    inner.links ≠ (join left op right).links := by
  intro same
  have member : ⟨precedence, op, right.first⟩ ∈ inner.links := by simp [same, links]
  exact absurd (inner.rank_lt_of_mem_links _ member) (Nat.lt_irrefl _)

/-- Operators of the loosest precedence split a chain at the last of them. -/
private theorem split_at_last {precedence : Precedence} {before before' after after' : List Link}
    {link link' : Link} (same : before ++ link :: after = before' ++ link' :: after')
    (loosest : link.precedence = precedence) (loosest' : link'.precedence = precedence)
    (tighter : ∀ other ∈ after, precedence.rank < other.precedence.rank)
    (tighter' : ∀ other ∈ after', precedence.rank < other.precedence.rank) :
    before = before' ∧ link = link' ∧ after = after' := by
  rcases List.append_eq_append_iff.mp same with ⟨middle, rfl, tail⟩ | ⟨middle, rfl, tail⟩
  · cases middle with
    | nil => simpa using tail
    | cons other middle =>
      obtain ⟨rfl, rfl⟩ := List.cons.inj tail
      exact absurd (loosest' ▸ tighter link' (by simp)) (Nat.lt_irrefl _)
  · cases middle with
    | nil => simpa [eq_comm] using tail
    | cons other middle =>
      obtain ⟨rfl, rfl⟩ := List.cons.inj tail
      exact absurd (loosest ▸ tighter' link (by simp)) (Nat.lt_irrefl _)

theorem eq_of_flat {derivation other : Derivation layer} (first : derivation.first = other.first)
    (links : derivation.links = other.links) : derivation = other := by
  induction derivation with
  | leaf => simpa only [first_operand] using first
  | negate => simpa only [first_operand] using first
  | parens => simpa only [first_operand] using first
  | @single precedence inner ih =>
    cases other with
    | single inner' => rw [ih first links]
    | join left op right => exact absurd links (inner.links_ne_join right left op)
  | @join precedence left op right ihLeft ihRight =>
    cases other with
    | single inner => exact absurd links.symm (inner.links_ne_join right left op)
    | join left' op' right' =>
      obtain ⟨before, link, after⟩ := split_at_last links rfl rfl right.rank_lt_of_mem_links
        right'.rank_lt_of_mem_links
      obtain ⟨-, rfl, operand⟩ := Link.mk.inj link
      have sameLeft : left = left' := ihLeft first before
      rw [sameLeft, ihRight operand after]

/-- An operand is a derivation of any layer. -/
theorem exists_alone (operand : Derivation .operand) (layer : Layer) :
    ∃ derivation : Derivation layer, derivation.first = operand ∧ derivation.links = [] ∧
      derivation.tokens = operand.tokens ∧ derivation.expr = operand.expr ∧ derivation.levels = operand.levels := by
  cases layer with
  | operand => exact ⟨operand, first_operand _, links_operand _, rfl, rfl, rfl⟩
  | joined precedence =>
    have ⟨inner, alike⟩ := exists_alone operand precedence.tighter
    exact ⟨.single inner, alike⟩
termination_by 6 - layer.rank
decreasing_by
  have tighter := precedence.rank_tighter
  have bound := precedence.rank_lt_six
  change 6 - precedence.tighter.rank < 6 - precedence.rank
  omega

theorem exists_whole (derivation : Derivation layer) :
    ∃ whole : Derivation .whole, whole.tokens = derivation.tokens ∧ whole.expr = derivation.expr ∧
      whole.levels = derivation.levels := by
  cases layer with
  | operand =>
    obtain ⟨whole, -, -, same⟩ := derivation.exists_alone .whole
    exact ⟨whole, same⟩
  | joined precedence =>
    cases precedence with
    | disjunction => exact ⟨derivation, rfl, rfl, rfl⟩
    | conjunction => exact ⟨.single derivation, rfl, rfl, rfl⟩
    | equality => exact ⟨.single (.single derivation), rfl, rfl, rfl⟩
    | relational => exact ⟨.single (.single (.single derivation)), rfl, rfl, rfl⟩
    | additive => exact ⟨.single (.single (.single (.single derivation))), rfl, rfl, rfl⟩
    | multiplicative => exact ⟨.single (.single (.single (.single (.single derivation)))), rfl, rfl, rfl⟩

/-- Two operands around an operator of any precedence. -/
theorem exists_binary {precedence : Precedence} (left right : Derivation .operand) (op : Token.Joining precedence) :
    ∃ whole : Derivation .whole, whole.tokens = left.tokens ++ op.1 :: right.tokens ∧
      whole.expr = .binary op.1 left.expr right.expr ∧ whole.levels = max left.levels right.levels := by
  obtain ⟨first, -, -, tokens, expr, levels⟩ := left.exists_alone (.joined precedence)
  obtain ⟨second, -, -, tokens', expr', levels'⟩ := right.exists_alone precedence.tighter
  rw [← tokens, ← tokens', ← expr, ← expr', ← levels, ← levels']
  exact (Derivation.join first op second).exists_whole

/-- A derivation goes on with one more link, whatever its precedence is, in the last place that is loose
enough. -/
theorem exists_extended (derivation : Derivation layer) (link : Link)
    (bound : layer.rank ≤ link.precedence.rank) :
    ∃ longer : Derivation layer,
      longer.first = derivation.first ∧ longer.links = derivation.links ++ [link] := by
  have operands (bound : Layer.operand.rank ≤ link.precedence.rank) : False :=
    absurd link.precedence.rank_lt_six (Nat.not_lt.2 bound)
  -- The link is added here if its precedence is that of the layer, and else inside the last operand.
  have added {precedence : Precedence} (whole : Derivation (.joined precedence))
      (here : precedence = link.precedence) :
      ∃ longer : Derivation (.joined precedence),
        longer.first = whole.first ∧ longer.links = whole.links ++ [link] := by
    subst here
    obtain ⟨right, first, links, -⟩ := exists_alone link.operand link.precedence.tighter
    exact ⟨.join whole link.op right, rfl, by simp only [Derivation.links, first, links]⟩
  have within {precedence : Precedence} (bound : (Layer.joined precedence).rank ≤ link.precedence.rank)
      (elsewhere : precedence ≠ link.precedence) : precedence.tighter.rank ≤ link.precedence.rank := by
    have differ : precedence.rank ≠ link.precedence.rank := fun same =>
      elsewhere (Precedence.rank_injective same)
    rw [Precedence.rank_tighter]
    exact Nat.lt_of_le_of_ne bound differ
  induction derivation with
  | leaf => exact (operands bound).elim
  | negate => exact (operands bound).elim
  | parens => exact (operands bound).elim
  | @single precedence inner ih =>
    by_cases here : precedence = link.precedence
    · exact added _ here
    · obtain ⟨longer, first, links⟩ := ih (within bound here)
      exact ⟨.single longer, first, links⟩
  | @join precedence left op right ihLeft ihRight =>
    by_cases here : precedence = link.precedence
    · exact added _ here
    · obtain ⟨longer, first, links⟩ := ihRight (within bound here)
      exact ⟨.join left op longer, rfl, by simp [Derivation.links, first, links]⟩

/-- An operand followed by links is a derivation of every layer that has no looser one among them. -/
theorem exists_flat_within (layer : Layer) (operand : Derivation .operand) (links : List Link)
    (bound : ∀ link ∈ links, layer.rank ≤ link.precedence.rank) :
    ∃ derivation : Derivation layer, derivation.first = operand ∧ derivation.links = links := by
  induction links using List.reverseRecOn with
  | nil =>
    obtain ⟨derivation, first, links, -⟩ := exists_alone operand layer
    exact ⟨derivation, first, links⟩
  | append_singleton links link ih =>
    rw [List.forall_mem_append, List.forall_mem_singleton] at bound
    obtain ⟨shorter, rfl, rfl⟩ := ih bound.1
    exact exists_extended shorter link bound.2

theorem exists_flat (operand : Derivation .operand) (links : List Link) :
    ∃ derivation : Derivation .whole, derivation.first = operand ∧ derivation.links = links :=
  exists_flat_within .whole operand links fun _ _ => Nat.zero_le _

end Derivation

/-- What may stand behind an expression: nothing that would go on with it. -/
def Ends (rest : List Token) : Prop := ∀ token ∈ rest.head?, Precedence.ofToken? token = none

theorem ends_rightParen (closing : Token.Of .rightParen) (rest : List Token) : Ends (closing.1 :: rest) := by
  simp [Ends, Precedence.ofToken?, closing.2]

theorem ends_semicolon (semicolon : Token.Of .semicolon) (rest : List Token) :
    Ends (semicolon.1 :: rest) := by
  simp [Ends, Precedence.ofToken?, semicolon.2]

theorem not_ends_link (link : Link) (links : List Link) (rest : List Token) :
    ¬Ends ((link :: links).flatMap Link.tokens ++ rest) := by
  simp [Ends, Link.tokens, link.op.2]

namespace Derivation

/-- An operand that is determined by the tokens in front of which it stands. -/
def Unique (operand : Derivation .operand) : Prop :=
  ∀ (other : Derivation .operand) (rest rest' : List Token),
    operand.tokens ++ rest = other.tokens ++ rest' → operand = other ∧ rest = rest'

theorem links_unique {links links' : List Link} {rest rest' : List Token} (ends : Ends rest) (ends' : Ends rest')
    (unique : ∀ link ∈ links, link.operand.Unique)
    (same : links.flatMap Link.tokens ++ rest = links'.flatMap Link.tokens ++ rest') :
    links = links' ∧ rest = rest' := by
  induction links generalizing links' with
  | nil =>
    cases links' with
    | nil => exact ⟨rfl, same⟩
    | cons link links => exact absurd (same ▸ ends) (not_ends_link link links rest')
  | cons link links ih =>
    cases links' with
    | nil => exact absurd (same ▸ ends') (not_ends_link link links rest)
    | cons link' links' =>
      simp only [List.flatMap_cons, Link.tokens, List.cons_append, List.append_assoc, List.cons.injEq] at same
      obtain ⟨op, tail⟩ := same
      obtain ⟨operand, tail⟩ := unique link (by simp) _ _ _ tail
      obtain ⟨rfl, rfl⟩ := ih (fun other member => unique other (by simp [member])) tail
      refine ⟨?_, rfl⟩
      obtain ⟨precedence, ⟨token, joins⟩, operand⟩ := link
      obtain ⟨precedence', ⟨token', joins'⟩, operand'⟩ := link'
      obtain rfl : token = token' := op
      obtain rfl : precedence = precedence' := Option.some.inj (joins.symm.trans joins')
      simp_all

theorem leaf_unique (atom : Token.Atom) : (leaf atom).Unique := by
  intro other rest rest' same
  cases other with
  | leaf atom' => grind [tokens]
  | negate op inner => grind [tokens]
  | parens opening inner closing => grind [tokens]

theorem unique_of_levels (allowed : Nat) (operand : Derivation .operand) (bound : operand.levels ≤ allowed) :
    operand.Unique := by
  induction allowed generalizing operand with
  | zero =>
    cases operand with
    | leaf atom => exact leaf_unique atom
    | negate => exact absurd bound (Nat.not_succ_le_zero _)
    | parens => exact absurd bound (Nat.not_succ_le_zero _)
  | succ allowed ih =>
    cases operand with
    | leaf atom => exact leaf_unique atom
    | negate op inner =>
      intro other rest rest' same
      cases other with
      | leaf atom => grind [tokens]
      | negate op' inner' =>
        simp only [tokens, List.cons_append, List.cons.injEq] at same
        obtain ⟨rfl, rfl⟩ := ih inner (Nat.le_of_succ_le_succ bound) inner' _ _ same.2
        exact ⟨by rw [Subtype.ext same.1], rfl⟩
      | parens opening inner closing => grind [tokens]
    | parens opening inner closing =>
      intro other rest rest' same
      cases other with
      | leaf atom => grind [tokens]
      | negate op inner => grind [tokens]
      | parens opening' inner' closing' =>
        obtain ⟨firstBound, linksBound⟩ := (inner.levels_flat allowed).1 (Nat.le_of_succ_le_succ bound)
        simp only [tokens, tokens_flat inner, tokens_flat inner', List.cons_append, List.append_assoc,
          List.cons.injEq] at same
        obtain ⟨first, tail⟩ := ih inner.first firstBound inner'.first _ _ same.2
        obtain ⟨links, tail⟩ := links_unique (ends_rightParen closing _) (ends_rightParen closing' _)
          (fun link member => ih link.operand (linksBound link member)) tail
        obtain ⟨closings, rfl⟩ := List.cons.inj tail
        rw [Subtype.ext same.1, eq_of_flat first links, Subtype.ext closings]
        exact ⟨rfl, rfl⟩

theorem operand_unique (operand : Derivation .operand) : operand.Unique :=
  unique_of_levels operand.levels operand (Nat.le_refl _)

/-- An expression is determined by the tokens in front of which it stands, if these do not go on with it. -/
theorem whole_unique {derivation other : Derivation .whole} {rest rest' : List Token} (ends : Ends rest)
    (ends' : Ends rest') (same : derivation.tokens ++ rest = other.tokens ++ rest') :
    derivation = other ∧ rest = rest' := by
  simp only [tokens_flat derivation, tokens_flat other, List.append_assoc] at same
  obtain ⟨first, tail⟩ := operand_unique derivation.first other.first _ _ same
  obtain ⟨links, rfl⟩ := links_unique ends ends' (fun link _ => operand_unique link.operand) tail
  exact ⟨eq_of_flat first links, rfl⟩

end Derivation
end Expr
end ScriptLens
