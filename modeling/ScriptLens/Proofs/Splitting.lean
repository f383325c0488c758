import ScriptLens.Proofs.Reading.Expr
import ScriptLens.Proofs.Reading.Viability

/-!
Which operator of a chain is read as the outermost one. It is the last one of the loosest precedence, and what stands
on either side of it is read as it is when it stands alone (`Expr.read_splits`).
-/

namespace ScriptLens.Expr
open Reader

/-- These tokens are read as this tree, in front of all that does not go on with them. -/
def Reads (allowed : Nat) (tokens : List Token) (tree : Expr) : Prop :=
  ∀ rest, Ends rest → read allowed (tokens ++ rest) = .ok tree rest

/-- An operator and what stands behind it: tokens that are read as an operand to their end. -/
structure Operation (allowed : Nat) where
  precedence : Precedence
  op : Token.Joining precedence
  operand : List Token
  reads : ∃ tree, (Expr.operand allowed).read operand = .ok tree []

def Operation.tokens {allowed : Nat} (operation : Operation allowed) : List Token :=
  operation.op.1 :: operation.operand

/-- The last one of those whose precedence is the loosest, with all in front of it and all behind it. -/
structure LastLoosest {allowed : Nat} (operations before : List (Operation allowed)) (last : Operation allowed)
    (after : List (Operation allowed)) : Prop where
  split : operations = before ++ last :: after
  before : ∀ other ∈ before, ¬other.precedence < last.precedence
  after : ∀ other ∈ after, last.precedence < other.precedence

variable {allowed : Nat}

/-- An operator that is looser than the last of the loosest ones behind it takes its place. -/
theorem exists_lastLoosest {operations : List (Operation allowed)} (present : operations ≠ []) :
    ∃ before last after, LastLoosest operations before last after := by
  induction operations with
  | nil => contradiction
  | cons operation others ih =>
    by_cases alone : others = []
    · subst alone
      exact ⟨[], operation, [], rfl, by simp, by simp⟩
    obtain ⟨before, last, after, rfl, looser, tighter⟩ := ih alone
    by_cases first : operation.precedence < last.precedence
    · refine ⟨[], operation, before ++ last :: after, rfl, by simp, fun other member => ?_⟩
      rcases List.mem_append.1 member with member | member
      · exact Nat.lt_of_lt_of_le first (Nat.not_lt.1 (looser other member))
      rcases List.mem_cons.1 member with rfl | member
      · exact first
      · exact Nat.lt_trans first (tighter other member)
    · exact ⟨operation :: before, last, after, rfl, List.forall_mem_cons.2 ⟨first, looser⟩, tighter⟩

theorem exists_derivation_of_read {tokens : List Token} {tree : Expr}
    (reads : (operand allowed).read tokens = .ok tree []) :
    ∃ derivation : Derivation .operand, derivation.tokens = tokens ∧ derivation.expr = tree ∧
      derivation.levels ≤ allowed := by
  have explained := operand_viable allowed tokens
  rw [reads] at explained
  obtain ⟨_, ⟨derivation, rfl⟩, rfl⟩ := explained
  rw [operand_settles] at reads
  obtain ⟨shallow, value, -⟩ := settled_eq_ok.1 reads
  exact ⟨derivation, (List.append_nil _).symm, value, (derivation.overflow_eq_none _ _).1 shallow⟩

/-- The operations as links of derivations. -/
theorem exists_links (operations : List (Operation allowed)) :
    ∃ links : List Link, links.flatMap Link.tokens = operations.flatMap Operation.tokens ∧
      ∀ link ∈ links, link.operand.levels ≤ allowed ∧
        ∃ operation ∈ operations, link.precedence = operation.precedence := by
  induction operations with
  | nil => exact ⟨[], rfl, by simp⟩
  | cons operation others ih =>
    obtain ⟨tree, reads⟩ := operation.reads
    obtain ⟨derivation, tokens, -, levels⟩ := exists_derivation_of_read reads
    obtain ⟨links, same, sound⟩ := ih
    refine ⟨⟨operation.precedence, operation.op, derivation⟩ :: links, ?_, List.forall_mem_cons.2 ⟨?_, ?_⟩⟩
    · simp only [List.flatMap_cons, Link.tokens, Operation.tokens, tokens, same]
    · exact ⟨levels, operation, List.mem_cons_self, rfl⟩
    · intro link member
      obtain ⟨levels, other, among, precedence⟩ := sound link member
      exact ⟨levels, other, List.mem_cons_of_mem _ among, precedence⟩

theorem reads_derivation {layer : Layer} (derivation : Derivation layer) (bound : derivation.levels ≤ allowed) :
    Reads allowed derivation.tokens derivation.expr := by
  obtain ⟨whole, tokens, expr, levels⟩ := derivation.exists_whole
  intro rest ends
  rw [← tokens, ← expr, read_settled allowed whole ends, (whole.overflow_eq_none _ _).2 (levels ▸ bound)]
  rfl

/-- An operand with operations behind it, none of which is looser than the layer. -/
theorem exists_chain (layer : Layer) {first : List Token} {tree : Expr}
    (reads : (operand allowed).read first = .ok tree []) (operations : List (Operation allowed))
    (bound : ∀ operation ∈ operations, layer.rank ≤ operation.precedence.rank) :
    ∃ derivation : Derivation layer, derivation.tokens = first ++ operations.flatMap Operation.tokens ∧
      derivation.levels ≤ allowed := by
  obtain ⟨start, tokens, -, levels⟩ := exists_derivation_of_read reads
  obtain ⟨links, same, sound⟩ := exists_links operations
  have within : ∀ link ∈ links, layer.rank ≤ link.precedence.rank := by
    intro link member
    obtain ⟨-, operation, among, precedence⟩ := sound link member
    rw [precedence]
    exact bound operation among
  obtain ⟨derivation, rfl, rfl⟩ := Derivation.exists_flat_within layer start links within
  refine ⟨derivation, by rw [derivation.tokens_flat, tokens, same], (derivation.levels_flat allowed).2 ⟨levels, ?_⟩⟩
  exact fun link member => (sound link member).1

/-- An operand alone is read as its own tree. Otherwise the last one of the loosest operators is the outermost one. -/
theorem read_splits {first : List Token} {tree : Expr} (reads : (operand allowed).read first = .ok tree [])
    (operations : List (Operation allowed)) :
    (operations = [] → Reads allowed (first ++ operations.flatMap Operation.tokens) tree) ∧
    (operations ≠ [] → ∃ before last after left right, LastLoosest operations before last after ∧
      Reads allowed (first ++ before.flatMap Operation.tokens) left ∧
      Reads allowed (last.operand ++ after.flatMap Operation.tokens) right ∧
      Reads allowed (first ++ operations.flatMap Operation.tokens) (.binary last.op.1 left right)) := by
  refine ⟨fun alone => ?_, fun present => ?_⟩
  · obtain ⟨derivation, rfl, rfl, levels⟩ := exists_derivation_of_read reads
    rw [alone, List.flatMap_nil, List.append_nil]
    exact reads_derivation derivation levels
  obtain ⟨before, last, after, loosest⟩ := exists_lastLoosest present
  obtain ⟨operand, reads'⟩ := last.reads
  have above : ∀ other ∈ before, last.precedence.rank ≤ other.precedence.rank :=
    fun other member => Nat.not_lt.1 (loosest.before other member)
  have below : ∀ other ∈ after, last.precedence.tighter.rank ≤ other.precedence.rank := by
    intro other member
    rw [Precedence.rank_tighter]
    exact loosest.after other member
  -- What stands in front is of the operator's own layer, since it associates to the left.
  obtain ⟨left, tokens, levels⟩ := exists_chain (.joined last.precedence) reads before above
  obtain ⟨right, tokens', levels'⟩ := exists_chain last.precedence.tighter reads' after below
  refine ⟨before, last, after, left.expr, right.expr, loosest, ?_, ?_, ?_⟩
  · rw [← tokens]
    exact reads_derivation left levels
  · rw [← tokens']
    exact reads_derivation right levels'
  · have whole := reads_derivation (.join left last.op right) (Nat.max_le.2 ⟨levels, levels'⟩)
    simp only [Derivation.tokens, tokens, tokens', List.append_assoc] at whole
    simp only [loosest.split, List.flatMap_append, List.flatMap_cons, Operation.tokens, List.cons_append]
    exact whole

/-- Of two minus signs the second is the outermost one. -/
theorem read_splits_minus :
    let number (text : String) : Token := ⟨.number, text, .start⟩
    let minus : Token := ⟨.minus, "-", .start⟩
    (operand 0).read [number "1"] = .ok (.leaf (number "1")) [] ∧
      ∃ left right, Reads 0 [number "1", minus, number "2"] left ∧ Reads 0 [number "3"] right ∧
        Reads 0 [number "1", minus, number "2", minus, number "3"] (.binary minus left right) := by
  intro number minus
  have alone (text : String) : (operand 0).read [number text] = .ok (.leaf (number text)) [] := rfl
  let subtracted (text : String) : Operation 0 := ⟨.additive, ⟨minus, rfl⟩, [number text], _, alone text⟩
  refine ⟨alone "1", ?_⟩
  obtain ⟨before, last, after, left, right, ⟨split, -, tighter⟩, first, second, whole⟩ :=
    (read_splits (alone "1") [subtracted "2", subtracted "3"]).2 (by simp)
  rcases before with _ | ⟨other, _ | ⟨another, before⟩⟩
  · simp only [List.nil_append, List.cons.injEq] at split
    obtain ⟨rfl, rfl⟩ := split
    exact absurd (tighter (subtracted "3") (by simp)) (Nat.lt_irrefl _)
  · simp only [List.cons_append, List.nil_append, List.cons.injEq] at split
    obtain ⟨rfl, rfl, rfl⟩ := split
    exact ⟨left, right, first, second, whole⟩
  · simp at split

end ScriptLens.Expr
