import ScriptLens.Expr.Printer
import ScriptLens.Proofs.Comparison

/-!
Printing by recursion. The printer keeps a list of what is still to be written, and writes what the tree alone would
give (`Expr.toList_text`), so that trees of one structure print alike (`Expr.text_eq_of_sameStructure`).
-/

namespace ScriptLens.Expr

/-- The text of an expression by recursion: an operator stands with its operands in parentheses. -/
def chars : Expr → List Char
  | leaf token => token.text.toList
  | negate op operand => '(' :: (op.text.toList ++ operand.chars ++ [')'])
  | binary op left right => '(' :: (left.chars ++ ' ' :: (op.text.toList ++ ' ' :: right.chars) ++ [')'])

def Piece.chars : Piece → List Char
  | expr e => e.chars
  | text t => t.toList

/-- What has been written stays in front, and the pieces follow in the order of the list. -/
theorem Piece.toList_write (written : String) (pending : List Piece) :
    (write written pending).toList = written.toList ++ pending.flatMap Piece.chars := by
  fun_induction write written pending with
  | case1 => simp
  | case2 written t rest ih => simp [ih, Piece.chars]
  | case3 written token rest ih => simp [ih, Piece.chars, Expr.chars]
  | case4 written op operand rest ih => simp [ih, Piece.chars, Expr.chars]
  | case5 written op left right rest ih => simp [ih, Piece.chars, Expr.chars]

theorem toList_text (e : Expr) : e.text.toList = e.chars := by
  simp [text, Piece.toList_write, Piece.chars]

theorem text_leaf (token : Token) : (leaf token).text = token.text :=
  String.toList_injective (toList_text _)

theorem chars_eq_of_sameStructure {a b : Expr} (same : a.sameStructure b) : a.chars = b.chars := by
  rw [sameStructure_iff_alike] at same
  induction same with
  | leaf tokens => rw [chars, chars, tokens.2]
  | negate ops _ ih => rw [chars, chars, ops.2, ih]
  | binary ops _ _ ihLeft ihRight => rw [chars, chars, ops.2, ihLeft, ihRight]

theorem text_eq_of_sameStructure {a b : Expr} (same : a.sameStructure b) : a.text = b.text :=
  String.toList_injective (by rw [toList_text, toList_text, chars_eq_of_sameStructure same])

/-- The walks over whole trees find what recursion would: whether two trees have one shape and agree in kinds and texts,
whether they agree in places too, and what a tree is written as. -/
theorem walks_as_recursion :
    (∀ a b : Expr, a.sameStructure b ↔ Alike Token.Same a b) ∧
    (∀ a b : Expr, a == b ↔ Alike (fun x y => x.Same y ∧ x.location = y.location) a b) ∧
    Equivalence (fun a b : Expr => a.sameStructure b) ∧ Equivalence (fun a b : Expr => a == b) ∧
    (∀ a b : Expr, a == b → a.sameStructure b) ∧
    ∀ e : Expr, e.text = String.ofList e.chars := by
  refine ⟨fun _ _ => sameStructure_iff_alike, fun _ _ => beq_iff_alike, ?_, ?_, ?_, fun e => ?_⟩
  · simp only [sameStructure_iff_alike]
    exact Alike.equivalence Token.same_equivalence
  · simp only [beq_iff]
    exact ⟨Eq.refl, Eq.symm, Eq.trans⟩
  · intro a b same
    exact sameStructure_iff_alike.2 ((beq_iff_alike.1 same).mono And.left)
  · rw [← toList_text, String.ofList_toList]

/-- The sum of a name and a negated number, against itself and against the same sum on another line. -/
theorem walks_as_recursion_sum :
    let sum (line : Nat) : Expr := .binary ⟨.plus, "+", ⟨line, 3⟩⟩ (.leaf ⟨.identifier, "a", ⟨line, 1⟩⟩)
      (.negate ⟨.minus, "-", ⟨line, 5⟩⟩ (.leaf ⟨.number, "1", ⟨line, 6⟩⟩))
    (sum 1 == sum 1) ∧ (sum 1).sameStructure (sum 1) ∧ ¬(sum 1 == sum 2) ∧ (sum 1).sameStructure (sum 2) ∧
      (sum 2).text = "(a + (-1))" := by
  intro sum
  obtain ⟨structures, places, -, equal, implied, texts⟩ := walks_as_recursion
  refine ⟨equal.refl _, implied _ _ (equal.refl _), ?_, ?_, ?_⟩
  · rw [beq_iff]
    simp [sum]
  · rw [structures]
    simp [sum, Token.Same]
  · rw [texts]
    decide

end ScriptLens.Expr
