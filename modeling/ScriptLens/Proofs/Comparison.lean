import ScriptLens.Expr.Basic

/-!
Comparing expressions. The walk over the pairs that are still to be compared finds what recursion over two trees would
find (`Expr.allAlike_iff`): they have one shape, and their tokens agree, node by node (`Expr.Alike`).
-/

namespace ScriptLens

theorem Token.same_equivalence : Equivalence Token.Same where
  refl _ := ⟨rfl, rfl⟩
  symm same := ⟨same.1.symm, same.2.symm⟩
  trans same same' := ⟨same.1.trans same'.1, same.2.trans same'.2⟩

theorem Token.eq_iff {a b : Token} : a = b ↔ a.Same b ∧ a.location = b.location := by
  cases a
  cases b
  simp [Same, and_assoc]

namespace Expr

/-- Trees of one shape whose tokens agree, node by node. -/
inductive Alike (agree : Token → Token → Prop) : Expr → Expr → Prop where
  | leaf {a b : Token} (tokens : agree a b) : Alike agree (leaf a) (leaf b)
  | negate {a b : Token} {x y : Expr} (ops : agree a b) (operands : Alike agree x y) :
      Alike agree (negate a x) (negate b y)
  | binary {a b : Token} {left right left' right' : Expr} (ops : agree a b) (lefts : Alike agree left left')
      (rights : Alike agree right right') : Alike agree (binary a left right) (binary b left' right')

namespace Alike

variable {agree : Token → Token → Prop} {a b : Token} {e e' e'' left right left' right' : Expr}

@[simp] theorem leaf_iff : Alike agree (.leaf a) (.leaf b) ↔ agree a b := by
  constructor
  · rintro ⟨tokens⟩
    exact tokens
  · exact leaf

@[simp] theorem negate_iff : Alike agree (.negate a e) (.negate b e') ↔ agree a b ∧ Alike agree e e' := by
  constructor
  · rintro (_ | ⟨ops, operands⟩)
    exact ⟨ops, operands⟩
  · rintro ⟨ops, operands⟩
    exact negate ops operands

@[simp] theorem binary_iff : Alike agree (.binary a left right) (.binary b left' right') ↔
    agree a b ∧ Alike agree left left' ∧ Alike agree right right' := by
  constructor
  · rintro (_ | _ | ⟨ops, lefts, rights⟩)
    exact ⟨ops, lefts, rights⟩
  · rintro ⟨ops, lefts, rights⟩
    exact binary ops lefts rights

theorem refl (tokens : ∀ token, agree token token) (e : Expr) : Alike agree e e := by
  induction e with
  | leaf token => exact leaf (tokens token)
  | negate op operand ih => exact negate (tokens op) ih
  | binary op left right ihLeft ihRight => exact binary (tokens op) ihLeft ihRight

theorem symm (tokens : ∀ {a b}, agree a b → agree b a) (alike : Alike agree e e') : Alike agree e' e := by
  induction alike with
  | leaf same => exact leaf (tokens same)
  | negate ops _ ih => exact negate (tokens ops) ih
  | binary ops _ _ ihLeft ihRight => exact binary (tokens ops) ihLeft ihRight

theorem trans (tokens : ∀ {a b c}, agree a b → agree b c → agree a c) (alike : Alike agree e e')
    (alike' : Alike agree e' e'') : Alike agree e e'' := by
  induction alike generalizing e'' with
  | leaf same =>
    cases alike' with
    | leaf same' => exact leaf (tokens same same')
  | negate ops _ ih =>
    cases alike' with
    | negate ops' operands' => exact negate (tokens ops ops') (ih operands')
  | binary ops _ _ ihLeft ihRight =>
    cases alike' with
    | binary ops' lefts' rights' => exact binary (tokens ops ops') (ihLeft lefts') (ihRight rights')

theorem equivalence (tokens : Equivalence agree) : Equivalence (Alike agree) where
  refl := refl tokens.refl
  symm := symm tokens.symm
  trans := trans tokens.trans

theorem mono {agree' : Token → Token → Prop} (weaker : ∀ {a b}, agree a b → agree' a b) (alike : Alike agree e e') :
    Alike agree' e e' := by
  induction alike with
  | leaf same => exact leaf (weaker same)
  | negate ops _ ih => exact negate (weaker ops) ih
  | binary ops _ _ ihLeft ihRight => exact binary (weaker ops) ihLeft ihRight

theorem eq_of (alike : Alike Eq e e') : e = e' := by
  induction alike with
  | leaf same => rw [same]
  | negate ops _ ih => rw [ops, ih]
  | binary ops _ _ ihLeft ihRight => rw [ops, ihLeft, ihRight]

end Alike

/-- A pair that is taken off the list leaves the pairs of its subtrees there, so every pair of the list is compared to
the end, however far back it waits. -/
theorem allAlike_iff (agree : Token → Token → Bool) (pending : List (Expr × Expr)) :
    allAlike agree pending ↔ ∀ pair ∈ pending, Alike (fun a b => agree a b) pair.1 pair.2 := by
  fun_induction allAlike agree pending with
  | case1 => simp
  | case2 a b rest ih => simp [ih]
  | case3 a x b y rest ih => simp [ih, and_assoc]
  | case4 a left right b left' right' rest ih => simp [ih, and_assoc]
  | case5 pair rest leaves negations binaries =>
    -- The trees start with different nodes, and nothing further back can mend that.
    have differ : ¬Alike (fun a b => agree a b) pair.1 pair.2 := by
      obtain ⟨e, e'⟩ := pair
      rintro (_ | _ | _)
      · exact leaves _ _ rfl
      · exact negations _ _ _ _ rfl
      · exact binaries _ _ _ _ _ _ rfl
    simp [differ]

theorem sameStructure_iff_alike {a b : Expr} : a.sameStructure b ↔ Alike Token.Same a b := by
  simp [sameStructure, allAlike_iff]

theorem sameStructure_leaf {a b : Token} : (leaf a).sameStructure (leaf b) ↔ a.Same b := by
  rw [sameStructure_iff_alike, Alike.leaf_iff]

theorem sameStructure_negate {a b : Token} {x y : Expr} :
    (negate a x).sameStructure (negate b y) ↔ a.Same b ∧ x.sameStructure y := by
  simp only [sameStructure_iff_alike, Alike.negate_iff]

theorem sameStructure_binary {a b : Token} {left right left' right' : Expr} :
    (binary a left right).sameStructure (binary b left' right') ↔
      a.Same b ∧ left.sameStructure left' ∧ right.sameStructure right' := by
  simp only [sameStructure_iff_alike, Alike.binary_iff]

theorem beq_iff_alike {a b : Expr} : a == b ↔ Alike (fun x y => x.Same y ∧ x.location = y.location) a b := by
  change allAlike (· == ·) [(a, b)] ↔ _
  simp [allAlike_iff, Token.eq_iff]

/-- Two expressions are found equal just if they are. -/
theorem beq_iff {a b : Expr} : a == b ↔ a = b := by
  rw [beq_iff_alike]
  constructor
  · intro alike
    exact (alike.mono Token.eq_iff.2).eq_of
  · rintro rfl
    exact .refl (fun _ => ⟨⟨rfl, rfl⟩, rfl⟩) a

end Expr
end ScriptLens
