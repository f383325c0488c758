import ScriptLens.Expr.Parser
import ScriptLens.Proofs.Cursor.Following

/-!
Climbing through the layers reads what one loop reads that attaches each operator to a spine. The procedures that are
open at a time are those that wait behind the links of the spine (`Procedure.unwind`): behind an operator, they go on
as if it had been attached (`unwind_goes`), and where none follows they return the whole tree (`unwind_done`).
-/

namespace ScriptLens
open ScriptLens.Expr (Layer)

/-- Each operator belongs to the layer to the right of the one above it. -/
def Spine.Within : Spine → Layer → Prop
  | .last _, _ => True
  | .link _ _ precedence rest, layer => layer.rank ≤ precedence.rank ∧ rest.Within precedence.tighter

theorem Spine.within_attach {spine : Spine} {layer : Layer} (within : spine.Within layer) (op : Token)
    {precedence : Precedence} (bound : layer.rank ≤ precedence.rank) (right : Expr) :
    (spine.attach op precedence right).Within layer := by
  induction spine generalizing layer with
  | last operand => exact ⟨bound, trivial⟩
  | link left looser loose rest ih =>
    obtain ⟨outer, inner⟩ := within
    rw [attach]
    split
    · next tighter =>
      exact ⟨outer, ih inner (by rw [Precedence.rank_tighter]; exact tighter)⟩
    · exact ⟨bound, trivial⟩

namespace Procedure
open Reader

variable {cursor : Cursor}

/-- Goes on behind an expression that was read in a layer. -/
def climbIn : Layer → Expr → Procedure Expr
  | .joined min, left => run (.climb min left)
  | .operand, left => return left

theorem body_expression (layer : Layer) : (Routine.expression layer).body = run .unary >>= climbIn layer := by
  cases layer with
  | joined min => rfl
  | operand => exact (bind_pure (run .unary)).symm

theorem climbIn_done {layer : Layer}
    (quiet : ∀ precedence ∈ Precedence.ofToken? cursor.current, precedence.rank < layer.rank) (left : Expr) :
    (climbIn layer left).outcomes cursor = {(.ok left, cursor)} := by
  cases layer with
  | operand => exact outcomes_pure left cursor
  | joined min =>
    rw [climbIn, outcomes_run, Routine.body, peek_bind]
    cases joins : Precedence.ofToken? cursor.current with
    | none => exact outcomes_pure left cursor
    | some precedence =>
      have loose : precedence < min := quiet precedence joins
      simp only [loose, if_true]
      exact outcomes_pure left cursor

theorem climbIn_goes {layer : Layer} {precedence : Precedence}
    (joins : Precedence.ofToken? cursor.current = some precedence) (bound : layer.rank ≤ precedence.rank)
    (left : Expr) :
    (climbIn layer left).outcomes cursor =
      (run (.expression precedence.tighter) >>= fun right =>
        climbIn layer (.binary cursor.current left right)).outcomes cursor.next := by
  cases layer with
  | operand => exact absurd bound (Nat.not_le.mpr precedence.rank_lt_six)
  | joined min =>
    have tight : ¬precedence < min := Nat.not_lt.mpr bound
    rw [climbIn, outcomes_run, Routine.body, peek_bind, joins]
    simp only [tight, if_false]
    exact advance_bind ..

/-- Goes on behind the last operand of a spine that is read in a layer. -/
def unwind : Spine → Layer → Procedure Expr
  | .last operand, layer => climbIn layer operand
  | .link left op precedence rest, layer => do
    let right ← unwind rest precedence.tighter
    climbIn layer (.binary op left right)

theorem unwind_done {spine : Spine} {layer : Layer} (within : spine.Within layer)
    (quiet : ∀ precedence ∈ Precedence.ofToken? cursor.current, precedence.rank < layer.rank) :
    (unwind spine layer).outcomes cursor = {(.ok spine.toExpr, cursor)} := by
  induction spine generalizing layer with
  | last operand => exact climbIn_done quiet operand
  | link left op precedence rest ih =>
    obtain ⟨outer, inner⟩ := within
    have inside : ∀ next ∈ Precedence.ofToken? cursor.current, next.rank < precedence.tighter.rank := by
      intro next joins
      rw [Precedence.rank_tighter]
      exact Nat.lt_succ_of_lt (Nat.lt_of_lt_of_le (quiet next joins) outer)
    rw [unwind, bind_of_returns (ih inner inside)]
    exact climbIn_done quiet _

theorem climbIn_attaches {layer : Layer} {precedence : Precedence}
    (joins : Precedence.ofToken? cursor.current = some precedence) (bound : layer.rank ≤ precedence.rank)
    (left : Expr) :
    (climbIn layer left).outcomes cursor =
      (run .unary >>= fun right => unwind (.link left cursor.current precedence (.last right)) layer).outcomes
        cursor.next := by
  have inside : (run (.expression precedence.tighter)).outcomes cursor.next =
      (run .unary >>= climbIn precedence.tighter).outcomes cursor.next := by
    rw [outcomes_run, body_expression]
  rw [climbIn_goes joins bound, bind_congr_at inside, bind_assoc]
  rfl

theorem unwind_goes {spine : Spine} {layer : Layer} (within : spine.Within layer) {precedence : Precedence}
    (joins : Precedence.ofToken? cursor.current = some precedence) (bound : layer.rank ≤ precedence.rank) :
    (unwind spine layer).outcomes cursor =
      (run .unary >>= fun right => unwind (spine.attach cursor.current precedence right) layer).outcomes
        cursor.next := by
  induction spine generalizing layer with
  | last operand => exact climbIn_attaches joins bound operand
  | link left op loose rest ih =>
    obtain ⟨outer, inner⟩ := within
    by_cases tighter : loose < precedence
    -- The operator belongs to what is read inside of this link.
    · have goes := ih inner (by rw [Precedence.rank_tighter]; exact tighter)
      simp only [Spine.attach, tighter, if_true]
      rw [unwind, bind_congr_at goes, bind_assoc]
      rfl
    -- It ends what is read inside, and takes the whole link as its left operand.
    · have quiet : ∀ next ∈ Precedence.ofToken? cursor.current, next.rank < loose.tighter.rank := by
        intro next found
        obtain rfl := Option.some.inj (joins.symm.trans found)
        rw [Precedence.rank_tighter]
        exact Nat.lt_succ_of_le (Nat.not_lt.mp tighter)
      simp only [Spine.attach, tighter, if_false]
      rw [unwind, bind_of_returns (unwind_done inner quiet)]
      exact climbIn_attaches joins bound _

theorem unwind_agrees {spine : Spine} {layer : Layer} (within : spine.Within layer)
    (quiet : Precedence.ofToken? cursor.current = none) {tokens : List Token} (ahead : cursor.input.ahead = tokens) :
    Agrees cursor (.ok spine.toExpr tokens) ((unwind spine layer).outcomes cursor) := by
  rw [unwind_done within (by simp [quiet]), ← outcomes_pure]
  exact agrees_pure ahead _

variable {depth : Nat}

theorem unwind_follows {operand : Consumer Expr} (follows : Follows depth (run .unary) operand.read) {spine : Spine}
    (within : spine.Within .whole) : Follows depth (unwind spine .whole) (Expr.chain operand spine) := by
  intro cursor same
  generalize shown : cursor.input.ahead = tokens
  fun_induction Expr.chain operand spine tokens generalizing cursor with
  | case1 spine => exact unwind_agrees within (by simp [Precedence.ofToken?, Cursor.kind_of_done shown]) shown
  | case2 spine op rest plain =>
    obtain ⟨rfl, -, -⟩ := Cursor.shows shown
    exact unwind_agrees within plain shown
  | case3 spine op rest precedence joins right after outcome ih =>
    obtain ⟨rfl, real, ahead⟩ := Cursor.shows shown
    have start := follows cursor.next (cursor.depth_next.trans same)
    rw [ahead, outcome] at start
    rw [unwind_goes within joins (Nat.zero_le _)]
    exact (start.goesOn fun after kept => ih (Spine.within_attach within _ (Nat.zero_le _) _) after
      (kept.trans (cursor.depth_next.trans same))).behind real
  | case4 spine op rest precedence joins fault after outcome =>
    obtain ⟨rfl, real, ahead⟩ := Cursor.shows shown
    have start := follows cursor.next (cursor.depth_next.trans same)
    rw [ahead, outcome] at start
    rw [unwind_goes within joins (Nat.zero_le _)]
    exact (start.stops _).behind real

theorem expression_follows {operand : Consumer Expr} (follows : Follows depth (run .unary) operand.read) :
    Follows depth (run (.expression .whole)) (Expr.joined operand) := by
  refine Follows.of_body ?_
  rw [body_expression]
  exact follows.bind fun first =>
    have within : (Spine.last first).Within .whole := trivial
    unwind_follows follows within

theorem unary_of_minus (kind : cursor.current.kind = .minus) :
    (run .unary).outcomes cursor =
      (nested .expression do
        let _ ← advance
        let operand ← run .unary
        return .negate cursor.current operand).outcomes cursor := by
  rw [outcomes_run, Routine.body, peek_bind, if_pos kind]

theorem unary_of_other (other : cursor.current.kind ≠ .minus) : (run .unary).outcomes cursor = (run .primary).outcomes cursor := by
  rw [outcomes_run, Routine.body, peek_bind, if_neg other]

theorem primary_of_leftParen (kind : cursor.current.kind = .leftParen) :
    (run .primary).outcomes cursor =
      (nested .expression do
        let _ ← advance
        let inner ← run (.expression .whole)
        let _ ← expect .expression .rightParen
        return inner).outcomes cursor := by
  rw [outcomes_run, Routine.body, peek_bind, kind]

theorem primary_of_other (leaf : ¬(cursor.current.kind = .number ∨ cursor.current.kind = .identifier ∨
      cursor.current.kind = .boolean)) (other : cursor.current.kind ≠ .leftParen) :
    (run .primary).outcomes cursor = (fail .expression .expression : Procedure Expr).outcomes cursor := by
  rw [outcomes_run, Routine.body, peek_bind]
  cases kind : cursor.current.kind <;> first | rfl | simp [kind] at leaf other

theorem unary_agrees_leaf {token : Token} {rest : List Token} (ahead : cursor.input.ahead = token :: rest)
    (atom : token.kind = .number ∨ token.kind = .identifier ∨ token.kind = .boolean) :
    Agrees cursor (.ok (.leaf token) rest) ((run .unary).outcomes cursor) := by
  obtain ⟨rfl, real, left⟩ := Cursor.shows ahead
  have returns : (run .unary).outcomes cursor = (pure (.leaf cursor.current) : Procedure Expr).outcomes cursor.next := by
    rcases atom with kind | kind | kind <;>
    · rw [unary_of_other (by simp [kind]), outcomes_run, Routine.body, peek_bind, kind]
      exact advance_bind ..
  rw [returns]
  exact (agrees_pure left _).behind real

/-- An operand, given that those inside of it are read as they should be a level deeper, if there is a level left. -/
theorem unary_follows_with {deeper : Option (Consumer Expr)} (full : deeper = none → depth = nestingLimit)
    (inside : ∀ inner ∈ deeper, depth < nestingLimit ∧ Follows (depth + 1) (run .unary) inner.read) :
    Follows depth (run .unary) (Expr.operandWith deeper) := by
  rintro cursor rfl
  generalize shown : cursor.input.ahead = tokens
  fun_cases Expr.operandWith deeper tokens with
  | case1 =>
    have ending := Cursor.kind_of_done shown
    rw [unary_of_other (by simp [ending]), primary_of_other (by simp [ending]) (by simp [ending])]
    exact agrees_fail shown _ _
  | case2 _ token rest kind => exact unary_agrees_leaf shown (.inl kind)
  | case3 _ token rest kind => exact unary_agrees_leaf shown (.inr (.inl kind))
  | case4 _ token rest kind => exact unary_agrees_leaf shown (.inr (.inr kind))
  | case5 token rest inner kind =>
    obtain ⟨rfl, -, -⟩ := Cursor.shows shown
    obtain ⟨room, follows⟩ := inside inner rfl
    rw [unary_of_minus kind]
    exact agrees_opened shown room .expression (follows.bind fun operand => .pure _)
  | case6 token rest inner kind =>
    obtain ⟨rfl, -, -⟩ := Cursor.shows shown
    obtain ⟨room, follows⟩ := inside inner rfl
    rw [unary_of_other (by simp [kind]), primary_of_leftParen kind]
    exact agrees_opened shown room .expression
      ((expression_follows follows).bind fun inner => (Follows.take (by decide) _ _).bind fun _ => .pure inner)
  | case7 token rest kind =>
    obtain ⟨rfl, -, -⟩ := Cursor.shows shown
    rw [unary_of_minus kind, nested_of_full (full rfl)]
    exact agrees_fail shown _ _
  | case8 token rest kind =>
    obtain ⟨rfl, -, -⟩ := Cursor.shows shown
    rw [unary_of_other (by simp [kind]), primary_of_leftParen kind, nested_of_full (full rfl)]
    exact agrees_fail shown _ _
  | case9 _ token rest number identifier boolean minus leftParen lastMinus lastParen =>
    obtain ⟨rfl, -, -⟩ := Cursor.shows shown
    have leaf : ¬(cursor.current.kind = .number ∨ cursor.current.kind = .identifier ∨
        cursor.current.kind = .boolean) := by
      rintro (kind | kind | kind)
      · exact number kind
      · exact identifier kind
      · exact boolean kind
    have opensNone : cursor.current.kind ≠ .minus ∧ cursor.current.kind ≠ .leftParen := by
      cases deeper with
      | none => exact ⟨fun kind => lastMinus kind rfl, fun kind => lastParen kind rfl⟩
      | some inner => exact ⟨fun kind => minus inner kind rfl, fun kind => leftParen inner kind rfl⟩
    rw [unary_of_other opensNone.1, primary_of_other leaf opensNone.2]
    exact agrees_fail shown _ _

/-- As many levels are left as the reader is given. -/
theorem unary_follows {allowed : Nat} (levels : depth + allowed = nestingLimit) :
    Follows depth (run .unary) (Expr.operand allowed).read := by
  induction allowed generalizing depth with
  | zero => exact unary_follows_with (fun _ => levels) (by simp)
  | succ allowed ih =>
    refine unary_follows_with (by simp) fun inner same => ?_
    obtain rfl := Option.some.inj same
    exact ⟨by omega, ih (by omega)⟩

end Procedure
end ScriptLens
