import ScriptLens.Proofs.Likeness
import ScriptLens.Proofs.Reading.Lookahead

/-!
Readers do not look at places. Where tokens lose their places, the same is read of them and the same faults are
found, and only places are lost from the outcome (`Stmt.statement_blind`).
-/

namespace ScriptLens

theorem Token.keyword?_unplaced (token : Token) : token.unplaced.keyword? = token.keyword? := rfl

theorem Precedence.ofToken?_unplaced (token : Token) : ofToken? token.unplaced = ofToken? token := rfl

theorem Stmt.unplacedAll_eq_map (stmts : List Stmt) : unplacedAll stmts = stmts.map unplaced := by
  induction stmts with
  | nil => rfl
  | cons stmt rest ih => rw [unplacedAll, ih, List.map_cons]

namespace Reader

variable {α β α' β' : Type}

/-- What an outcome becomes where the tokens have no places. -/
def withoutPlaces (strip : α → α') : EStateM.Result Fault (List Token) α → EStateM.Result Fault (List Token) α'
  | .ok value rest => .ok (strip value) (rest.map Token.unplaced)
  | .error fault rest => .error fault (rest.map Token.unplaced)

/-- Without their places, the tokens are read by `plain` as `read` reads them with their places. -/
def BlindOn (strip : α → α') (read : Reader α) (plain : Reader α') (tokens : List Token) : Prop :=
  plain (tokens.map Token.unplaced) = withoutPlaces strip (read tokens)

def Blind (strip : α → α') (read : Reader α) (plain : Reader α') : Prop := ∀ tokens, BlindOn strip read plain tokens

theorem BlindOn.bind {strip : α → α'} {strip' : β → β'} {read : Reader α} {plain : Reader α'} {next : α → Reader β}
    {next' : α' → Reader β'} {tokens : List Token} (start : BlindOn strip read plain tokens)
    (later : ∀ value rest, read tokens = .ok value rest → BlindOn strip' (next value) (next' (strip value)) rest) :
    BlindOn strip' (read >>= next) (plain >>= next') tokens := by
  change EStateM.bind plain next' _ = withoutPlaces strip' (EStateM.bind read next tokens)
  unfold EStateM.bind
  rw [start]
  cases outcome : read tokens with
  | ok value rest => exact later value rest outcome
  | error fault rest => rfl

namespace Blind

theorem pure (strip : α → α') (value : α) : Blind strip (Pure.pure value) (Pure.pure (strip value)) := fun _ => rfl

theorem throw (strip : α → α') (fault : Fault) : Blind strip (MonadExcept.throw fault) (MonadExcept.throw fault) :=
  fun _ => rfl

theorem bind {strip : α → α'} {strip' : β → β'} {read : Reader α} {plain : Reader α'} {next : α → Reader β}
    {next' : α' → Reader β'} (start : Blind strip read plain)
    (later : ∀ value, Blind strip' (next value) (next' (strip value))) :
    Blind strip' (read >>= next) (plain >>= next') :=
  fun tokens => (start tokens).bind fun value rest _ => later value rest

theorem take (kind : Kind) (fault : Fault) : Blind Token.unplaced (take kind fault) (take kind fault) := by
  intro tokens
  cases tokens with
  | nil => rfl
  | cons token rest =>
    show Reader.take kind fault (token.unplaced :: rest.map Token.unplaced) = _
    by_cases same : token.kind = kind
    · have plain : token.unplaced.kind = kind := same
      rw [Reader.take, Reader.take, if_pos same, if_pos plain]
      rfl
    · have plain : ¬token.unplaced.kind = kind := same
      rw [Reader.take, Reader.take, if_neg same, if_neg plain]
      rfl

end Blind
end Reader

namespace Spine

def unplaced : Spine → Spine
  | last operand => last operand.unplaced
  | link left op precedence rest => link left.unplaced op.unplaced precedence rest.unplaced

theorem toExpr_unplaced (spine : Spine) : spine.unplaced.toExpr = spine.toExpr.unplaced := by
  induction spine with
  | last operand => rfl
  | link left op precedence rest ih => rw [unplaced, toExpr, ih, toExpr, Expr.unplaced]

theorem attach_unplaced (op : Token) (precedence : Precedence) (right : Expr) (spine : Spine) :
    spine.unplaced.attach op.unplaced precedence right.unplaced = (spine.attach op precedence right).unplaced := by
  induction spine with
  | last operand => rfl
  | link left looser loose rest ih =>
    rw [unplaced, attach, attach]
    by_cases tighter : loose < precedence
    · rw [if_pos tighter, if_pos tighter, ih, unplaced]
    · have whole := toExpr_unplaced (link left looser loose rest)
      rw [unplaced] at whole
      rw [if_neg tighter, if_neg tighter, whole, unplaced, unplaced]

end Spine

namespace Expr
open Reader

/-- A reader of expressions that does not look at places. -/
abbrev Unseeing (read : Reader Expr) : Prop := Blind unplaced read read

theorem chain_blind {operand : Consumer Expr} (blind : Unseeing operand.read) (spine : Spine) (tokens : List Token) :
    BlindOn unplaced (chain operand spine) (chain operand spine.unplaced) tokens := by
  cases tokens with
  | nil =>
    show chain operand spine.unplaced [] = withoutPlaces unplaced (chain operand spine [])
    rw [chain, chain, spine.toExpr_unplaced]
    rfl
  | cons op rest =>
    have joins := Precedence.ofToken?_unplaced op
    unfold BlindOn
    rw [List.map_cons]
    cases precedence? : Precedence.ofToken? op with
    | none =>
      rw [precedence?] at joins
      have stops (spine : Spine) {op : Token} (none : Precedence.ofToken? op = none) (rest : List Token) :
          chain operand spine (op :: rest) = .ok spine.toExpr (op :: rest) := by
        rw [chain]
        split <;> grind
      rw [stops _ joins, stops _ precedence?, spine.toExpr_unplaced]
      rfl
    | some precedence =>
      rw [precedence?] at joins
      rw [chain_cons operand _ joins, chain_cons operand _ precedence?]
      refine (blind rest).bind fun right after reads => ?_
      rw [spine.attach_unplaced]
      exact chain_blind blind _ after
termination_by tokens.length
decreasing_by exact Nat.lt_succ_of_lt (operand.consumes reads)

theorem joined_blind {operand : Consumer Expr} (blind : Unseeing operand.read) : Unseeing (joined operand) :=
  blind.bind fun first => chain_blind blind (.last first)

theorem negated_blind {inner : Consumer Expr} (blind : Unseeing inner.read) (op : Token) :
    Blind unplaced (negated op inner) (negated op.unplaced inner) :=
  blind.bind fun operand => .pure unplaced (negate op operand)

theorem parenthesized_blind {inner : Consumer Expr} (blind : Unseeing inner.read) : Unseeing (parenthesized inner) :=
  (joined_blind blind).bind fun whole => (Blind.take _ _).bind fun _ => .pure unplaced whole

theorem operandWith_blind {deeper : Option (Consumer Expr)} (blind : ∀ inner ∈ deeper, Unseeing inner.read) :
    Unseeing (operandWith deeper) := by
  intro tokens
  cases tokens with
  | nil => rfl
  | cons token rest =>
    have kind : token.unplaced.kind = token.kind := rfl
    unfold BlindOn
    simp only [List.map_cons, operandWith, kind]
    split
    · rfl
    · rfl
    · rfl
    · next inner _ => exact negated_blind (blind inner rfl) token rest
    · next inner _ => exact parenthesized_blind (blind inner rfl) rest
    · rfl
    · rfl
    · rfl

theorem operand_blind (allowed : Nat) : Unseeing (operand allowed).read := by
  induction allowed with
  | zero => exact operandWith_blind (by simp)
  | succ allowed ih => exact operandWith_blind (by simpa using ih)

theorem read_blind (allowed : Nat) : Unseeing (read allowed) := joined_blind (operand_blind allowed)

end Expr

namespace Stmt
open Reader

/-- A reader of statements that does not look at places. -/
abbrev Unseeing (read : Reader Stmt) : Prop := Blind unplaced read read

theorem untilBrace_blind {statement : Consumer Stmt} (blind : Unseeing statement.read) (before : List Stmt)
    (tokens : List Token) :
    BlindOn unplacedAll (untilBrace statement before) (untilBrace statement (unplacedAll before)) tokens := by
  cases tokens with
  | nil =>
    show untilBrace statement (unplacedAll before) [] = withoutPlaces _ (untilBrace statement before [])
    rw [untilBrace, untilBrace]
    rfl
  | cons token rest =>
    unfold BlindOn
    rw [List.map_cons]
    by_cases closing : token.kind = .rightBrace
    · have closing' : token.unplaced.kind = .rightBrace := closing
      rw [untilBrace, untilBrace, if_pos closing, if_pos closing', withoutPlaces]
      simp only [unplacedAll_eq_map, List.map_reverse]
    · have unclosed : token.unplaced.kind ≠ .rightBrace := closing
      rw [untilBrace_cons statement _ unclosed, untilBrace_cons statement _ closing]
      refine (blind (token :: rest)).bind fun next after reads => ?_
      exact untilBrace_blind blind (next :: before) after
termination_by tokens.length
decreasing_by exact statement.consumes reads

section
variable {expression : Reader Expr} {deeper : Option (Consumer Stmt)} (value : Expr.Unseeing expression)
  (blind : ∀ inner ∈ deeper, Unseeing inner.read)

include value in
/-- What all statements but the two with blocks end with. -/
theorem ending_blind (production : Production) {build build' : Expr → Stmt}
    (same : ∀ value, (build value).unplaced = build' value.unplaced) :
    Blind unplaced (do let value ← expression; let _ ← expect production .semicolon; return build value)
      (do let value ← expression; let _ ← expect production .semicolon; return build' value) := by
  refine value.bind fun read => (Blind.take _ _).bind fun _ => ?_
  rw [← same]
  exact .pure _ _

include blind

theorem block_blind : Blind unplacedAll (block deeper) (block deeper) := by
  cases deeper with
  | none => exact .throw _ _
  | some statement => exact (Blind.take _ _).bind fun _ => untilBrace_blind (blind statement rfl) []

theorem alternative_blind : Blind (Option.map unplacedAll) (alternative deeper) (alternative deeper) := by
  intro tokens
  cases tokens with
  | nil => rfl
  | cons token rest =>
    have word : token.unplaced.isKeyword .elseKw = token.isKeyword .elseKw := rfl
    unfold BlindOn
    simp only [List.map_cons, alternative, word]
    split
    · have some_block : Blind (Option.map unplacedAll) (some <$> block deeper) (some <$> block deeper) :=
        (block_blind blind).bind fun body => .pure (Option.map unplacedAll) (some body)
      exact some_block rest
    · rfl

include value

theorem guarded_blind (production : Production) :
    Blind (Prod.map Expr.unplaced unplacedAll) (guarded expression deeper production)
      (guarded expression deeper production) :=
  (Blind.take _ _).bind fun _ => value.bind fun _ => (Blind.take _ _).bind fun _ =>
    (block_blind blind).bind fun _ => .pure _ _

theorem behind?_blind (first : Token) :
    Option.Rel (Blind unplaced) (behind? expression deeper first) (behind? expression deeper first.unplaced) := by
  have word := first.keyword?_unplaced
  have kind : first.unplaced.kind = first.kind := rfl
  simp only [behind?, word, kind]
  split
  · exact .some ((Blind.take _ _).bind fun _ => (Blind.take _ _).bind fun _ => ending_blind value _ fun _ => rfl)
  · refine .some ((guarded_blind value blind _).bind fun _ => (alternative_blind blind).bind fun other => ?_)
    cases other <;> exact .pure _ _
  · exact .some ((guarded_blind value blind _).bind fun _ => .pure _ _)
  · exact .some (ending_blind value _ fun _ => rfl)
  · split
    · exact .some ((Blind.take _ _).bind fun _ => ending_blind value _ fun _ => rfl)
    · exact .none

theorem statementWith_blind : Unseeing (statementWith expression deeper) := by
  intro tokens
  cases tokens with
  | nil => rfl
  | cons first rest =>
    have goesOn := behind?_blind value blind first
    unfold BlindOn
    rw [List.map_cons, statementWith, statementWith]
    generalize behind? expression deeper first = read, behind? expression deeper first.unplaced = plain at goesOn ⊢
    cases goesOn with
    | some blind => exact blind rest
    | none => rfl

end

theorem statement_blind (allowed : Nat) : Unseeing (statement allowed).read := by
  induction allowed with
  | zero => exact statementWith_blind (Expr.read_blind 0) (by simp)
  | succ allowed ih => exact statementWith_blind (Expr.read_blind (allowed + 1)) (by simpa using ih)

end Stmt

end ScriptLens
