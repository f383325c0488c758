import ScriptLens.Program.Parser

/-!
Readers see one token ahead. What comes of reading is settled by the tokens that are taken and by the one in
front of which reading stops; the tokens behind that one could be any others (`Program.untilEnd_nearsighted`).
-/

namespace ScriptLens

namespace Reader

variable {α β : Type}

/-- The same outcome with other tokens left. -/
def onto (rest : List Token) : EStateM.Result Fault (List Token) α → EStateM.Result Fault (List Token) α
  | .ok value _ => .ok value rest
  | .error fault _ => .error fault rest

theorem left_onto (rest : List Token) (outcome : EStateM.Result Fault (List Token) α) :
    left (onto rest outcome) = rest := by
  cases outcome <;> rfl

/-- Where reading stops in front of a token, the tokens behind that token are not seen. -/
def NearsightedOn (read : Reader α) (tokens : List Token) : Prop :=
  ∀ before next after, tokens = before ++ next :: after → left (read tokens) = next :: after →
    ∀ other, read (before ++ next :: other) = onto (next :: other) (read tokens)

structure Nearsighted (read : Reader α) : Prop where
  forward : Forward read
  blind : ∀ tokens, NearsightedOn read tokens

/-- A first reading is the same, whatever follows the token in front of which a second one stops. -/
theorem Nearsighted.split {read : Reader α} (near : Nearsighted read) {before middle after : List Token}
    {next : Token} {value : α} (outcome : read (before ++ next :: after) = .ok value middle)
    (behind : next :: after <:+ middle) :
    ∃ back, middle = back ++ next :: after ∧
      ∀ other, read (before ++ next :: other) = .ok value (back ++ next :: other) := by
  have taken := near.forward (before ++ next :: after)
  rw [outcome] at taken
  obtain ⟨back, rfl⟩ := behind
  obtain ⟨front, same⟩ := taken
  refine ⟨back, rfl, fun other => ?_⟩
  change front ++ (back ++ next :: after) = _ at same
  obtain rfl : front ++ back = before := by rwa [← List.append_assoc, List.append_cancel_right_eq] at same
  cases back with
  | nil =>
    have again := near.blind _ (front ++ []) next after rfl (by rw [outcome]; rfl) other
    rwa [outcome] at again
  | cons token back =>
    rw [List.append_assoc, List.cons_append] at outcome ⊢
    have again := near.blind _ front token (back ++ next :: after) rfl (by rw [outcome]; rfl) (back ++ next :: other)
    rwa [outcome] at again

namespace NearsightedOn

theorem nil (read : Reader α) : NearsightedOn read [] := by
  intro before next after same
  simp at same

/-- A reader that stops in front of the first token sees no other. -/
theorem stop {read : Reader α} {token : Token} (outcome : EStateM.Result Fault (List Token) α)
    (stays : ∀ rest, read (token :: rest) = onto (token :: rest) outcome) (rest : List Token) :
    NearsightedOn read (token :: rest) := by
  intro before next after same stops other
  rw [stays, left_onto, same, List.append_left_eq_self] at stops
  subst stops
  obtain ⟨rfl, rfl⟩ := List.cons.inj same
  rw [List.nil_append, stays, stays]
  cases outcome <;> rfl

theorem behind {read later : Reader α} {token : Token} {rest : List Token}
    (goesOn : ∀ rest, read (token :: rest) = later rest) (forward : Forward later) (near : NearsightedOn later rest) :
    NearsightedOn read (token :: rest) := by
  intro before next after same stops other
  rw [goesOn] at stops ⊢
  cases before with
  | nil =>
    obtain ⟨rfl, rfl⟩ := List.cons.inj same
    have shorter := (forward rest).length_le
    rw [stops] at shorter
    exact absurd shorter (Nat.not_succ_le_self _)
  | cons first before =>
    obtain ⟨rfl, rfl⟩ := List.cons.inj same
    rw [List.cons_append, goesOn]
    exact near before next after rfl stops other

theorem congr {read later : Reader α} {token : Token} {rest : List Token}
    (same : ∀ rest, read (token :: rest) = later (token :: rest)) (near : NearsightedOn later (token :: rest)) :
    NearsightedOn read (token :: rest) := by
  intro before next after whole stops other
  rw [same] at stops ⊢
  rw [← near before next after whole stops other]
  cases before with
  | nil =>
    obtain ⟨rfl, -⟩ := List.cons.inj whole
    exact same other
  | cons first before =>
    obtain ⟨rfl, -⟩ := List.cons.inj whole
    exact same (before ++ next :: other)

theorem bind {read : Reader α} {next : α → Reader β} {tokens : List Token} (start : Nearsighted read)
    (forward : ∀ value, Forward (next value))
    (later : ∀ value middle, read tokens = .ok value middle → NearsightedOn (next value) middle) :
    NearsightedOn (read >>= next) tokens := by
  rintro before token after rfl stops other
  change left (EStateM.bind read next _) = _ at stops
  change EStateM.bind read next _ = onto _ (EStateM.bind read next _)
  unfold EStateM.bind at stops ⊢
  cases outcome : read (before ++ token :: after) with
  | ok value middle =>
    rw [outcome] at stops
    dsimp only at stops ⊢
    have behind := forward value middle
    rw [stops] at behind
    obtain ⟨back, rfl, again⟩ := start.split outcome behind
    rw [again other]
    exact later value _ outcome back token after rfl stops other
  | error fault middle =>
    rw [outcome] at stops
    have again := start.blind _ before token after rfl (by rw [outcome]; exact stops) other
    rw [again, outcome]
    rfl

end NearsightedOn

namespace Nearsighted

theorem pure (value : α) : Nearsighted (Pure.pure value) where
  forward := Forward.pure value
  blind
    | [] => .nil _
    | _ :: rest => .stop (.ok value []) (fun _ => rfl) rest

theorem throw (fault : Fault) : Nearsighted (MonadExcept.throw fault : Reader α) where
  forward := Forward.throw fault
  blind
    | [] => .nil _
    | _ :: rest => .stop (.error fault []) (fun _ => rfl) rest

theorem bind {read : Reader α} {next : α → Reader β} (start : Nearsighted read)
    (later : ∀ value, Nearsighted (next value)) : Nearsighted (read >>= next) where
  forward := start.forward.bind fun value => (later value).forward
  blind _ := .bind start (fun value => (later value).forward) fun value middle _ => (later value).blind middle

theorem map {read : Reader α} (change : α → β) (near : Nearsighted read) : Nearsighted (change <$> read) :=
  near.bind fun _ => .pure _

/-- The first token decides whether reading stops in front of it or how it goes on behind it. -/
theorem of_first {read : Reader α} (forward : Forward read)
    (choice : ∀ token, (∃ outcome, ∀ rest, read (token :: rest) = onto (token :: rest) outcome) ∨
      ∃ later : Reader α, Nearsighted later ∧ ∀ rest, read (token :: rest) = later rest) : Nearsighted read where
  forward := forward
  blind := by
    intro tokens
    cases tokens with
    | nil => exact .nil read
    | cons token rest =>
      rcases choice token with ⟨outcome, stays⟩ | ⟨later, near, goesOn⟩
      · exact .stop outcome stays rest
      · exact .behind goesOn near.forward (near.blind rest)

theorem take (kind : Kind) (fault : Fault) : Nearsighted (take kind fault) := by
  apply Nearsighted.of_first (Forward.take kind fault)
  intro token
  by_cases same : token.kind = kind
  · exact .inr ⟨_, .pure token, fun rest => by rw [Reader.take, if_pos same]; rfl⟩
  · exact .inl ⟨.error fault [], fun rest => by rw [Reader.take, if_neg same]; rfl⟩

end Nearsighted
end Reader

namespace Expr
open Reader

/-- Behind an operator a chain is an operand and a chain again. -/
theorem chain_cons (operand : Consumer Expr) (spine : Spine) {op : Token} {precedence : Precedence}
    (joins : Precedence.ofToken? op = some precedence) (rest : List Token) :
    chain operand spine (op :: rest) =
      (do let right ← operand.read; chain operand (spine.attach op precedence right)) rest := by
  change _ = EStateM.bind operand.read _ rest
  rw [chain, EStateM.bind]
  split <;> grind

theorem chain_nearsightedOn {operand : Consumer Expr} (near : Nearsighted operand.read) (spine : Spine)
    (tokens : List Token) : NearsightedOn (chain operand spine) tokens := by
  have ahead (spine : Spine) : Forward (chain operand spine) := chain_forward operand spine
  cases tokens with
  | nil => exact .nil _
  | cons op rest =>
    cases joins : Precedence.ofToken? op with
    | none => exact .stop (.ok spine.toExpr []) (fun rest => by rw [chain]; split <;> grind [onto]) rest
    | some precedence =>
      refine .behind (chain_cons operand spine joins) (near.forward.bind fun _ => ahead _) (.bind near (fun _ => ahead _) ?_)
      intro right after reads
      exact chain_nearsightedOn near _ after
termination_by tokens.length
decreasing_by exact Nat.lt_succ_of_lt (operand.consumes reads)

theorem joined_nearsighted {operand : Consumer Expr} (near : Nearsighted operand.read) : Nearsighted (joined operand) :=
  near.bind fun _ => ⟨chain_forward operand _, chain_nearsightedOn near _⟩

theorem operandWith_nearsighted {deeper : Option (Consumer Expr)} (near : ∀ inner ∈ deeper, Nearsighted inner.read) :
    Nearsighted (operandWith deeper) := by
  apply Nearsighted.of_first (operandWith_forward deeper)
  intro token
  simp only [operandWith]
  split
  · exact .inr ⟨_, .pure _, fun _ => rfl⟩
  · exact .inr ⟨_, .pure _, fun _ => rfl⟩
  · exact .inr ⟨_, .pure _, fun _ => rfl⟩
  · next inner _ => exact .inr ⟨_, (near inner rfl).bind fun _ => .pure _, fun _ => rfl⟩
  · next inner _ =>
    exact .inr ⟨_, (joined_nearsighted (near inner rfl)).bind fun _ => (Nearsighted.take _ _).bind fun _ => .pure _,
      fun _ => rfl⟩
  · exact .inl ⟨.error _ [], fun _ => rfl⟩
  · exact .inl ⟨.error _ [], fun _ => rfl⟩
  · exact .inl ⟨.error _ [], fun _ => rfl⟩

theorem operand_nearsighted (allowed : Nat) : Nearsighted (operand allowed).read := by
  induction allowed with
  | zero => exact operandWith_nearsighted (by simp)
  | succ allowed ih => exact operandWith_nearsighted (by simpa using ih)

theorem read_nearsighted (allowed : Nat) : Nearsighted (read allowed) := joined_nearsighted (operand_nearsighted allowed)

end Expr

namespace Stmt
open Reader

theorem untilBrace_cons (statement : Consumer Stmt) (before : List Stmt) {token : Token}
    (unclosed : token.kind ≠ .rightBrace) (rest : List Token) :
    untilBrace statement before (token :: rest) =
      (do let next ← statement.read; untilBrace statement (next :: before)) (token :: rest) := by
  change _ = EStateM.bind statement.read _ (token :: rest)
  rw [untilBrace, if_neg unclosed, EStateM.bind]
  split <;> grind

theorem untilBrace_nearsightedOn {statement : Consumer Stmt} (near : Nearsighted statement.read) (before : List Stmt)
    (tokens : List Token) : NearsightedOn (untilBrace statement before) tokens := by
  cases tokens with
  | nil => exact .nil _
  | cons token rest =>
    by_cases closing : token.kind = .rightBrace
    · exact .behind (fun rest => by rw [untilBrace, if_pos closing]; rfl) (Forward.pure before.reverse)
        ((Nearsighted.pure _).blind rest)
    · refine .congr (untilBrace_cons statement before closing) (.bind near (fun _ => untilBrace_forward statement _) ?_)
      intro next after reads
      exact untilBrace_nearsightedOn near _ after
termination_by tokens.length
decreasing_by exact statement.consumes reads

theorem block_nearsighted {deeper : Option (Consumer Stmt)} (near : ∀ inner ∈ deeper, Nearsighted inner.read) :
    Nearsighted (block deeper) := by
  cases deeper with
  | none => exact .throw _
  | some statement =>
    exact (Nearsighted.take _ _).bind fun _ =>
      ⟨untilBrace_forward statement _, untilBrace_nearsightedOn (near statement rfl) _⟩

section
variable {expression : Reader Expr} {deeper : Option (Consumer Stmt)} (value : Nearsighted expression)
  (near : ∀ inner ∈ deeper, Nearsighted inner.read)
include near

theorem alternative_nearsighted : Nearsighted (alternative deeper) := by
  apply Nearsighted.of_first (alternative_forward deeper)
  intro token
  simp only [alternative]
  split
  · exact .inr ⟨_, (block_nearsighted near).map some, fun _ => rfl⟩
  · exact .inl ⟨.ok none [], fun _ => rfl⟩

include value

theorem guarded_nearsighted (production : Production) : Nearsighted (guarded expression deeper production) :=
  (Nearsighted.take _ _).bind fun _ => value.bind fun _ => (Nearsighted.take _ _).bind fun _ =>
    (block_nearsighted near).bind fun _ => .pure _

theorem behind?_nearsighted {first : Token} {read : Reader Stmt}
    (starts : behind? expression deeper first = some read) : Nearsighted read := by
  have final (production : Production) (statement : Expr → Stmt) : Nearsighted
      (do let value ← expression; let _ ← expect production .semicolon; return statement value) :=
    value.bind fun _ => (Nearsighted.take _ _).bind fun _ => .pure _
  unfold behind? at starts
  split at starts
  · obtain rfl := Option.some.inj starts
    exact (Nearsighted.take _ _).bind fun _ => (Nearsighted.take _ _).bind fun _ => final _ _
  · obtain rfl := Option.some.inj starts
    refine (guarded_nearsighted value near _).bind fun _ => (alternative_nearsighted near).bind fun other => ?_
    cases other <;> exact .pure _
  · obtain rfl := Option.some.inj starts
    exact (guarded_nearsighted value near _).bind fun _ => .pure _
  · obtain rfl := Option.some.inj starts
    exact final _ _
  · split at starts
    · obtain rfl := Option.some.inj starts
      exact (Nearsighted.take _ _).bind fun _ => final _ _
    · contradiction

theorem statementWith_nearsighted : Nearsighted (statementWith expression deeper) := by
  apply Nearsighted.of_first (statementWith_forward value.forward deeper)
  intro token
  simp only [statementWith]
  split
  · next read starts => exact .inr ⟨read, behind?_nearsighted value near starts, fun _ => rfl⟩
  · exact .inl ⟨.error _ [], fun _ => rfl⟩

end

theorem statement_nearsighted (allowed : Nat) : Nearsighted (statement allowed).read := by
  induction allowed with
  | zero => exact statementWith_nearsighted (Expr.read_nearsighted 0) (by simp)
  | succ allowed ih => exact statementWith_nearsighted (Expr.read_nearsighted (allowed + 1)) (by simpa using ih)

end Stmt

namespace Program
open Reader

theorem untilEnd_cons (before : List Stmt) (token : Token) (rest : List Token) :
    untilEnd before (token :: rest) =
      (do let next ← statement.read; untilEnd (next :: before)) (token :: rest) := by
  change _ = EStateM.bind statement.read _ (token :: rest)
  rw [untilEnd, EStateM.bind]
  split <;> grind

theorem untilEnd_forward (before : List Stmt) : Forward (untilEnd before) := by
  intro tokens
  fun_induction untilEnd before tokens with
  | case1 => exact List.suffix_rfl
  | case2 before token rest next after outcome ih =>
    have start := statement.forward (token :: rest)
    rw [outcome] at start
    exact ih.trans start
  | case3 before token rest fault after outcome =>
    have start := statement.forward (token :: rest)
    rwa [outcome] at start

theorem untilEnd_nearsightedOn (before : List Stmt) (tokens : List Token) : NearsightedOn (untilEnd before) tokens := by
  cases tokens with
  | nil => exact .nil _
  | cons token rest =>
    have near : Nearsighted statement.read := Stmt.statement_nearsighted nestingLimit
    refine .congr (untilEnd_cons before token) (.bind near (fun _ => untilEnd_forward _) ?_)
    intro next after reads
    exact untilEnd_nearsightedOn _ after
termination_by tokens.length
decreasing_by exact statement.consumes reads

theorem untilEnd_nearsighted (before : List Stmt) : Nearsighted (untilEnd before) :=
  ⟨untilEnd_forward before, untilEnd_nearsightedOn before⟩

end Program
end ScriptLens
