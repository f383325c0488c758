import ScriptLens.Proofs.Reading.Program

/-!
What is open in front of a token, as it can be told from the tokens alone (`Nesting.next`). Sentences leave nothing
open (`Program.after_of_mem_language`). Readers keep to it: they close what they open (`Stmt.statement_tracks`), and a
fault says how many levels are open where it lies (`Fault.Located`).
-/

namespace ScriptLens

/-- What waits for its end. The parentheses of a condition wait for it, too, but are no level. -/
inductive Opening where
  | negation | parens | condition | block
  deriving DecidableEq

/-- What is open, innermost first, and the production that has to come next where that is an operand or a block. -/
structure Nesting where
  opened : List Opening
  due : Option Production

/-- The production that has to follow a reserved word, if it is an operand or a block. -/
def Keyword.heralds : Keyword → Option Production
  | elseKw => some .block
  | andKw | orKw | returnKw => some .expression
  | varKw | ifKw | whileKw => none

/-- The same for a token that neither opens nor closes anything. -/
def Token.heralds (token : Token) : Option Production :=
  match token.keyword? with
  | some keyword => keyword.heralds
  | none => if token.kind = .assign ∨ (Precedence.ofToken? token).isSome then some .expression else none

namespace Nesting

def start : Nesting := ⟨[], none⟩

def levels (nesting : Nesting) : Nat := nesting.opened.countP fun opening => opening ≠ .condition

/-- An operand has ended, and with it the negations in front of it. -/
def ended (opened : List Opening) : Nesting := ⟨opened.dropWhile fun opening => opening = .negation, none⟩

/-- What a token changes where an operand is due. -/
def nextOperand (opened : List Opening) (token : Token) : Nesting :=
  match token.kind with
  | .minus => ⟨.negation :: opened, some .expression⟩
  | .leftParen => ⟨.parens :: opened, some .expression⟩
  | _ => ended opened

/-- What a token changes elsewhere. Behind a condition a block is due. -/
def nextOther (opened : List Opening) (token : Token) : Nesting :=
  match token.kind with
  | .leftParen => ⟨.condition :: opened, some .expression⟩
  | .rightParen =>
    match opened with
    | .condition :: outer => ⟨outer, some .block⟩
    | _ => ended opened.tail
  | .leftBrace => ⟨.block :: opened, none⟩
  | .rightBrace => ⟨opened.tail, none⟩
  | _ => ⟨opened, token.heralds⟩

def next (nesting : Nesting) (token : Token) : Nesting :=
  if nesting.due = some .expression then nextOperand nesting.opened token else nextOther nesting.opened token

def after (nesting : Nesting) (tokens : List Token) : Nesting := tokens.foldl next nesting

theorem after_append (nesting : Nesting) (front back : List Token) :
    nesting.after (front ++ back) = (nesting.after front).after back := List.foldl_append

/-- Whether a token of this kind opens a level. -/
def Opens (nesting : Nesting) (found : Kind) : Prop :=
  nesting.due = some .expression ∧ (found = .minus ∨ found = .leftParen) ∨
    nesting.due = some .block ∧ found = .leftBrace

theorem levels_next_of_opens {nesting : Nesting} {token : Token} (opens : nesting.Opens token.kind) :
    (nesting.next token).levels = nesting.levels + 1 := by
  rcases opens with ⟨due, kind | kind⟩ | ⟨due, kind⟩ <;>
    simp [next, nextOperand, nextOther, levels, due, kind]

/-- No negation waits for its operand. -/
def Resting (opened : List Opening) : Prop := ended opened = ⟨opened, none⟩

variable {token : Token} {opened : List Opening}

theorem next_atom (atom : token.kind = .number ∨ token.kind = .identifier ∨ token.kind = .boolean) :
    next ⟨opened, some .expression⟩ token = ended opened := by
  rcases atom with kind | kind | kind <;> simp [next, nextOperand, kind]

theorem next_minus (kind : token.kind = .minus) :
    next ⟨opened, some .expression⟩ token = ⟨.negation :: opened, some .expression⟩ := by
  simp [next, nextOperand, kind]

theorem next_leftParen (kind : token.kind = .leftParen) :
    next ⟨opened, some .expression⟩ token = ⟨.parens :: opened, some .expression⟩ := by
  simp [next, nextOperand, kind]

theorem next_keyword {keyword : Keyword} (word : token.keyword? = some keyword) :
    next ⟨opened, none⟩ token = ⟨opened, keyword.heralds⟩ := by
  simp [next, nextOther, Token.kind_of_keyword? word, Token.heralds, word]

theorem next_joining {precedence : Precedence} (joins : Precedence.ofToken? token = some precedence) :
    next ⟨opened, none⟩ token = ⟨opened, some .expression⟩ := by
  cases word : token.keyword? with
  | some keyword =>
    simp only [Precedence.ofToken?, Token.kind_of_keyword? word, word] at joins
    rw [next_keyword word]
    cases keyword <;> first | rfl | contradiction
  | none =>
    have heralds : token.heralds = some .expression := by simp [Token.heralds, word, joins]
    unfold Precedence.ofToken? at joins
    split at joins <;> simp_all [next, nextOther]

/-- A token that is neither an operator nor a word. -/
theorem next_plain (plain : token.kind = .identifier ∨ token.kind = .semicolon) :
    next ⟨opened, none⟩ token = ⟨opened, none⟩ := by
  rcases plain with kind | kind <;>
    simp [next, nextOther, Token.heralds, Token.keyword?, Precedence.ofToken?, kind]

theorem next_assign (kind : token.kind = .assign) : next ⟨opened, none⟩ token = ⟨opened, some .expression⟩ := by
  simp [next, nextOther, Token.heralds, Token.keyword?, kind]

end Nesting

/-- The kind of the token in front of which a reader stands. -/
def Kind.ahead : List Token → Kind
  | [] => .endOfInput
  | token :: _ => token.kind

/-- What a fault says of the place where it lies, if so many levels are allowed. Where a block is due and no more
levels are, it does not matter what is found. -/
structure Fault.Located (fault : Fault) (limit : Nat) (nesting : Nesting) (found : Kind) : Prop where
  production : ∀ production ∈ nesting.due, fault.production = production
  deep : fault.expected = .shallowerNesting ↔
    nesting.levels = limit ∧ (nesting.Opens found ∨ nesting.due = some .block)
  missing : fault.expected = .token .leftBrace ↔
    nesting.due = some .block ∧ nesting.levels < limit ∧ found ≠ .leftBrace

/-- A fault where neither an operand nor a block is due. -/
theorem Fault.located_of_none {fault : Fault} (shallow : fault.expected ≠ .shallowerNesting)
    (other : fault.expected ≠ .token .leftBrace) (limit : Nat) (opened : List Opening) (found : Kind) :
    fault.Located limit ⟨opened, none⟩ found where
  production := by simp
  deep := by simp [Nesting.Opens, shallow]
  missing := by simp [other]

namespace Reader
open Nesting

variable {α β : Type} {limit : Nat}

/-- From one nesting to another, or to a fault that is located. -/
def Leads (limit : Nat) (start done : Nesting) (tokens : List Token) : EStateM.Result Fault (List Token) α → Prop
  | .ok _ rest => ∃ before, tokens = before ++ rest ∧ start.after before = done
  | .error fault rest =>
    ∃ before, tokens = before ++ rest ∧ fault.Located limit (start.after before) (Kind.ahead rest)

def Tracks (limit : Nat) (read : Reader α) (start done : Nesting) : Prop :=
  ∀ tokens, Leads limit start done tokens (read tokens)

theorem Leads.behind {start done : Nesting} {tokens : List Token} {outcome : EStateM.Result Fault (List Token) α}
    (taken : List Token) (leads : Leads limit (start.after taken) done tokens outcome) :
    Leads limit start done (taken ++ tokens) outcome := by
  cases outcome with
  | ok value rest =>
    obtain ⟨before, rfl, same⟩ := leads
    exact ⟨taken ++ before, (List.append_assoc ..).symm, by rw [after_append, same]⟩
  | error fault rest =>
    obtain ⟨before, rfl, located⟩ := leads
    exact ⟨taken ++ before, (List.append_assoc ..).symm, by rwa [after_append]⟩

/-- A fault at the first token. -/
theorem Leads.here {start : Nesting} (done : Nesting) {tokens : List Token} {fault : Fault}
    (located : fault.Located limit start (Kind.ahead tokens)) :
    Leads limit start done tokens (.error fault tokens : EStateM.Result Fault (List Token) α) :=
  ⟨[], rfl, located⟩

namespace Tracks

variable {start middle done : Nesting}

theorem pure (value : α) : Tracks limit (Pure.pure value) start start := fun _ => ⟨[], rfl, rfl⟩

/-- What is done behind a reading that succeeds. -/
theorem goesOn {read : Reader α} (tracks : Tracks limit read start middle) {tokens rest : List Token} {value : α}
    (reads : read tokens = .ok value rest) {later : EStateM.Result Fault (List Token) β}
    (leads : Leads limit middle done rest later) : Leads limit start done tokens later := by
  have taken := tracks tokens
  rw [reads] at taken
  obtain ⟨before, rfl, rfl⟩ := taken
  exact leads.behind before

theorem fails {read : Reader α} (tracks : Tracks limit read start middle) {tokens rest : List Token} {fault : Fault}
    (failed : read tokens = .error fault rest) (done : Nesting) :
    Leads limit start done tokens (.error fault rest : EStateM.Result Fault (List Token) β) := by
  have leads := tracks tokens
  rw [failed] at leads
  exact leads

theorem bind {read : Reader α} {next : α → Reader β} (first : Tracks limit read start middle)
    (later : ∀ value, Tracks limit (next value) middle done) : Tracks limit (read >>= next) start done := by
  intro tokens
  change Leads limit start done tokens (EStateM.bind read next tokens)
  unfold EStateM.bind
  cases outcome : read tokens with
  | ok value rest => exact first.goesOn outcome (later value rest)
  | error fault rest => exact first.fails outcome done

theorem map {read : Reader α} (change : α → β) (tracks : Tracks limit read start done) :
    Tracks limit (change <$> read) start done :=
  tracks.bind fun _ => pure _

/-- Taking a token where neither an operand nor a block is due. -/
theorem take {kind : Kind} {fault : Fault} {opened : List Opening}
    (goesOn : ∀ token, token.kind = kind → Nesting.next ⟨opened, none⟩ token = done)
    (shallow : fault.expected ≠ .shallowerNesting) (other : fault.expected ≠ .token .leftBrace) :
    Tracks limit (Reader.take kind fault) ⟨opened, none⟩ done := by
  intro tokens
  cases tokens with
  | nil => exact .here _ (Fault.located_of_none shallow other ..)
  | cons token rest =>
    rw [Reader.take]
    split
    · next same => exact ⟨[token], rfl, goesOn token same⟩
    · exact .here _ (Fault.located_of_none shallow other ..)

end Tracks
end Reader

namespace Expr
open Reader Nesting

variable {limit : Nat} {opened : List Opening}

theorem chain_tracks {operand : Consumer Expr} (spine : Spine)
    (tracks : Tracks limit operand.read ⟨opened, some .expression⟩ ⟨opened, none⟩) :
    Tracks limit (chain operand spine) ⟨opened, none⟩ ⟨opened, none⟩ := by
  intro tokens
  fun_induction chain operand spine tokens with
  | case1 => exact ⟨[], rfl, rfl⟩
  | case2 => exact ⟨[], rfl, rfl⟩
  | case3 spine op rest precedence joins right later outcome ih =>
    have leads := tracks.goesOn outcome ih
    rw [← next_joining joins] at leads
    exact leads.behind [op]
  | case4 spine op rest precedence joins fault later outcome =>
    have leads : Leads _ _ _ _ (.error fault later : EStateM.Result _ _ Expr) := tracks.fails outcome ⟨opened, none⟩
    rw [← next_joining joins] at leads
    exact leads.behind [op]

theorem joined_tracks {operand : Consumer Expr} (resting : Resting opened)
    (tracks : Tracks limit operand.read ⟨opened, some .expression⟩ (ended opened)) :
    Tracks limit (joined operand) ⟨opened, some .expression⟩ ⟨opened, none⟩ := by
  rw [resting] at tracks
  exact tracks.bind fun first => chain_tracks (.last first) tracks

theorem located_unexpected {found : Kind} (closed : found ≠ .minus ∧ found ≠ .leftParen) :
    (⟨.expression, .expression⟩ : Fault).Located limit ⟨opened, some .expression⟩ found where
  production := by simp
  deep := by simp [Opens, closed]
  missing := by simp

theorem located_deep (full : levels ⟨opened, none⟩ = limit) {found : Kind}
    (opens : found = .minus ∨ found = .leftParen) :
    (⟨.expression, .shallowerNesting⟩ : Fault).Located limit ⟨opened, some .expression⟩ found where
  production := by simp
  deep := ⟨fun _ => ⟨full, .inl (.inl ⟨rfl, opens⟩)⟩, fun _ => rfl⟩
  missing := by simp

/-- An operand closes what it opens, whether or not levels are left inside it. -/
theorem operandWith_tracks {deeper : Option (Consumer Expr)}
    (full : deeper = none → levels ⟨opened, none⟩ = limit)
    (tracks : ∀ inner ∈ deeper, ∀ opening, opening ≠ .condition →
      Tracks limit inner.read ⟨opening :: opened, some .expression⟩ (ended (opening :: opened))) :
    Tracks limit (operandWith deeper) ⟨opened, some .expression⟩ (ended opened) := by
  intro tokens
  cases tokens with
  | nil => exact .here _ (located_unexpected (by decide))
  | cons token rest =>
    simp only [operandWith]
    split
    · next kind => exact ⟨[token], rfl, next_atom (.inl kind)⟩
    · next kind => exact ⟨[token], rfl, next_atom (.inr (.inl kind))⟩
    · next kind => exact ⟨[token], rfl, next_atom (.inr (.inr kind))⟩
    · next inner kind =>
      have reads : Tracks limit (negated token inner) ⟨.negation :: opened, some .expression⟩ (ended opened) :=
        (tracks inner rfl .negation (by decide)).bind fun _ => .pure _
      rw [← next_minus kind] at reads
      exact (reads rest).behind [token]
    · next inner kind =>
      have resting : Resting (.parens :: opened) := rfl
      have closes (closing : Token) (kind : closing.kind = .rightParen) :
          Nesting.next ⟨.parens :: opened, none⟩ closing = ended opened := by simp [Nesting.next, nextOther, kind]
      have reads : Tracks limit (parenthesized inner) ⟨.parens :: opened, some .expression⟩ (ended opened) :=
        (joined_tracks resting (tracks inner rfl .parens (by decide))).bind fun _ =>
          (Tracks.take closes (by simp) (by simp)).bind fun _ => .pure _
      rw [← next_leftParen kind] at reads
      exact (reads rest).behind [token]
    · next kind => exact .here _ (located_deep (full rfl) (.inl kind))
    · next kind => exact .here _ (located_deep (full rfl) (.inr kind))
    · next minus paren minus' paren' =>
      have noMinus (kind : token.kind = .minus) : False :=
        minus' kind (Option.eq_none_iff_forall_ne_some.2 fun inner => minus inner kind)
      have noParen (kind : token.kind = .leftParen) : False :=
        paren' kind (Option.eq_none_iff_forall_ne_some.2 fun inner => paren inner kind)
      exact .here _ (located_unexpected ⟨noMinus, noParen⟩)

theorem operand_tracks (allowed : Nat) {opened : List Opening} (room : levels ⟨opened, none⟩ + allowed = limit) :
    Tracks limit (operand allowed).read ⟨opened, some .expression⟩ (ended opened) := by
  induction allowed generalizing opened with
  | zero => exact operandWith_tracks (fun _ => room) (by simp)
  | succ allowed ih =>
    apply operandWith_tracks (by simp)
    intro inner same opening level
    obtain rfl : operand allowed = inner := by simpa using same
    apply ih
    have deeper : levels ⟨opening :: opened, none⟩ = levels ⟨opened, none⟩ + 1 := by simp [levels, level]
    omega

theorem read_tracks (allowed : Nat) {opened : List Opening} (resting : Resting opened)
    (room : levels ⟨opened, none⟩ + allowed = limit) :
    Tracks limit (read allowed) ⟨opened, some .expression⟩ ⟨opened, none⟩ :=
  joined_tracks resting (operand_tracks allowed room)

end Expr

namespace Stmt
open Reader Nesting

variable {limit : Nat} {opened : List Opening}

theorem located_missing (short : levels ⟨opened, none⟩ < limit) {found : Kind} (absent : found ≠ .leftBrace) :
    (⟨.block, .token .leftBrace⟩ : Fault).Located limit ⟨opened, some .block⟩ found where
  production := by simp
  deep := by
    have room : levels ⟨opened, some .block⟩ ≠ limit := Nat.ne_of_lt short
    simp [room]
  missing := ⟨fun _ => ⟨rfl, short, absent⟩, fun _ => rfl⟩

/-- Where no level is left, a block is refused before its brace is looked for. -/
theorem located_full (full : levels ⟨opened, none⟩ = limit) (found : Kind) :
    (⟨.block, .shallowerNesting⟩ : Fault).Located limit ⟨opened, some .block⟩ found where
  production := by simp
  deep := ⟨fun _ => ⟨full, .inr rfl⟩, fun _ => rfl⟩
  missing := by
    have room : ¬levels ⟨opened, some .block⟩ < limit := Nat.not_lt.2 (Nat.le_of_eq full.symm)
    simp [room]

theorem leftBrace_tracks (short : levels ⟨opened, none⟩ < limit) :
    Tracks limit (expect .block .leftBrace) ⟨opened, some .block⟩ ⟨.block :: opened, none⟩ := by
  intro tokens
  cases tokens with
  | nil => exact .here _ (located_missing short (by decide))
  | cons token rest =>
    rw [expect, take]
    split
    · next kind => exact ⟨[token], rfl, by simp [after, Nesting.next, nextOther, kind]⟩
    · next absent => exact .here _ (located_missing short absent)

theorem untilBrace_tracks {statement : Consumer Stmt} (before : List Stmt)
    (tracks : Tracks limit statement.read ⟨.block :: opened, none⟩ ⟨.block :: opened, none⟩) :
    Tracks limit (untilBrace statement before) ⟨.block :: opened, none⟩ ⟨opened, none⟩ := by
  intro tokens
  fun_induction untilBrace statement before tokens with
  | case1 => exact .here _ (Fault.located_of_none (by simp) (by simp) ..)
  | case2 before token rest kind => exact ⟨[token], rfl, by simp [after, Nesting.next, nextOther, kind]⟩
  | case3 before token rest open_ next later outcome ih => exact tracks.goesOn outcome ih
  | case4 before token rest open_ fault later outcome => exact tracks.fails outcome _

/-- The value of a statement and its semicolon. -/
theorem ending_tracks (allowed : Nat) (production : Production) (statement : Expr → Stmt) (resting : Resting opened)
    (room : levels ⟨opened, none⟩ + allowed = limit) :
    Tracks limit (do let value ← Expr.read allowed; let _ ← expect production .semicolon; return statement value)
      ⟨opened, some .expression⟩ ⟨opened, none⟩ :=
  (Expr.read_tracks allowed resting room).bind fun _ =>
    (Tracks.take (fun _ kind => next_plain (.inr kind)) (by simp) (by simp)).bind fun _ => .pure _

section
variable {allowed : Nat} (room : levels ⟨opened, none⟩ + allowed = limit)
  (tracks : ∀ left, allowed = left + 1 →
    Tracks limit (statement left).read ⟨.block :: opened, none⟩ ⟨.block :: opened, none⟩)
include room tracks

theorem block_tracks : Tracks limit (block (inside allowed)) ⟨opened, some .block⟩ ⟨opened, none⟩ := by
  cases allowed with
  | zero => exact fun tokens => .here _ (located_full room _)
  | succ left =>
    have short : levels ⟨opened, none⟩ < limit := by omega
    exact (leftBrace_tracks short).bind fun _ => untilBrace_tracks [] (tracks left rfl)

theorem guarded_tracks (production : Production) :
    Tracks limit (guarded (Expr.read allowed) (inside allowed) production) ⟨opened, none⟩ ⟨opened, none⟩ := by
  have opens (opening : Token) (kind : opening.kind = .leftParen) :
      Nesting.next ⟨opened, none⟩ opening = ⟨.condition :: opened, some .expression⟩ := by
    simp [Nesting.next, nextOther, kind]
  have closes (closing : Token) (kind : closing.kind = .rightParen) :
      Nesting.next ⟨.condition :: opened, none⟩ closing = ⟨opened, some .block⟩ := by
    simp [Nesting.next, nextOther, kind]
  have resting : Resting (.condition :: opened) := rfl
  have room' : levels ⟨.condition :: opened, none⟩ + allowed = limit := by simpa [levels] using room
  exact (Tracks.take opens (by simp) (by simp)).bind fun _ => (Expr.read_tracks allowed resting room').bind fun _ =>
    (Tracks.take closes (by simp) (by simp)).bind fun _ => (block_tracks room tracks).bind fun _ => .pure _

theorem alternative_tracks : Tracks limit (alternative (inside allowed)) ⟨opened, none⟩ ⟨opened, none⟩ := by
  intro tokens
  cases tokens with
  | nil => exact ⟨[], rfl, rfl⟩
  | cons token rest =>
    rw [alternative]
    split
    · next word =>
      have word : token.keyword? = some .elseKw := by simpa [Token.isKeyword] using word
      have due : Nesting.next ⟨opened, none⟩ token = ⟨opened, some .block⟩ := next_keyword word
      have reads := (block_tracks room tracks).map some
      rw [← due] at reads
      exact (reads rest).behind [token]
    · exact ⟨[], rfl, rfl⟩

theorem conditional_tracks (first : Token) :
    Tracks limit (conditional (Expr.read allowed) (inside allowed) first) ⟨opened, none⟩ ⟨opened, none⟩ := by
  refine (guarded_tracks room tracks .ifStmt).bind fun _ => (alternative_tracks room tracks).bind fun other => ?_
  cases other <;> exact .pure _

theorem repetition_tracks (first : Token) :
    Tracks limit (repetition (Expr.read allowed) (inside allowed) first) ⟨opened, none⟩ ⟨opened, none⟩ :=
  (guarded_tracks room tracks .whileStmt).bind fun _ => .pure _

theorem behind?_tracks (resting : Resting opened) {first : Token} {read : Reader Stmt}
    (starts : behind? (Expr.read allowed) (inside allowed) first = some read) :
    Tracks limit read (Nesting.next ⟨opened, none⟩ first) ⟨opened, none⟩ := by
  have assigned {production : Production} {statement : Expr → Stmt} : Tracks limit
      (do let _ ← expect production .assign; let value ← Expr.read allowed; let _ ← expect production .semicolon
          return statement value) ⟨opened, none⟩ ⟨opened, none⟩ :=
    (Tracks.take (fun _ kind => next_assign kind) (by simp) (by simp)).bind fun _ =>
      ending_tracks allowed _ _ resting room
  unfold behind? at starts
  split at starts
  · next word =>
    obtain rfl := Option.some.inj starts
    rw [next_keyword word]
    exact (Tracks.take (fun _ kind => next_plain (.inl kind)) (by simp) (by simp)).bind fun _ => assigned
  · next word =>
    obtain rfl := Option.some.inj starts
    rw [next_keyword word]
    exact conditional_tracks room tracks first
  · next word =>
    obtain rfl := Option.some.inj starts
    rw [next_keyword word]
    exact repetition_tracks room tracks first
  · next word =>
    obtain rfl := Option.some.inj starts
    rw [next_keyword word]
    exact ending_tracks allowed _ _ resting room
  · by_cases name : first.kind = .identifier
    · rw [if_pos name] at starts
      obtain rfl := Option.some.inj starts
      rw [next_plain (.inl name)]
      exact assigned
    · rw [if_neg name] at starts
      contradiction

end

/-- A statement closes what it opens. -/
theorem statement_tracks (allowed : Nat) {opened : List Opening} (resting : Resting opened)
    (room : levels ⟨opened, none⟩ + allowed = limit) :
    Tracks limit (statement allowed).read ⟨opened, none⟩ ⟨opened, none⟩ := by
  induction allowed using Nat.strongRecOn generalizing opened with
  | ind allowed ih =>
  have tracks : ∀ left, allowed = left + 1 →
      Tracks limit (statement left).read ⟨.block :: opened, none⟩ ⟨.block :: opened, none⟩ := by
    rintro left rfl
    have deeper : levels ⟨.block :: opened, none⟩ = levels ⟨opened, none⟩ + 1 := by simp [levels]
    exact ih left (Nat.lt_succ_self left) rfl (by omega)
  rw [statement_eq]
  intro tokens
  have unexpected (tokens : List Token) : Leads limit ⟨opened, none⟩ ⟨opened, none⟩ tokens
      (.error ⟨.statement, .statement⟩ tokens : EStateM.Result Fault (List Token) Stmt) :=
    .here _ (Fault.located_of_none (by simp) (by simp) ..)
  cases tokens with
  | nil => exact unexpected []
  | cons first rest =>
    simp only [statementWith]
    split
    · next read starts => exact (behind?_tracks room tracks resting starts rest).behind [first]
    · exact unexpected (first :: rest)

end Stmt

namespace Program
open Reader Stmt

theorem statement_tracks : Tracks nestingLimit statement.read .start .start :=
  Stmt.statement_tracks nestingLimit rfl (Nat.zero_add _)

theorem untilEnd_tracks (before : List Stmt) : Tracks nestingLimit (untilEnd before) .start .start := by
  intro tokens
  fun_induction untilEnd before tokens with
  | case1 => exact ⟨[], rfl, rfl⟩
  | case2 before token rest next later outcome ih => exact statement_tracks.goesOn outcome ih
  | case3 before token rest fault later outcome => exact statement_tracks.fails outcome _

/-- A sentence leaves nothing open. -/
theorem after_of_mem_language {sentence : List Token} (member : sentence ∈ language) :
    Nesting.start.after sentence = .start := by
  obtain ⟨derivations, rfl⟩ := member
  induction derivations with
  | nil => rfl
  | cons derivation others ih =>
    have resting : Nesting.Resting [] := rfl
    have leads := Stmt.statement_tracks derivation.levels resting (Nat.zero_add _) (derivation.tokens ++ [])
    have ends : Ends [] := by simp [Ends]
    have stops := derivation.stopsAt_of_ends ends
    rw [Stmt.statement_settled _ derivation [] stops, (derivation.overflow_eq_none _ _).2 (Nat.le_refl _)] at leads
    obtain ⟨taken, same, closed⟩ := leads
    obtain rfl : derivation.tokens = taken := by simpa using same
    rw [tokensOf, Nesting.after_append]
    exact (congrArg (fun nesting => nesting.after (tokensOf others)) closed).trans ih

end Program
end ScriptLens
