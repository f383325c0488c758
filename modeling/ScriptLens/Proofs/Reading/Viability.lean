import ScriptLens.Proofs.Reading.Language
import ScriptLens.Stmt.Parser

/-!
Every reader of the grammar keeps to the language of its rule, however few levels it is allowed
(`Expr.read_viable`, `Stmt.statement_viable`). A level too many is no expectation that a token could meet.
-/

namespace ScriptLens

namespace Expr
open Reader

theorem Derivation.tokens_ne_nil {layer : Layer} (derivation : Derivation layer) : derivation.tokens ≠ [] := by
  induction derivation with
  | leaf => simp [tokens]
  | negate => simp [tokens]
  | parens => simp [tokens]
  | single inner ih => exact ih
  | join => simp [tokens]

/-- What starts an expression starts an operand. -/
theorem exists_operand_of_admits {next : Token} (admitted : Expected.expression.Admits next) :
    ∃ after, next :: after ∈ language .operand := by
  obtain ⟨derivation, head⟩ := admitted
  rw [derivation.tokens_flat, List.head?_append_of_ne_nil _ derivation.first.tokens_ne_nil] at head
  obtain ⟨after, same⟩ := List.head?_eq_some_iff.1 head
  exact ⟨after, derivation.first, same⟩

theorem nil_mem_linksLanguage : [] ∈ linksLanguage := ⟨[], rfl⟩

theorem cons_mem_linksLanguage {precedence : Precedence} (op : Token.Joining precedence) {operand links : List Token}
    (first : operand ∈ language .operand) (others : links ∈ linksLanguage) :
    op.1 :: (operand ++ links) ∈ linksLanguage := by
  obtain ⟨derivation, rfl⟩ := first
  obtain ⟨links, rfl⟩ := others
  exact ⟨⟨precedence, op, derivation⟩ :: links, rfl⟩

theorem chain_viable {operand : Consumer Expr} (viable : Viable operand.read (language .operand)) (spine : Spine) :
    Viable (chain operand spine) linksLanguage := by
  intro tokens
  fun_induction chain operand spine tokens with
  | case1 => exact ⟨[], nil_mem_linksLanguage, rfl⟩
  | case2 => exact ⟨[], nil_mem_linksLanguage, rfl⟩
  | case3 spine op rest precedence joins right after outcome ih =>
    have explained := viable rest
    rw [outcome] at explained
    obtain ⟨operand, member, rfl⟩ := explained
    exact ih.behind (op :: operand) fun links others => cons_mem_linksLanguage ⟨op, joins⟩ member others
  | case4 spine op rest precedence joins fault after outcome =>
    have explained := viable rest
    rw [outcome] at explained
    exact explained.behind [op] fun sentence member => by
      simpa using cons_mem_linksLanguage ⟨op, joins⟩ member nil_mem_linksLanguage

theorem joined_viable {operand : Consumer Expr} (viable : Viable operand.read (language .operand)) :
    Viable (joined operand) (language .whole) := by
  have viable := viable.bind (fun first => chain_viable viable (.last first)) ⟨[], nil_mem_linksLanguage⟩
  apply viable.mono
  intro sentence member
  obtain ⟨_, ⟨first, rfl⟩, _, ⟨links, rfl⟩, rfl⟩ := Language.mem_mul.1 member
  obtain ⟨derivation, rfl, rfl⟩ := Derivation.exists_flat first links
  exact ⟨derivation, derivation.tokens_flat⟩

theorem operandWith_viable {deeper : Option (Consumer Expr)}
    (viable : ∀ inner ∈ deeper, Viable inner.read (language .operand)) :
    Viable (operandWith deeper) (language .operand) := by
  intro tokens
  have unexpected (tokens : List Token) : Explains (language .operand) tokens
      (.error ⟨.expression, .expression⟩ tokens : EStateM.Result Fault (List Token) Expr) :=
    ⟨[], rfl, fun next admitted => exists_operand_of_admits admitted⟩
  cases tokens with
  | nil => exact unexpected []
  | cons token rest =>
    simp only [operandWith]
    split
    · next kind => exact ⟨[token], ⟨.leaf ⟨token, .inl kind⟩, rfl⟩, rfl⟩
    · next kind => exact ⟨[token], ⟨.leaf ⟨token, .inr (.inl kind)⟩, rfl⟩, rfl⟩
    · next kind => exact ⟨[token], ⟨.leaf ⟨token, .inr (.inr kind)⟩, rfl⟩, rfl⟩
    · next inner kind =>
      have reads : Viable (negated token inner) (language .operand * 1) :=
        (viable inner rfl).bind (fun _ => Viable.pure _) ⟨[], rfl⟩
      apply (reads rest).behind [token]
      intro sentence member
      rw [mul_one] at member
      obtain ⟨derivation, rfl⟩ := member
      exact ⟨.negate ⟨token, kind⟩ derivation, rfl⟩
    · next inner kind =>
      have reads : Viable (parenthesized inner) (language .whole * (Kind.language .rightParen * 1)) :=
        (joined_viable (viable inner rfl)).bind (fun _ => (Viable.expect _ _).bind (fun _ => Viable.pure _) ⟨[], rfl⟩)
          (exists_mem_mul (Kind.exists_mem_language _) ⟨[], rfl⟩)
      apply (reads rest).behind [token]
      intro sentence member
      rw [mul_one] at member
      obtain ⟨_, ⟨derivation, rfl⟩, _, ⟨closing, rfl⟩, rfl⟩ := Language.mem_mul.1 member
      exact ⟨.parens ⟨token, kind⟩ derivation closing, rfl⟩
    · exact .deep [] rfl rfl
    · exact .deep [] rfl rfl
    · exact unexpected (token :: rest)

theorem operand_viable (allowed : Nat) : Viable (operand allowed).read (language .operand) := by
  induction allowed with
  | zero => exact operandWith_viable (by simp)
  | succ allowed ih => exact operandWith_viable (by simpa using ih)

theorem read_viable (allowed : Nat) : Viable (read allowed) (language .whole) :=
  joined_viable (operand_viable allowed)

end Expr

namespace Stmt
open Reader

theorem untilBrace_viable {statement : Consumer Stmt} (viable : Viable statement.read language) (before : List Stmt) :
    Viable (untilBrace statement before) closedLanguage := by
  have closing (next : Token) (kind : next.kind = .rightBrace) : [next] ∈ closedLanguage := ⟨[], ⟨next, kind⟩, rfl⟩
  have another {first others : List Token} (member : first ∈ language) (later : others ∈ closedLanguage) :
      first ++ others ∈ closedLanguage := by
    obtain ⟨derivation, rfl⟩ := member
    obtain ⟨derivations, closing, rfl⟩ := later
    exact ⟨derivation :: derivations, closing, by rw [tokensOf, List.append_assoc]⟩
  intro tokens
  fun_induction untilBrace statement before tokens with
  | case1 => exact ⟨[], rfl, fun next kind => ⟨[], closing next kind⟩⟩
  | case2 before token rest kind => exact ⟨[token], closing token kind, rfl⟩
  | case3 before token rest open_ next after outcome ih =>
    have explained := viable (token :: rest)
    rw [outcome] at explained
    obtain ⟨sentence, member, same⟩ := explained
    rw [same]
    exact ih.behind sentence fun others later => another member later
  | case4 before token rest open_ fault after outcome =>
    have explained := viable (token :: rest)
    rw [outcome] at explained
    exact explained.within fun sentence member =>
      ⟨[⟨.rightBrace, "\x7d", .start⟩], another member (closing _ rfl)⟩

theorem exists_mem_blockLanguage : ∃ sentence, sentence ∈ blockLanguage :=
  ⟨_, .braces ⟨⟨.leftBrace, "\x7b", .start⟩, rfl⟩ [] ⟨⟨.rightBrace, "\x7d", .start⟩, rfl⟩, rfl⟩

theorem exists_mem_whole : ∃ sentence, sentence ∈ Expr.language .whole := by
  obtain ⟨derivation, -⟩ := Expr.Derivation.exists_alone (.leaf ⟨⟨.number, "0", .start⟩, .inl rfl⟩) .whole
  exact ⟨_, derivation, rfl⟩

theorem exists_mem_one : ∃ sentence, sentence ∈ (1 : Language Token) := ⟨[], rfl⟩

section
variable {deeper : Option (Consumer Stmt)} (viable : ∀ inner ∈ deeper, Viable inner.read language)
include viable

theorem block_viable : Viable (block deeper) blockLanguage := by
  cases deeper with
  | none => exact fun tokens => .deep [] rfl rfl
  | some statement =>
    have reads : Viable (block (some statement)) (Kind.language .leftBrace * closedLanguage) :=
      (Viable.expect _ _).bind (fun _ => untilBrace_viable (viable statement rfl) [])
        ⟨_, [], ⟨⟨.rightBrace, "\x7d", .start⟩, rfl⟩, rfl⟩
    apply reads.mono
    intro sentence member
    obtain ⟨_, ⟨opening, rfl⟩, _, ⟨inside, closing, rfl⟩, rfl⟩ := Language.mem_mul.1 member
    exact ⟨.braces opening inside closing, rfl⟩

/-- A condition with the block behind it. -/
theorem guarded_viable (allowed : Nat) (production : Production) :
    Viable (guarded (Expr.read allowed) deeper production) guardedLanguage := by
  have last := exists_mem_mul exists_mem_blockLanguage exists_mem_one
  have third := exists_mem_mul (Kind.exists_mem_language .rightParen) last
  have reads : Viable (guarded (Expr.read allowed) deeper production) (Kind.language .leftParen *
      (Expr.language .whole * (Kind.language .rightParen * (blockLanguage * 1)))) :=
    (Viable.expect _ _).bind (fun _ => (Expr.read_viable allowed).bind (fun _ => (Viable.expect _ _).bind
      (fun _ => (block_viable viable).bind (fun _ => Viable.pure _) exists_mem_one) last) third)
      (exists_mem_mul exists_mem_whole third)
  apply reads.mono
  intro sentence member
  rw [mul_one] at member
  obtain ⟨_, ⟨opening, rfl⟩, _, inside, rfl⟩ := Language.mem_mul.1 member
  obtain ⟨_, ⟨condition, rfl⟩, _, behind, rfl⟩ := Language.mem_mul.1 inside
  obtain ⟨_, ⟨closing, rfl⟩, _, ⟨body, rfl⟩, rfl⟩ := Language.mem_mul.1 behind
  exact ⟨⟨opening, condition, closing⟩, body, by simp [Expr.Guard.tokens]⟩

/-- The branch behind the word `else`, or none. -/
theorem alternative_viable :
    Viable (alternative deeper) alternativeLanguage := by
  intro tokens
  cases tokens with
  | nil => exact ⟨[], .inl rfl, rfl⟩
  | cons token rest =>
    simp only [alternative]
    split
    · next word =>
      apply ((block_viable viable).map some rest).behind [token]
      rintro _ ⟨body, rfl⟩
      exact .inr ⟨⟨token, by simpa [Token.isKeyword] using word⟩, body, rfl⟩
    · exact ⟨[], .inl rfl, rfl⟩

end

/-- The value of a statement and its semicolon. -/
theorem ending_viable (allowed : Nat) (production : Production) (statement : Expr → Stmt) :
    Viable (do let value ← Expr.read allowed; let _ ← expect production .semicolon; return statement value)
      endingLanguage := by
  have reads : Viable
      (do let value ← Expr.read allowed; let _ ← expect production .semicolon; return statement value)
      (Expr.language .whole * (Kind.language .semicolon * 1)) :=
    (Expr.read_viable allowed).bind (fun _ => (Viable.expect _ _).bind (fun _ => Viable.pure _) exists_mem_one)
      (exists_mem_mul (Kind.exists_mem_language _) exists_mem_one)
  apply reads.mono
  intro sentence member
  rw [mul_one] at member
  obtain ⟨_, ⟨value, rfl⟩, _, ⟨semicolon, rfl⟩, rfl⟩ := Language.mem_mul.1 member
  exact ⟨⟨value, semicolon⟩, rfl⟩

theorem exists_mem_endingLanguage : ∃ sentence, sentence ∈ endingLanguage := by
  obtain ⟨_, value, -⟩ := exists_mem_whole
  exact ⟨_, ⟨value, ⟨⟨.semicolon, ";", .start⟩, rfl⟩⟩, rfl⟩

section
variable (allowed : Nat) {first : Token}

/-- What may stand behind a first token. -/
def languageBehind (first : Token) : Language Token := {sentence | first :: sentence ∈ language}

theorem declaration_viable (word : first.keyword? = some .varKw) :
    Viable (declaration (Expr.read allowed) first) (languageBehind first) := by
  have reads : Viable (declaration (Expr.read allowed) first)
      (Kind.language .identifier * (Kind.language .assign * endingLanguage)) := by
    apply (Viable.identifier _).bind
    · exact fun name => (Viable.expect _ .assign).bind (fun _ => ending_viable allowed _ _) exists_mem_endingLanguage
    · exact exists_mem_mul (Kind.exists_mem_language .assign) exists_mem_endingLanguage
  apply reads.mono
  intro sentence member
  obtain ⟨_, ⟨name, rfl⟩, _, behind, rfl⟩ := Language.mem_mul.1 member
  obtain ⟨_, ⟨equals, rfl⟩, _, ⟨ending, rfl⟩, rfl⟩ := Language.mem_mul.1 behind
  exact ⟨.declare ⟨first, word⟩ name equals ending, rfl⟩

theorem assignment_viable (name : first.kind = .identifier) :
    Viable (assignment (Expr.read allowed) first) (languageBehind first) := by
  have reads : Viable (assignment (Expr.read allowed) first) (Kind.language .assign * endingLanguage) :=
    (Viable.expect _ .assign).bind (fun _ => ending_viable allowed _ _) exists_mem_endingLanguage
  apply reads.mono
  intro sentence member
  obtain ⟨_, ⟨equals, rfl⟩, _, ⟨ending, rfl⟩, rfl⟩ := Language.mem_mul.1 member
  exact ⟨.assign ⟨first, name⟩ equals ending, rfl⟩

theorem result_viable (word : first.keyword? = some .returnKw) :
    Viable (result (Expr.read allowed) first) (languageBehind first) := by
  apply (ending_viable allowed _ _).mono
  rintro _ ⟨ending, rfl⟩
  exact ⟨.returnValue ⟨first, word⟩ ending, rfl⟩

variable {deeper : Option (Consumer Stmt)} (viable : ∀ inner ∈ deeper, Viable inner.read language)
include viable

theorem conditional_viable (word : first.keyword? = some .ifKw) :
    Viable (conditional (Expr.read allowed) deeper first) (languageBehind first) := by
  have reads : Viable (conditional (Expr.read allowed) deeper first) (guardedLanguage * (alternativeLanguage * 1)) := by
    refine (guarded_viable viable allowed _).bind (fun _ => (alternative_viable viable).bind (fun other => ?_)
      exists_mem_one) (exists_mem_mul ⟨[], .inl rfl⟩ exists_mem_one)
    cases other <;> exact Viable.pure _
  apply reads.mono
  intro sentence member
  rw [mul_one] at member
  obtain ⟨_, ⟨guard, body, rfl⟩, _, rfl | ⟨other, alternative, rfl⟩, rfl⟩ := Language.mem_mul.1 member
  · exact ⟨.ifThen ⟨first, word⟩ guard body, by simp [Derivation.tokens]⟩
  · exact ⟨.ifElse ⟨first, word⟩ guard body other alternative, by simp [Derivation.tokens]⟩

theorem repetition_viable (word : first.keyword? = some .whileKw) :
    Viable (repetition (Expr.read allowed) deeper first) (languageBehind first) := by
  have reads : Viable (repetition (Expr.read allowed) deeper first) (guardedLanguage * 1) :=
    (guarded_viable viable allowed _).bind (fun _ => Viable.pure _) exists_mem_one
  apply reads.mono
  intro sentence member
  rw [mul_one] at member
  obtain ⟨guard, body, rfl⟩ := member
  exact ⟨.whileDo ⟨first, word⟩ guard body, rfl⟩

theorem behind?_viable {read : Reader Stmt} (starts : behind? (Expr.read allowed) deeper first = some read) :
    Viable read (languageBehind first) := by
  unfold behind? at starts
  split at starts
  · next word =>
    obtain rfl := Option.some.inj starts
    exact declaration_viable allowed word
  · next word =>
    obtain rfl := Option.some.inj starts
    exact conditional_viable allowed viable word
  · next word =>
    obtain rfl := Option.some.inj starts
    exact repetition_viable allowed viable word
  · next word =>
    obtain rfl := Option.some.inj starts
    exact result_viable allowed word
  · by_cases name : first.kind = .identifier
    · rw [if_pos name] at starts
      obtain rfl := Option.some.inj starts
      exact assignment_viable allowed name
    · rw [if_neg name] at starts
      contradiction

end

theorem statementWith_viable (allowed : Nat) {deeper : Option (Consumer Stmt)}
    (viable : ∀ inner ∈ deeper, Viable inner.read language) :
    Viable (statementWith (Expr.read allowed) deeper) language := by
  intro tokens
  have unexpected (tokens : List Token) : Explains language tokens
      (.error ⟨.statement, .statement⟩ tokens : EStateM.Result Fault (List Token) Stmt) := by
    refine ⟨[], rfl, ?_⟩
    rintro next ⟨derivation, head⟩
    obtain ⟨after, same⟩ := List.head?_eq_some_iff.1 head
    exact ⟨after, derivation, same⟩
  cases tokens with
  | nil => exact unexpected []
  | cons first rest =>
    simp only [statementWith]
    split
    · next read starts => exact (behind?_viable allowed viable starts rest).behind [first] fun sentence member => member
    · exact unexpected (first :: rest)

theorem statement_viable (allowed : Nat) : Viable (statement allowed).read language := by
  induction allowed with
  | zero => exact statementWith_viable 0 (by simp)
  | succ allowed ih => exact statementWith_viable (allowed + 1) (by simpa using ih)

end Stmt
end ScriptLens
