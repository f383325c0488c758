import Mathlib.Computability.Language
import ScriptLens.Proofs.Grammar.Stmt
import ScriptLens.Proofs.Reading.Outcome

/-!
Readers that keep to a language. What such a reader takes is a sentence of it. Where it fails, what it has
taken goes on to a sentence with every token that was expected there.
-/

namespace ScriptLens

/-- The tokens that satisfy an expectation: any token that can start what is expected. -/
def Expected.Admits : Expected → Token → Prop
  | .statement, next => ∃ derivation : Stmt.Derivation, derivation.tokens.head? = some next
  | .expression, next => ∃ derivation : Expr.Derivation .whole, derivation.tokens.head? = some next
  | .identifier, next => next.kind = .identifier
  | .token kind, next => next.kind = kind
  | .shallowerNesting, _ => False

/-- The sentences of a single token. -/
def Kind.language (kind : Kind) : Language Token := {sentence | ∃ token : Token.Of kind, sentence = [token.1]}

theorem Kind.exists_mem_language (kind : Kind) : ∃ sentence, sentence ∈ kind.language :=
  ⟨_, ⟨⟨kind, "", .start⟩, rfl⟩, rfl⟩

theorem Reader.exists_mem_mul {language more : Language Token} (first : ∃ sentence, sentence ∈ language)
    (second : ∃ sentence, sentence ∈ more) : ∃ sentence, sentence ∈ language * more := by
  obtain ⟨front, member⟩ := first
  obtain ⟨back, member'⟩ := second
  exact ⟨front ++ back, Language.append_mem_mul member member'⟩

def Expr.language (layer : Expr.Layer) : Language Token :=
  {sentence | ∃ derivation : Expr.Derivation layer, derivation.tokens = sentence}

/-- Operators with their right operands. -/
def Expr.linksLanguage : Language Token := {sentence | ∃ links : List Expr.Link, links.flatMap Expr.Link.tokens = sentence}

namespace Stmt

def language : Language Token := {sentence | ∃ derivation : Derivation, derivation.tokens = sentence}

/-- Values with their semicolons. -/
def endingLanguage : Language Token := {sentence | ∃ ending : Expr.Terminated, ending.tokens = sentence}

/-- Conditions with the blocks behind them. -/
def guardedLanguage : Language Token :=
  {sentence | ∃ (guard : Expr.Guard) (body : Block), guard.tokens ++ body.tokens = sentence}

/-- Second branches, or nothing. -/
def alternativeLanguage : Language Token :=
  {sentence | sentence = [] ∨ ∃ (other : Token.Word .elseKw) (body : Block), other.1 :: body.tokens = sentence}

def blockLanguage : Language Token := {sentence | ∃ block : Block, block.tokens = sentence}

/-- Statements and the closing brace behind them. -/
def closedLanguage : Language Token :=
  {sentence | ∃ derivations, ∃ closing : Token.Of .rightBrace, tokensOf derivations ++ [closing.1] = sentence}

end Stmt

namespace Reader

variable {α β : Type}

/-- What came of reading some tokens, as a language explains it. -/
def Explains (language : Language Token) (tokens : List Token) : EStateM.Result Fault (List Token) α → Prop
  | .ok _ rest => ∃ sentence ∈ language, tokens = sentence ++ rest
  | .error fault rest => ∃ before, tokens = before ++ rest ∧
      ∀ next, fault.expected.Admits next → ∃ after, before ++ next :: after ∈ language

def Viable (read : Reader α) (language : Language Token) : Prop :=
  ∀ tokens, Explains language tokens (read tokens)

variable {language more whole : Language Token}

/-- Reading goes on behind tokens that have been read. -/
theorem Explains.behind {tokens : List Token} {outcome : EStateM.Result Fault (List Token) α}
    (explained : Explains language tokens outcome) (front : List Token)
    (included : ∀ sentence ∈ language, front ++ sentence ∈ whole) : Explains whole (front ++ tokens) outcome := by
  cases outcome with
  | ok value rest =>
    obtain ⟨sentence, member, rfl⟩ := explained
    exact ⟨front ++ sentence, included sentence member, (List.append_assoc ..).symm⟩
  | error fault rest =>
    obtain ⟨before, rfl, goesOn⟩ := explained
    refine ⟨front ++ before, (List.append_assoc ..).symm, fun next admitted => ?_⟩
    obtain ⟨after, member⟩ := goesOn next admitted
    exact ⟨after, by simpa only [List.append_assoc] using included _ member⟩

/-- A fault ends the reading of all that the sentence would have been a part of. -/
theorem Explains.within {tokens rest : List Token} {fault : Fault}
    (explained : Explains language tokens (.error fault rest : EStateM.Result Fault (List Token) α))
    (included : ∀ sentence ∈ language, ∃ behind, sentence ++ behind ∈ whole) :
    Explains whole tokens (.error fault rest : EStateM.Result Fault (List Token) β) := by
  obtain ⟨before, same, goesOn⟩ := explained
  refine ⟨before, same, fun next admitted => ?_⟩
  obtain ⟨after, member⟩ := goesOn next admitted
  obtain ⟨behind, member'⟩ := included _ member
  exact ⟨after ++ behind, by simpa only [List.append_assoc, List.cons_append] using member'⟩

theorem Explains.deep {tokens rest : List Token} {fault : Fault} (before : List Token) (same : tokens = before ++ rest)
    (deep : fault.expected = .shallowerNesting) :
    Explains language tokens (.error fault rest : EStateM.Result Fault (List Token) α) :=
  ⟨before, same, fun next admitted => by rw [deep] at admitted; exact admitted.elim⟩

namespace Viable

theorem mono {read : Reader α} (viable : Viable read language) (included : ∀ sentence ∈ language, sentence ∈ whole) :
    Viable read whole :=
  fun tokens => (viable tokens).behind [] included

theorem pure (value : α) : Viable (Pure.pure value) 1 := fun _ => ⟨[], rfl, rfl⟩

theorem take (kind : Kind) {fault : Fault} (right : ∀ next, fault.expected.Admits next → next.kind = kind) :
    Viable (Reader.take kind fault) kind.language := by
  have here (next : Token) (admitted : fault.expected.Admits next) : ∃ after, [] ++ next :: after ∈ kind.language :=
    ⟨[], ⟨next, right next admitted⟩, rfl⟩
  intro tokens
  cases tokens with
  | nil => exact ⟨[], rfl, here⟩
  | cons token rest =>
    by_cases same : token.kind = kind
    · rw [Reader.take, if_pos same]
      exact ⟨[token], ⟨⟨token, same⟩, rfl⟩, rfl⟩
    · rw [Reader.take, if_neg same]
      exact ⟨[], rfl, here⟩

theorem expect (production : Production) (kind : Kind) : Viable (Reader.expect production kind) kind.language :=
  take kind fun _ same => same

theorem identifier (production : Production) : Viable (Reader.identifier production) (Kind.language .identifier) :=
  take .identifier fun _ same => same

theorem bind {read : Reader α} {next : α → Reader β} (start : Viable read language)
    (later : ∀ value, Viable (next value) more) (possible : ∃ sentence, sentence ∈ more) :
    Viable (read >>= next) (language * more) := by
  intro tokens
  have explained := start tokens
  change Explains _ _ (EStateM.bind read next tokens)
  unfold EStateM.bind
  split
  · next value rest outcome =>
    rw [outcome] at explained
    obtain ⟨front, member, rfl⟩ := explained
    exact (later value rest).behind front fun sentence member' => Language.append_mem_mul member member'
  · next fault rest outcome =>
    rw [outcome] at explained
    obtain ⟨behind, member'⟩ := possible
    exact explained.within fun sentence member => ⟨behind, Language.append_mem_mul member member'⟩

theorem map {read : Reader α} (change : α → β) (viable : Viable read language) : Viable (change <$> read) language := by
  have mapped : Viable (change <$> read) (language * 1) := viable.bind (fun _ => pure _) ⟨[], rfl⟩
  rwa [mul_one] at mapped

end Viable
end Reader
end ScriptLens
