import ScriptLens.Proofs.Agreement
import ScriptLens.Proofs.Likeness
import ScriptLens.Proofs.Reprint

/-!
What is known of syntax that was read from a text (`Program.allFromText_recover`). Its names and expressions are spelt
as such, so an expression is known from the characters it is printed with (`Expr.FromText.text_eq_iff`).
-/

namespace ScriptLens

namespace Expr

/-- Built as an expression that was read from a text. -/
def FromText (e : Expr) : Prop := e.WellSpelt ∧ e.Tight

namespace FromText

variable {e e' : Expr}

theorem lineless (known : e.FromText) : '\n' ∉ e.chars := by
  obtain ⟨spelt, tight⟩ := known
  induction e with
  | leaf token =>
    obtain ⟨place, single⟩ := tight
    obtain ⟨lexeme, -⟩ := lexed_of_mem_lex _ (single ▸ List.mem_singleton_self _)
    intro feed
    exact lexeme.solid _ feed (by decide)
  | negate op operand ih =>
    obtain ⟨-, text, spelt⟩ := spelt
    simp [chars, text, ih spelt tight]
  | binary op left right ihLeft ihRight =>
    have operators : ∀ pair ∈ binaryOperators, '\n' ∉ pair.2.toList := by decide
    simp [chars, operators _ spelt.1, ihLeft spelt.2.1 tight.1, ihRight spelt.2.2 tight.2]

/-- The tokens of the printed form are those of one derivation. -/
theorem unplaced_of_chars_eq (known : e.FromText) (known' : e'.FromText) (same : e.chars = e'.chars) :
    e.unplaced = e'.unplaced := by
  obtain ⟨derivation, tokens, -, alike⟩ := exists_derivation known.1 .start
  obtain ⟨derivation', tokens', -, alike'⟩ := exists_derivation known'.1 .start
  have whole : derivation.tokens ++ [] = derivation'.tokens ++ [] := by rw [tokens, tokens', same]
  obtain ⟨rfl, -⟩ := Derivation.operand_unique derivation derivation' [] [] whole
  rw [trimmed_of_tight known.2, sameStructure_iff] at alike
  rw [trimmed_of_tight known'.2, sameStructure_iff] at alike'
  exact alike.trans alike'.symm

theorem text_eq_iff (known : e.FromText) (known' : e'.FromText) : e.text = e'.text ↔ e.sameStructure e' := by
  constructor
  · intro same
    exact sameStructure_iff.2 (known.unplaced_of_chars_eq known' (by rw [← toList_text, same, toList_text]))
  · exact text_eq_of_sameStructure

theorem of_mem_parts (known : e.FromText) : ∀ part ∈ e.parts, part.FromText := by
  obtain ⟨spelt, tight⟩ := known
  induction e with
  | leaf token => simpa [parts] using ⟨spelt, tight⟩
  | negate op operand ih => exact List.forall_mem_cons.2 ⟨⟨spelt, tight⟩, ih spelt.2.2 tight⟩
  | binary op left right ihLeft ihRight =>
    refine List.forall_mem_cons.2 ⟨⟨spelt, tight⟩, List.forall_mem_append.2 ⟨?_, ?_⟩⟩
    · exact ihLeft spelt.2.1 tight.1
    · exact ihRight spelt.2.2 tight.2

end FromText
end Expr

namespace Stmt

mutual

/-- Built as a statement that was read from a text. -/
def FromText : Stmt → Prop
  | declare name value _ => IsName name.text.toList ∧ value.FromText
  | assign name value _ => IsName name.text.toList ∧ value.FromText
  | ifThen condition body _ => condition.FromText ∧ AllFromText body
  | ifElse condition body other _ => condition.FromText ∧ AllFromText body ∧ AllFromText other
  | whileDo condition body _ => condition.FromText ∧ AllFromText body
  | returnValue value _ => value.FromText

def AllFromText : List Stmt → Prop
  | [] => True
  | stmt :: rest => stmt.FromText ∧ AllFromText rest

end

mutual

theorem fromText_of_mem_exprs : (stmt : Stmt) → stmt.FromText → ∀ e ∈ stmt.exprs, e.FromText
  | declare name value _, ⟨_, known⟩ => by simpa [exprs] using known
  | assign name value _, ⟨_, known⟩ => by simpa [exprs] using known
  | ifThen condition body _, ⟨known, inside⟩ =>
    List.forall_mem_cons.2 ⟨known, fromText_of_mem_exprsOf body inside⟩
  | ifElse condition body other _, ⟨known, inside, inside'⟩ =>
    List.forall_mem_cons.2 ⟨known, List.forall_mem_append.2
      ⟨fromText_of_mem_exprsOf body inside, fromText_of_mem_exprsOf other inside'⟩⟩
  | whileDo condition body _, ⟨known, inside⟩ =>
    List.forall_mem_cons.2 ⟨known, fromText_of_mem_exprsOf body inside⟩
  | returnValue value _, known => by
    change value.FromText at known
    simpa [exprs] using known

theorem fromText_of_mem_exprsOf : (stmts : List Stmt) → AllFromText stmts → ∀ e ∈ exprsOf stmts, e.FromText
  | [], _ => by simp [exprsOf]
  | stmt :: rest, ⟨known, later⟩ =>
    List.forall_mem_append.2 ⟨fromText_of_mem_exprs stmt known, fromText_of_mem_exprsOf rest later⟩

end

theorem isName_of_lexed (name : Token.Of .identifier) (lexed : name.1.Lexed) : IsName name.1.text.toList := by
  have spells := lexed.2
  rw [name.2] at spells
  exact spells.1

theorem fromText_ending {ending : Expr.Terminated} (lexed : ∀ token ∈ ending.tokens, token.Lexed) :
    ending.value.expr.FromText :=
  ending.value.wellSpelt fun token member => lexed token (by simp [Expr.Terminated.tokens, member])

theorem fromText_guard {guard : Expr.Guard} (lexed : ∀ token ∈ guard.tokens, token.Lexed) :
    guard.condition.expr.FromText :=
  guard.condition.wellSpelt fun token member => lexed token (by simp [Expr.Guard.tokens, member])

mutual

/-- What was read from a text is built as it should be. -/
theorem Derivation.fromText : (derivation : Derivation) → (∀ token ∈ derivation.tokens, token.Lexed) →
    derivation.stmt.FromText
  | .declare word name equals ending, lexed => by
    simp only [Derivation.tokens, List.forall_mem_cons] at lexed
    exact ⟨isName_of_lexed name lexed.2.1, fromText_ending lexed.2.2.2⟩
  | .assign name equals ending, lexed => by
    simp only [Derivation.tokens, List.forall_mem_cons] at lexed
    exact ⟨isName_of_lexed name lexed.1, fromText_ending lexed.2.2⟩
  | .ifThen word guard body, lexed => by
    simp only [Derivation.tokens, List.forall_mem_cons, List.forall_mem_append] at lexed
    exact ⟨fromText_guard lexed.2.1, body.fromText lexed.2.2⟩
  | .ifElse word guard body other alternative, lexed => by
    simp only [Derivation.tokens, List.forall_mem_cons, List.forall_mem_append] at lexed
    exact ⟨fromText_guard lexed.2.1.1, body.fromText lexed.2.1.2, alternative.fromText lexed.2.2.2⟩
  | .whileDo word guard body, lexed => by
    simp only [Derivation.tokens, List.forall_mem_cons, List.forall_mem_append] at lexed
    exact ⟨fromText_guard lexed.2.1, body.fromText lexed.2.2⟩
  | .returnValue word ending, lexed => by
    simp only [Derivation.tokens, List.forall_mem_cons] at lexed
    exact fromText_ending lexed.2

theorem Block.fromText : (block : Block) → (∀ token ∈ block.tokens, token.Lexed) → AllFromText block.stmts
  | .braces opening inside closing, lexed =>
    allFromText_stmtsOf inside fun token member => lexed token (by simp [Block.tokens, member])

theorem allFromText_stmtsOf : (derivations : List Derivation) → (∀ token ∈ tokensOf derivations, token.Lexed) →
    AllFromText (stmtsOf derivations)
  | [], _ => trivial
  | derivation :: others, lexed => by
    rw [tokensOf, List.forall_mem_append] at lexed
    exact ⟨derivation.fromText lexed.1, allFromText_stmtsOf others lexed.2⟩

end

end Stmt

namespace Program
open Stmt

theorem allFromText_recover (source : String) : AllFromText (recover source).program := by
  obtain ⟨derivations, program, inside, -⟩ := @exists_derivations_of_read (.ofSource source) _ (.inr rfl)
  rw [recover, ← program]
  apply allFromText_stmtsOf
  intro token among
  have read := inside.subset among
  rw [Input.ahead_ofSource] at read
  exact lexed_of_mem_lex token read

/-- What an error finds is a token of the source, or stands for the end right behind the last one. -/
theorem found_of_mem_recover {source : String} {error : SyntaxError} (member : error ∈ (recover source).errors) :
    error.found ∈ lex source ∨
      ∃ last, (lex source).getLast? = some last ∧ error.found = .endOfInput last.finish := by
  have endless := Lexer.endless_lex source
  have found := found_of_mem_salvage member
  rw [Input.ahead_ofSource] at found
  rcases found with impossible | real | ⟨present, ending⟩
  · exact absurd impossible List.not_mem_nil
  · exact .inl real
  · have last := List.getLast?_eq_some_getLast present
    refine .inr ⟨_, last, ending.trans ?_⟩
    have ahead := Input.ahead_ofTokens endless
    simp only [Input.ofSource, Input.ofTokens] at ahead ⊢
    rw [ahead, Input.find_endOfInput_eq_none endless, last]
    rfl

/-- A program that is read to the end is the one that is read with or without errors. -/
theorem recover_of_parse {source : String} {program : Program} (read : parse source = .ok program) :
    (recover source).program = program := by
  rw [parse, Input.parse_eq_verdict] at read
  exact (Recovery.verdict_eq_ok.1 read).2

end Program
end ScriptLens
