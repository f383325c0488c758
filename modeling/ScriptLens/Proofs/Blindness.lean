import ScriptLens.Proofs.Agreement
import ScriptLens.Proofs.Outlining
import ScriptLens.Proofs.Reading.Unplaced

/-!
Two lists of tokens that differ in places only. The same is read of both, and the same faults are found at the same
indices (`Program.faults_unplaced`, `Program.salvage_unplaced`).
-/

namespace ScriptLens
open Stmt

namespace Program

/-- The faults on the way to the end, each with the index where it is found among so many tokens in all. -/
def faults (total : Nat) : List Token → List (Fault × Nat)
  | [] => []
  | token :: rest =>
    match _ : statement.read (token :: rest) with
    | .ok _ after => faults total after
    | .error fault after => (fault, total - after.length) :: faults total (resume after)
termination_by tokens => tokens.length
decreasing_by
  · exact statement.consumes ‹_›
  · exact resume_shorter ‹_›

theorem faults_of_ok {token : Token} {rest after : List Token} {next : Stmt}
    (reads : statement.read (token :: rest) = .ok next after) (total : Nat) :
    faults total (token :: rest) = faults total after := by
  rw [faults]
  split <;> grind

theorem faults_of_error {token : Token} {rest after : List Token} {fault : Fault}
    (fails : statement.read (token :: rest) = .error fault after) (total : Nat) :
    faults total (token :: rest) = (fault, total - after.length) :: faults total (resume after) := by
  rw [faults]
  split <;> grind

theorem index_le_of_mem_faults {total : Nat} {tokens : List Token} :
    ∀ place ∈ faults total tokens, place.2 ≤ total := by
  fun_induction faults total tokens with
  | case1 => simp
  | case2 token rest next after outcome ih => exact ih
  | case3 token rest fault after outcome ih => exact List.forall_mem_cons.2 ⟨Nat.sub_le .., ih⟩

theorem resume_unplaced (tokens : List Token) :
    resume (tokens.map Token.unplaced) = (resume tokens).map Token.unplaced := by
  induction tokens with
  | nil => rfl
  | cons token rest ih =>
    have opens : token.unplaced.opensStmt = token.opensStmt := rfl
    have kind : token.unplaced.kind = token.kind := rfl
    rw [List.map_cons, resume, resume, opens, kind, ih]
    split
    · rfl
    · split <;> rfl

/-- What comes of a statement in front of tokens without places. -/
theorem statement_unplaced (token : Token) (rest : List Token) :
    statement.read (token.unplaced :: rest.map Token.unplaced) =
      Reader.withoutPlaces unplaced (statement.read (token :: rest)) :=
  statement_blind nestingLimit (token :: rest)

theorem faults_unplaced (total : Nat) (tokens : List Token) :
    faults total (tokens.map Token.unplaced) = faults total tokens := by
  cases tokens with
  | nil => rfl
  | cons token rest =>
    have plain := statement_unplaced token rest
    rw [List.map_cons]
    cases outcome : statement.read (token :: rest) with
    | ok next after =>
      have shorter := statement.consumes outcome
      rw [outcome, Reader.withoutPlaces] at plain
      rw [faults_of_ok outcome, faults_of_ok plain]
      exact faults_unplaced total after
    | error fault after =>
      have shorter := resume_shorter outcome
      rw [outcome, Reader.withoutPlaces] at plain
      rw [faults_of_error outcome, faults_of_error plain, List.length_map, resume_unplaced]
      exact congrArg _ (faults_unplaced total (resume after))
termination_by tokens.length
decreasing_by all_goals exact shorter

theorem salvage_unplaced (stop stop' : Token) (before : List Stmt) (errors errors' : List SyntaxError)
    (tokens : List Token) :
    (salvage stop' (unplacedAll before) errors' (tokens.map Token.unplaced)).program =
      unplacedAll (salvage stop before errors tokens).program := by
  cases tokens with
  | nil =>
    rw [List.map_nil, salvage, salvage]
    simp only [unplacedAll_eq_map, List.map_reverse]
  | cons token rest =>
    have plain := statement_unplaced token rest
    rw [List.map_cons]
    cases outcome : statement.read (token :: rest) with
    | ok next after =>
      have shorter := statement.consumes outcome
      rw [outcome, Reader.withoutPlaces] at plain
      rw [salvage_of_ok outcome, salvage_of_ok plain]
      exact salvage_unplaced stop stop' (next :: before) errors errors' after
    | error fault after =>
      have shorter := resume_shorter outcome
      rw [outcome, Reader.withoutPlaces] at plain
      rw [salvage_of_error outcome, salvage_of_error plain, resume_unplaced]
      exact salvage_unplaced stop stop' before _ _ (resume after)
termination_by tokens.length
decreasing_by all_goals exact shorter

end Program

namespace Input

/-- The faults of a list of tokens, with the indices where they are found. -/
def faults (tokens : List Token) : List (Fault × Nat) :=
  Program.faults (ofTokens tokens).ahead.length (ofTokens tokens).ahead

/-- A fault together with the token at its index, or with the end behind the last token. -/
def errorAt (tokens : List Token) (place : Fault × Nat) : SyntaxError :=
  ⟨place.1, tokens[place.2]?.getD (ofTokens tokens).stop⟩

/-- The token in front, where the last of the tokens that are read are left. -/
theorem getD_eq_headD {tokens after : List Token} (suffix : after <:+ (ofTokens tokens).ahead) :
    tokens[(ofTokens tokens).ahead.length - after.length]?.getD (ofTokens tokens).stop =
      after.headD (ofTokens tokens).stop := by
  obtain ⟨front, same⟩ := suffix
  have whole : front ++ (after ++ tokens.dropWhile fun token => token.kind != .endOfInput) = tokens := by
    rw [← List.append_assoc, same]
    exact List.takeWhile_append_dropWhile
  have index : (ofTokens tokens).ahead.length - after.length = front.length := by
    rw [← same, List.length_append]
    omega
  have here : tokens[front.length]? = (after ++ tokens.dropWhile fun token => token.kind != .endOfInput)[0]? := by
    conv => lhs; rw [← whole]
    rw [List.getElem?_append_right (Nat.le_refl _), Nat.sub_self]
  rw [index, here, ← List.head?_eq_getElem?]
  cases after with
  | cons token later => rfl
  | nil =>
    -- Nothing is left, so a token behind those that are read can only be the first that stands for the end.
    have first : (tokens.dropWhile fun token => token.kind != .endOfInput).head? =
        tokens.find? fun token => token.kind == .endOfInput :=
      (List.find?_eq_head?_dropWhile_not (fun token : Token => token.kind == .endOfInput) tokens).symm
    show ((tokens.dropWhile fun token => token.kind != .endOfInput).head?).getD _ = (ofTokens tokens).stop
    rw [first, ofTokens]
    cases tokens.find? fun token => token.kind == .endOfInput <;> rfl

theorem errors_salvage {tokens ahead : List Token} (suffix : ahead <:+ (ofTokens tokens).ahead)
    (before : List Stmt) (errors : List SyntaxError) :
    (Program.salvage (ofTokens tokens).stop before errors ahead).errors =
      errors.reverse ++ (Program.faults (ofTokens tokens).ahead.length ahead).map (errorAt tokens) := by
  generalize stop : (ofTokens tokens).stop = last
  fun_induction Program.salvage last before errors ahead with
  | case1 => simp [Program.faults]
  | case2 before errors token rest next after outcome ih =>
    have forward := Program.statement.forward (token :: rest)
    rw [outcome] at forward
    rw [Program.faults_of_ok outcome]
    exact ih (forward.trans suffix)
  | case3 before errors token rest fault after outcome ih =>
    have forward := Program.statement.forward (token :: rest)
    rw [outcome] at forward
    have left : after <:+ (ofTokens tokens).ahead := forward.trans suffix
    have found := getD_eq_headD left
    rw [stop] at found
    rw [ih ((Program.resume_suffix after).trans left), Program.faults_of_error outcome, List.map_cons, errorAt, stop,
      found]
    simp

theorem errors_recover (tokens : List Token) :
    (ofTokens tokens).recover.1.errors = (faults tokens).map (errorAt tokens) :=
  errors_salvage List.suffix_rfl [] []

theorem index_le_of_mem_faults {tokens : List Token} : ∀ place ∈ faults tokens, place.2 ≤ tokens.length :=
  fun place member => (Program.index_le_of_mem_faults place member).trans (List.takeWhile_prefix _).length_le

section
variable {tokens others : List Token} (alike : List.Forall₂ Token.Same tokens others)
include alike

theorem ahead_alike :
    (ofTokens tokens).ahead.map Token.unplaced = (ofTokens others).ahead.map Token.unplaced := by
  show (tokens.takeWhile _).map _ = (others.takeWhile _).map _
  induction alike with
  | nil => rfl
  | @cons token other tokens others same _ ih =>
    have kind : other.kind = token.kind := same.1.symm
    rw [List.takeWhile_cons, List.takeWhile_cons, kind]
    split
    · rw [List.map_cons, List.map_cons, ih, Token.same_iff.1 same]
    · rfl

theorem faults_alike : faults others = faults tokens := by
  have ahead := ahead_alike alike
  have length : (ofTokens tokens).ahead.length = (ofTokens others).ahead.length := by
    simpa using congrArg List.length ahead
  rw [faults, faults, ← Program.faults_unplaced _ (ofTokens others).ahead, ← ahead, Program.faults_unplaced, length]

theorem program_alike :
    unplacedAll (ofTokens tokens).recover.1.program = unplacedAll (ofTokens others).recover.1.program := by
  calc
    _ = (Program.salvage (ofTokens tokens).stop [] [] ((ofTokens tokens).ahead.map Token.unplaced)).program :=
      (Program.salvage_unplaced _ _ [] [] [] _).symm
    _ = (Program.salvage (ofTokens tokens).stop [] [] ((ofTokens others).ahead.map Token.unplaced)).program := by
      rw [ahead_alike alike]
    _ = _ := Program.salvage_unplaced _ _ [] [] [] _

end
end Input

namespace Program

/-- Of tokens that differ in places only the same is read: to the end of both, or up to the same fault at the same
index. Reading that goes on finds the same faults at the same indices, and programs with the same outline. -/
theorem reads_alike {tokens others : List Token} (alike : List.Forall₂ Token.Same tokens others) :
    ((∃ program program', (Input.ofTokens tokens).parse.1 = .ok program ∧
        (Input.ofTokens others).parse.1 = .ok program' ∧ unplacedAll program = unplacedAll program') ∨
      ∃ place ∈ (Input.faults tokens).head?, (Input.ofTokens tokens).parse.1 = .error (Input.errorAt tokens place) ∧
        (Input.ofTokens others).parse.1 = .error (Input.errorAt others place)) ∧
    Input.faults others = Input.faults tokens ∧
    (∀ place ∈ Input.faults tokens, place.2 ≤ tokens.length) ∧
    (Input.ofTokens tokens).recover.1.errors = (Input.faults tokens).map (Input.errorAt tokens) ∧
    (Input.ofTokens others).recover.1.errors = (Input.faults tokens).map (Input.errorAt others) ∧
    unplacedAll (Input.ofTokens tokens).recover.1.program = unplacedAll (Input.ofTokens others).recover.1.program ∧
    (Input.ofTokens tokens).recover.1.program.outlineText = (Input.ofTokens others).recover.1.program.outlineText := by
  have programs := Input.program_alike alike
  have found := Input.errors_recover tokens
  have found' := Input.errors_recover others
  rw [Input.faults_alike alike] at found'
  refine ⟨?_, Input.faults_alike alike, Input.index_le_of_mem_faults, found, found', programs,
    outlineText_eq_of_unplaced programs⟩
  rw [Input.parse_eq_verdict, Input.parse_eq_verdict]
  cases faults : Input.faults tokens with
  | nil =>
    rw [faults] at found found'
    exact .inl ⟨_, _, Recovery.verdict_eq_ok.2 ⟨found, rfl⟩, Recovery.verdict_eq_ok.2 ⟨found', rfl⟩, programs⟩
  | cons place later =>
    rw [faults] at found found'
    exact .inr ⟨place, rfl, Recovery.verdict_eq_error.2 ⟨_, found⟩, Recovery.verdict_eq_error.2 ⟨_, found'⟩⟩

/-- A brace too many in front of a statement, and the same tokens all at one place. -/
theorem reads_alike_brace :
    let brace (place : Location) : Token := ⟨.rightBrace, "\x7d", place⟩
    let word (place : Location) : Token := ⟨.keyword, "return", place⟩
    let name (place : Location) : Token := ⟨.identifier, "a", place⟩
    let semicolon (place : Location) : Token := ⟨.semicolon, ";", place⟩
    let tokens := [brace ⟨1, 1⟩, word ⟨1, 2⟩, name ⟨1, 9⟩, semicolon ⟨1, 10⟩]
    let others := [brace ⟨7, 3⟩, word ⟨7, 3⟩, name ⟨7, 3⟩, semicolon ⟨7, 3⟩]
    List.Forall₂ Token.Same tokens others ∧ Input.faults tokens = [(⟨.statement, .statement⟩, 0)] ∧
      (Input.ofTokens others).parse.1 = .error ⟨⟨.statement, .statement⟩, brace ⟨7, 3⟩⟩ ∧
      (Input.ofTokens others).recover.1.errors = [⟨⟨.statement, .statement⟩, brace ⟨7, 3⟩⟩] ∧
      (Input.ofTokens tokens).recover.1.program.outlineText = (Input.ofTokens others).recover.1.program.outlineText := by
  intro brace word name semicolon tokens others
  have alike : List.Forall₂ Token.Same tokens others :=
    .cons ⟨rfl, rfl⟩ (.cons ⟨rfl, rfl⟩ (.cons ⟨rfl, rfl⟩ (.cons ⟨rfl, rfl⟩ .nil)))
  have endless : Input.Endless tokens := by simp [Input.Endless, tokens, brace, word, name, semicolon]
  have places : Input.faults tokens = [(⟨.statement, .statement⟩, 0)] := by
    have fails : statement.read tokens = .error ⟨.statement, .statement⟩ tokens := rfl
    let value : Expr.Derivation .whole :=
      .single (.single (.single (.single (.single (.single (.leaf ⟨name ⟨1, 9⟩, .inr (.inl rfl)⟩))))))
    have reads : statement.read [word ⟨1, 2⟩, name ⟨1, 9⟩, semicolon ⟨1, 10⟩] =
        .ok (.returnValue (.leaf (name ⟨1, 9⟩)) ⟨1, 2⟩) [] :=
      statement_eq_ok_iff.2
        ⟨.returnValue ⟨word ⟨1, 2⟩, rfl⟩ ⟨value, ⟨semicolon ⟨1, 10⟩, rfl⟩⟩, rfl, trivial, by decide, rfl⟩
    have resumed : resume tokens = [word ⟨1, 2⟩, name ⟨1, 9⟩, semicolon ⟨1, 10⟩] := by
      simp [resume, tokens, brace, Token.opensStmt, Token.keyword?]
    rw [Input.faults, Input.ahead_ofTokens endless, faults_of_error fails, resumed, faults_of_ok reads, faults]
    rfl
  obtain ⟨outcome, -, -, -, errors, -, outlines⟩ := reads_alike alike
  rw [places] at outcome errors
  rcases outcome with ⟨program, -, reads, -⟩ | ⟨place, first, -, fails⟩
  · have verdict := Input.parse_eq_verdict (Input.ofTokens tokens)
    have found := Input.errors_recover tokens
    rw [reads, eq_comm, Recovery.verdict_eq_ok, found, places] at verdict
    simp at verdict
  · obtain rfl := Option.some.inj first
    exact ⟨alike, places, fails, errors, outlines⟩

end Program
end ScriptLens
