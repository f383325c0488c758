import ScriptLens.Command.Answer
import ScriptLens.Explorer.Document
import ScriptLens.Proofs.Outlining

/-!
What is printed about a source text, line by line, and that the explorer shows the same (`Request.reports_agree`). No
line is broken by what stands in it: neither tokens nor labels nor messages hold a line feed.
-/

namespace ScriptLens

namespace Text

/-- Without a line feed. -/
def Unbroken (text : String) : Prop := '\n' ∉ text.toList

instance (text : String) : Decidable (Unbroken text) := inferInstanceAs (Decidable ('\n' ∉ text.toList))

@[simp] theorem unbroken_append {front back : String} : Unbroken (front ++ back) ↔ Unbroken front ∧ Unbroken back := by
  simp [Unbroken]

theorem not_mem_toString {c : Char} (plain : ¬c.isDigit) (number : Nat) : c ∉ (toString number).toList := by
  intro member
  rw [show (toString number).toList = Nat.toDigits 10 number from Nat.toList_repr] at member
  exact plain (Nat.isDigit_of_mem_toDigits (by decide) (by decide) member)

theorem unbroken_toString (number : Nat) : Unbroken (toString number) := not_mem_toString (by decide) number

/-- The text is these lines, with a line feed behind each of them. -/
structure Consists (text : String) (lines : List String) : Prop where
  spelt : text.toList = lines.flatMap fun line => line.toList ++ ['\n']
  unbroken : ∀ line ∈ lines, Unbroken line

theorem Consists.append {front back : String} {lines lines' : List String} (first : Consists front lines)
    (later : Consists back lines') : Consists (front ++ back) (lines ++ lines') where
  spelt := by rw [String.toList_append, first.spelt, later.spelt, List.flatMap_append]
  unbroken := List.forall_mem_append.2 ⟨first.unbroken, later.unbroken⟩

theorem consists_line {line : String} (unbroken : Unbroken line) : Consists (line ++ "\n") [line] where
  spelt := by simp
  unbroken := List.forall_mem_singleton.2 unbroken

/-- One line for each item, one after the other. -/
theorem consists_foldl {α : Type} (line : α → String) {items : List α} (unbroken : ∀ item ∈ items, Unbroken (line item)) :
    Consists (items.foldl (fun text item => text ++ line item ++ "\n") "") (items.map line) := by
  have behind {text : String} {before : List String} (first : Consists text before) :
      Consists (items.foldl (fun text item => text ++ line item ++ "\n") text) (before ++ items.map line) := by
    induction items generalizing text before with
    | nil => simpa using first
    | cons item items ih =>
      rw [List.forall_mem_cons] at unbroken
      have next := ih unbroken.2 (first.append (consists_line unbroken.1))
      rwa [List.append_assoc, ← String.append_assoc] at next
  exact behind (show Consists "" [] from ⟨rfl, by simp⟩)

theorem exists_consists (chars : List Char) :
    ∃ first later, Consists (String.ofList chars ++ "\n") (first :: later) := by
  induction chars with
  | nil => exact ⟨"", [], by simp, by simp [Unbroken]⟩
  | cons c chars ih =>
    obtain ⟨first, later, spelt, unbroken⟩ := ih
    by_cases feed : c = '\n'
    · refine ⟨"", first :: later, ?_, List.forall_mem_cons.2 ⟨by simp [Unbroken], unbroken⟩⟩
      simpa [feed] using spelt
    · rw [List.forall_mem_cons] at unbroken
      refine ⟨String.ofList (c :: first.toList), later, ?_, List.forall_mem_cons.2 ⟨?_, unbroken.2⟩⟩
      · simpa using spelt
      · simpa [Unbroken, Ne.symm feed] using unbroken.1

end Text
open Text

theorem Kind.unbroken_description (kind : Kind) : Unbroken kind.description := by
  cases kind <;> decide

theorem Token.unbroken_description {token : Token} (solid : Unbroken token.text) : Unbroken token.description := by
  unfold description
  split
  all_goals simp only [unbroken_append, solid, Kind.unbroken_description, and_true]
  all_goals decide

namespace SyntaxError

theorem unbroken_message {error : SyntaxError} (solid : Unbroken error.found.text) : Unbroken error.message := by
  have production : Unbroken error.production.text := by
    cases error.production <;> decide
  have expected : Unbroken error.expected.text := by
    cases error.expected with
    | token kind => exact kind.unbroken_description
    | shallowerNesting =>
      simp only [Expected.text, unbroken_append, unbroken_toString]
      decide
    | _ => decide
  have found := Token.unbroken_description solid
  unfold message
  simp only [unbroken_append, unbroken_toString, production, expected, found, and_true]
  decide

end SyntaxError

theorem unbroken_of_mem_lex {source : String} {token : Token} (member : token ∈ lex source) : Unbroken token.text :=
  fun feed => (lexed_of_mem_lex token member).1.solid _ feed (by decide)

theorem unbroken_found {source : String} {error : SyntaxError} (member : error ∈ (Program.recover source).errors) :
    Unbroken error.found.text := by
  rcases Program.found_of_mem_recover member with real | ⟨last, -, ending⟩
  · exact unbroken_of_mem_lex real
  · rw [ending]
    exact List.not_mem_nil

/-- The line of a row, without its end. -/
def OutlineRow.shown (row : OutlineRow) : String := Text.blanks (2 * row.depth) ++ row.label

theorem Program.consists_outlineText {program : Program} (known : Stmt.AllFromText program) :
    Consists program.outlineText (program.outline.map OutlineRow.shown) := by
  have entries : program.outline.map OutlineRow.entry = Stmt.entriesOf 0 program := Stmt.map_entry_addAll 0 #[] program
  constructor
  · have line (row : OutlineRow) : OutlineRow.written row.entry = row.shown.toList ++ ['\n'] := by
      simp [OutlineRow.written, OutlineRow.entry, OutlineRow.shown, Text.blanks]
    rw [toList_outlineText, ← entries, List.flatMap_map, List.flatMap_map]
    simp only [line]
  · intro line member
    obtain ⟨row, among, rfl⟩ := List.mem_map.1 member
    have plain := Stmt.plain_entriesOf 0 program known row.entry (entries ▸ List.mem_map_of_mem among)
    exact unbroken_append.2 ⟨by simp [Unbroken, Text.blanks], plain.2⟩

namespace Response

theorem consists_lines (errors : List SyntaxError) (unbroken : ∀ error ∈ errors, Unbroken error.message) :
    Consists (lines errors) (errors.map SyntaxError.message) :=
  consists_foldl SyntaxError.message unbroken

theorem parsing_eq (file : String) : parsing file = "Parsing " ++ file ++ "..." ++ "\n" := by
  apply String.toList_injective
  simp [parsing]

/-- The line that says what is being read. Only the name of the file could break it. -/
theorem exists_consists_parsing (file : String) : ∃ progress, Consists (parsing file) progress ∧
    (Unbroken file → progress = ["Parsing " ++ file ++ "..."]) := by
  rw [parsing_eq]
  by_cases flat : Unbroken file
  · refine ⟨_, consists_line ?_, fun _ => rfl⟩
    simp only [unbroken_append, flat, and_true]
    decide
  · obtain ⟨first, later, consists⟩ := exists_consists ("Parsing " ++ file ++ "...").toList
    rw [String.ofList_toList] at consists
    exact ⟨first :: later, consists, fun flat' => absurd flat' flat⟩

/-- Nothing but one error is told, behind the lines that say what is being read. -/
structure TellsFirst (response : Response) (progress : List String) (error : SyntaxError) : Prop where
  output : response.output = ""
  errors : Consists response.errors (progress ++ [error.message])

/-- All rows of a document are shown, and all of its errors are told and counted. -/
structure TellsAll (response : Response) (progress : List String) (document : Explorer.Document) : Prop where
  output : response.output = document.recovery.program.outlineText
  rows : Consists response.output (document.outline.map OutlineRow.shown)
  errors : Consists response.errors (progress ++ (document.errors.map SyntaxError.message ++
    ["Found " ++ toString document.errors.length ++ " syntax error(s)."]))

variable {file source : String} {progress : List String} {error : SyntaxError}

theorem unbroken_of_mem_errors (member : error ∈ (Program.recover source).errors) : Unbroken error.message :=
  SyntaxError.unbroken_message (unbroken_found member)

theorem outline_tellsFirst (consists : Consists (parsing file) progress)
    (failed : Program.parse source = .error error) (member : error ∈ (Program.recover source).errors) :
    (outline file source).TellsFirst progress error := by
  have told := consists_lines [error] (List.forall_mem_singleton.2 (unbroken_of_mem_errors member))
  rw [outline, failed]
  exact ⟨rfl, consists.append told⟩

theorem recoveredOutline_tellsAll (consists : Consists (parsing file) progress) {first : SyntaxError}
    {later : List SyntaxError} (errors : (Program.recover source).errors = first :: later) :
    (recoveredOutline file source).TellsAll progress (.ofSource source) := by
  have count : Unbroken ("Found " ++ toString (first :: later).length ++ " syntax error(s).") := by
    simp only [unbroken_append, unbroken_toString, and_true]
    decide
  have told := consists_lines (first :: later) fun error member => unbroken_of_mem_errors (errors ▸ member)
  have counted := consists.append (told.append (consists_line count))
  have same : parsing file ++ lines (first :: later) ++ "Found " ++ toString (first :: later).length ++
      " syntax error(s).\n" = parsing file ++ (lines (first :: later) ++
        ("Found " ++ toString (first :: later).length ++ " syntax error(s)." ++ "\n")) := by
    apply String.toList_injective
    simp
  have all : (Explorer.Document.ofSource source).errors = first :: later := errors
  simp only [recoveredOutline, errors]
  refine ⟨rfl, Program.consists_outlineText (Program.allFromText_recover source), ?_⟩
  rw [same, all]
  exact counted

end Response

namespace Request
open Response Explorer

/-- Printing the first error, printing all of them and exploring find the same. Where there are none, the two ways to
print do not differ at all. -/
theorem reports_agree (file source : String) :
    let document : Document := .ofSource source
    ∃ plain recovered : Response,
      (⟨some .tree, false, file⟩ : Request).answer source = .response plain ∧
      (⟨some .tree, true, file⟩ : Request).answer source = .response recovered ∧
      (plain.code = 0 ↔ document.errorLines = []) ∧ (recovered.code = 0 ↔ document.errorLines = []) ∧
      (document.errorLines = [] → plain = recovered) ∧
      (document.errorLines ≠ [] → ∃ progress first later,
        Consists (parsing file) progress ∧ (Unbroken file → progress = ["Parsing " ++ file ++ "..."]) ∧
        document.errors = first :: later ∧ plain.TellsFirst progress first ∧
        recovered.TellsAll progress document) := by
  intro document
  have verdict : Program.parse source = (Program.recover source).verdict := Input.parse_eq_verdict _
  have found : document.errors = (Program.recover source).errors := rfl
  refine ⟨_, _, rfl, rfl, ?_⟩
  cases errors : (Program.recover source).errors with
  | nil =>
    have none : document.errorLines = [] := by rw [Document.errorLines, found, errors, List.map_nil]
    have read := verdict.trans (Recovery.verdict_eq_ok.2 ⟨errors, rfl⟩)
    simp [none, outline, recoveredOutline, read, errors, parsed]
  | cons first later =>
    have some : document.errorLines ≠ [] := by simp [Document.errorLines, found, errors]
    have failed := verdict.trans (Recovery.verdict_eq_error.2 ⟨later, errors⟩)
    obtain ⟨progress, consists, single⟩ := exists_consists_parsing file
    have member : first ∈ (Program.recover source).errors := errors ▸ List.mem_cons_self
    refine ⟨?_, ?_, fun none => absurd none some, fun _ => ⟨progress, first, later, consists, single, ?_⟩⟩
    · simp [outline, failed, some]
    · simp [recoveredOutline, errors, some]
    · exact ⟨found.trans errors, outline_tellsFirst consists failed member, recoveredOutline_tellsAll consists errors⟩

end Request
end ScriptLens
