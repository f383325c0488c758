import ScriptLens.Program.Outline
import ScriptLens.Proofs.Provenance

/-!
What an outline tells about a program. Its rows can be told apart in the text (`OutlineRow.flatMap_written_injective`),
the depth of a row says where a body ends (`Stmt.entriesOf_injective`), and an expression is known from the characters
it is printed with. So the outline of a program that was read from a source leaves out nothing but the places.
-/

namespace ScriptLens

/-- A text is split in one way where a test fails for the first time. -/
theorem append_injective_of_test {α : Type} {test : α → Bool} {front front' back back' : List α}
    (inside : ∀ c ∈ front, test c) (inside' : ∀ c ∈ front', test c) (outside : ∀ c ∈ back.head?, ¬test c)
    (outside' : ∀ c ∈ back'.head?, ¬test c) (same : front ++ back = front' ++ back') :
    front = front' ∧ back = back' := by
  have taken {front back : List α} (inside : ∀ c ∈ front, test c) (outside : ∀ c ∈ back.head?, ¬test c) :
      (front ++ back).takeWhile test = front := by
    rw [List.takeWhile_append_of_pos inside]
    cases back with
    | nil => simp
    | cons c back => simp [outside c rfl]
  have fronts : front = front' := by rw [← taken inside outside, same, taken inside' outside']
  subst fronts
  exact ⟨rfl, List.append_cancel_left same⟩

/-- A text is split in one way where a character stands for the first time. -/
theorem append_injective_at {mark : Char} {front front' back back' : List Char} (free : mark ∉ front)
    (free' : mark ∉ front') (same : front ++ mark :: back = front' ++ mark :: back') : front = front' ∧ back = back' := by
  have inside {front : List Char} (free : mark ∉ front) : ∀ c ∈ front, (c != mark) := by
    intro c member
    simpa using fun here : c = mark => free (here ▸ member)
  obtain ⟨fronts, backs⟩ := append_injective_of_test (inside free) (inside free') (by simp) (by simp) same
  exact ⟨fronts, (List.cons.inj backs).2⟩

namespace OutlineRow

/-- A row without its place: its depth and the characters of its label. -/
def entry (row : OutlineRow) : Nat × List Char := (row.depth, row.label.toList)

/-- The line of such a row. -/
def written (entry : Nat × List Char) : List Char := List.replicate (2 * entry.1) ' ' ++ (entry.2 ++ ['\n'])

/-- A label that stands in one line and does not start with a blank. -/
def Plain (label : List Char) : Prop := (∃ c ∈ label.head?, c ≠ ' ') ∧ '\n' ∉ label

theorem written_injective {entry entry' : Nat × List Char} (plain : Plain entry.2) (plain' : Plain entry'.2)
    {rest rest' : List Char} (same : written entry ++ rest = written entry' ++ rest') :
    entry = entry' ∧ rest = rest' := by
  obtain ⟨depth, label⟩ := entry
  obtain ⟨depth', label'⟩ := entry'
  have starts {label : List Char} (plain : Plain label) (rest : List Char) :
      ∀ c ∈ (label ++ '\n' :: rest).head?, ¬(c == ' ') := by
    obtain ⟨⟨first, head, solid⟩, -⟩ := plain
    intro c member
    rw [List.head?_append, Option.mem_def.1 head] at member
    obtain rfl : first = c := Option.some.inj member
    simpa using solid
  have blank (count : Nat) : ∀ c ∈ List.replicate count ' ', (c == ' ') := by simp [List.mem_replicate]
  simp only [written, List.append_assoc, List.singleton_append] at same
  obtain ⟨blanks, labels⟩ := append_injective_of_test (blank _) (blank _) (starts plain rest) (starts plain' rest') same
  obtain ⟨rfl, rests⟩ := append_injective_at plain.2 plain'.2 labels
  have depths : depth = depth' := by
    have lengths := congrArg List.length blanks
    simp only [List.length_replicate] at lengths
    omega
  exact ⟨by rw [depths], rests⟩

theorem flatMap_written_injective {entries entries' : List (Nat × List Char)} (plain : ∀ entry ∈ entries, Plain entry.2)
    (plain' : ∀ entry ∈ entries', Plain entry.2) (same : entries.flatMap written = entries'.flatMap written) :
    entries = entries' := by
  have present (entry : Nat × List Char) (rest : List Char) : written entry ++ rest ≠ [] := by simp [written]
  induction entries generalizing entries' with
  | nil =>
    cases entries' with
    | nil => rfl
    | cons entry entries' => exact absurd same.symm (present entry _)
  | cons entry entries ih =>
    cases entries' with
    | nil => exact absurd same (present entry _)
    | cons entry' entries' =>
      rw [List.forall_mem_cons] at plain plain'
      obtain ⟨rfl, rest⟩ := written_injective plain.1 plain'.1 same
      rw [ih plain.2 plain'.2 rest]

end OutlineRow

namespace Stmt

mutual

/-- The rows of a statement, without places. -/
def entries (depth : Nat) : Stmt → List (Nat × List Char)
  | declare name value _ => [(depth, "VarDecl ".toList ++ (name.text.toList ++ (" = ".toList ++ value.chars)))]
  | assign name value _ => [(depth, "Assign ".toList ++ (name.text.toList ++ (" = ".toList ++ value.chars)))]
  | ifThen condition body _ =>
    (depth, "If ".toList ++ condition.chars) :: (depth + 1, "then".toList) :: entriesOf (depth + 2) body
  | ifElse condition body other _ =>
    (depth, "If ".toList ++ condition.chars) :: (depth + 1, "then".toList) ::
      (entriesOf (depth + 2) body ++ (depth + 1, "else".toList) :: entriesOf (depth + 2) other)
  | whileDo condition body _ => (depth, "While ".toList ++ condition.chars) :: entriesOf (depth + 1) body
  | returnValue value _ => [(depth, "Return ".toList ++ value.chars)]

def entriesOf (depth : Nat) : List Stmt → List (Nat × List Char)
  | [] => []
  | stmt :: rest => stmt.entries depth ++ entriesOf depth rest

end

mutual

theorem map_entry_add (depth : Nat) (rows : Array OutlineRow) : (stmt : Stmt) →
    (OutlineRow.add depth rows stmt).toList.map OutlineRow.entry =
      rows.toList.map OutlineRow.entry ++ stmt.entries depth
  | declare name value place => by simp [OutlineRow.add, OutlineRow.entry, entries, Expr.toList_text]
  | assign name value place => by simp [OutlineRow.add, OutlineRow.entry, entries, Expr.toList_text]
  | ifThen condition body place => by
    simp [OutlineRow.add, OutlineRow.entry, entries, Expr.toList_text, map_entry_addAll _ _ body]
  | ifElse condition body other place => by
    simp [OutlineRow.add, OutlineRow.entry, entries, Expr.toList_text, map_entry_addAll _ _ body,
      map_entry_addAll _ _ other]
  | whileDo condition body place => by
    simp [OutlineRow.add, OutlineRow.entry, entries, Expr.toList_text, map_entry_addAll _ _ body]
  | returnValue value place => by simp [OutlineRow.add, OutlineRow.entry, entries, Expr.toList_text]

theorem map_entry_addAll (depth : Nat) (rows : Array OutlineRow) : (stmts : List Stmt) →
    (OutlineRow.addAll depth rows stmts).toList.map OutlineRow.entry =
      rows.toList.map OutlineRow.entry ++ entriesOf depth stmts
  | [] => by simp [OutlineRow.addAll, entriesOf]
  | stmt :: rest => by
    rw [OutlineRow.addAll, map_entry_addAll depth _ rest, map_entry_add depth rows stmt, entriesOf, List.append_assoc]

end

end Stmt

theorem Program.toList_outlineText (program : Program) :
    program.outlineText.toList = (Stmt.entriesOf 0 program).flatMap OutlineRow.written := by
  have line (row : OutlineRow) : row.line.toList = OutlineRow.written row.entry := by
    simp [OutlineRow.line, OutlineRow.written, OutlineRow.entry, Text.blanks]
  have lines (text : String) (rows : List OutlineRow) :
      (rows.foldl (fun text row => text ++ row.line) text).toList =
        text.toList ++ (rows.map OutlineRow.entry).flatMap OutlineRow.written := by
    induction rows generalizing text with
    | nil => simp
    | cons row rows ih => rw [List.foldl_cons, ih]; simp [line]
  rw [outlineText, lines, outline, Stmt.map_entry_addAll]
  rfl

namespace Stmt

open OutlineRow

theorem lineless_of_isName {name : List Char} (letters : IsName name) : '\n' ∉ name := by
  intro member
  exact absurd (letters.2 _ member) (by decide)

mutual

theorem plain_entries (depth : Nat) : (stmt : Stmt) → stmt.FromText → ∀ entry ∈ stmt.entries depth, Plain entry.2
  | declare name value _, ⟨letters, known⟩ => by
    simp [entries, Plain, lineless_of_isName letters, known.lineless]
  | assign name value _, ⟨letters, known⟩ => by
    simp [entries, Plain, lineless_of_isName letters, known.lineless]
  | ifThen condition body _, ⟨known, inside⟩ => by
    have rows := plain_entriesOf (depth + 2) body inside
    simp only [entries, List.forall_mem_cons]
    exact ⟨by simp [Plain, known.lineless], by simp [Plain], rows⟩
  | ifElse condition body other _, ⟨known, inside, inside'⟩ => by
    have rows := plain_entriesOf (depth + 2) body inside
    have rows' := plain_entriesOf (depth + 2) other inside'
    simp only [entries, List.forall_mem_cons, List.forall_mem_append]
    exact ⟨by simp [Plain, known.lineless], by simp [Plain], rows, by simp [Plain], rows'⟩
  | whileDo condition body _, ⟨known, inside⟩ => by
    have rows := plain_entriesOf (depth + 1) body inside
    simp only [entries, List.forall_mem_cons]
    exact ⟨by simp [Plain, known.lineless], rows⟩
  | returnValue value _, known => by
    change value.FromText at known
    simp [entries, Plain, known.lineless]

theorem plain_entriesOf (depth : Nat) : (stmts : List Stmt) → AllFromText stmts →
    ∀ entry ∈ entriesOf depth stmts, Plain entry.2
  | [], _ => by simp [entriesOf]
  | stmt :: rest, ⟨known, later⟩ => by
    rw [entriesOf]
    exact List.forall_mem_append.2 ⟨plain_entries depth stmt known, plain_entriesOf depth rest later⟩

end

/-- Where rows of such a depth end: all that follows starts further out. -/
def Outward (depth : Nat) (rest : List (Nat × List Char)) : Prop := ∀ entry ∈ rest.head?, entry.1 < depth

theorem Outward.mono {depth deeper : Nat} {rest : List (Nat × List Char)} (outward : Outward depth rest)
    (below : depth ≤ deeper) : Outward deeper rest :=
  fun entry member => Nat.lt_of_lt_of_le (outward entry member) below

theorem exists_entries_cons (depth : Nat) (stmt : Stmt) :
    ∃ label inside, stmt.entries depth = (depth, label) :: inside := by
  cases stmt <;> exact ⟨_, _, rfl⟩

theorem outward_entriesOf {depth : Nat} {rest : List (Nat × List Char)} (stmts : List Stmt)
    (outward : Outward depth rest) : Outward (depth + 1) (entriesOf depth stmts ++ rest) := by
  cases stmts with
  | nil => exact outward.mono (Nat.le_succ depth)
  | cons stmt others =>
    obtain ⟨label, inside, same⟩ := exists_entries_cons depth stmt
    simp [Outward, entriesOf, same]

/-- Rows that are marked alike are told apart by what stands behind the mark. -/
theorem marked_injective {depth : Nat} {mark label label' : List Char} {rest rest' : List (Nat × List Char)}
    (same : (depth, mark ++ label) :: rest = (depth, mark ++ label') :: rest') : label = label' ∧ rest = rest' := by
  obtain ⟨rows, rests⟩ := List.cons.inj same
  exact ⟨List.append_cancel_left (Prod.mk.inj rows).2, rests⟩

theorem named_injective {name name' : Identifier} {value value' : Expr} (letters : IsName name.text.toList)
    (letters' : IsName name'.text.toList) (known : value.FromText) (known' : value'.FromText)
    (same : name.text.toList ++ (" = ".toList ++ value.chars) = name'.text.toList ++ (" = ".toList ++ value'.chars)) :
    name.unplaced = name'.unplaced ∧ value.unplaced = value'.unplaced := by
  obtain ⟨names, tail⟩ := append_injective_of_test letters.2 letters'.2 (by simp) (by simp) same
  refine ⟨?_, known.unplaced_of_chars_eq known' (List.append_cancel_left tail)⟩
  simp [Identifier.unplaced, String.toList_injective names]

mutual

/-- The rows of a statement tell what it is, and where they end. -/
theorem entries_injective (depth : Nat) : (stmt stmt' : Stmt) → stmt.FromText → stmt'.FromText →
    (rest rest' : List (Nat × List Char)) → Outward (depth + 1) rest → Outward (depth + 1) rest' →
    stmt.entries depth ++ rest = stmt'.entries depth ++ rest' → stmt.unplaced = stmt'.unplaced ∧ rest = rest'
  | declare name value _, stmt', ⟨letters, known⟩, known', rest, rest', _, _, same => by
    cases stmt' with
    | declare name' value' _ =>
      obtain ⟨labels, rests⟩ := marked_injective same
      obtain ⟨names, values⟩ := named_injective letters known'.1 known known'.2 labels
      exact ⟨by rw [unplaced, unplaced, names, values], rests⟩
    | _ => simp [entries] at same
  | assign name value _, stmt', ⟨letters, known⟩, known', rest, rest', _, _, same => by
    cases stmt' with
    | assign name' value' _ =>
      obtain ⟨labels, rests⟩ := marked_injective same
      obtain ⟨names, values⟩ := named_injective letters known'.1 known known'.2 labels
      exact ⟨by rw [unplaced, unplaced, names, values], rests⟩
    | _ => simp [entries] at same
  | ifThen condition body _, stmt', ⟨known, inside⟩, known', rest, rest', outward, outward', same => by
    cases stmt' with
    | ifThen condition' body' _ =>
      obtain ⟨labels, branches⟩ := marked_injective same
      have conditions := known.unplaced_of_chars_eq known'.1 labels
      obtain ⟨bodies, rests⟩ := entriesOf_injective (depth + 2) body body' inside known'.2 rest rest'
        (outward.mono (Nat.le_succ _)) (outward'.mono (Nat.le_succ _)) (List.cons.inj branches).2
      exact ⟨by rw [unplaced, unplaced, conditions, bodies], rests⟩
    -- Behind the body, the row of the second branch stands where rows can only be further out.
    | ifElse condition' body' other' _ =>
      simp only [entries, List.cons_append, List.append_assoc] at same
      obtain ⟨-, branches⟩ := marked_injective same
      obtain ⟨-, rests⟩ := entriesOf_injective (depth + 2) body body' inside known'.2.1 rest _
        (outward.mono (Nat.le_succ _)) (by simp [Outward]) (List.cons.inj branches).2
      exact absurd (outward _ (by rw [rests]; rfl)) (Nat.lt_irrefl _)
    | _ => simp [entries] at same
  | ifElse condition body other _, stmt', ⟨known, inside, inside'⟩, known', rest, rest', outward, outward', same => by
    cases stmt' with
    | ifThen condition' body' _ =>
      simp only [entries, List.cons_append, List.append_assoc] at same
      obtain ⟨-, branches⟩ := marked_injective same
      obtain ⟨-, rests⟩ := entriesOf_injective (depth + 2) body body' inside known'.2 _ rest'
        (by simp [Outward]) (outward'.mono (Nat.le_succ _)) (List.cons.inj branches).2
      exact absurd (outward' _ (by rw [← rests]; rfl)) (Nat.lt_irrefl _)
    | ifElse condition' body' other' _ =>
      simp only [entries, List.cons_append, List.append_assoc] at same
      obtain ⟨labels, branches⟩ := marked_injective same
      have conditions := known.unplaced_of_chars_eq known'.1 labels
      obtain ⟨bodies, tail⟩ := entriesOf_injective (depth + 2) body body' inside known'.2.1 _ _
        (by simp [Outward]) (by simp [Outward]) (List.cons.inj branches).2
      obtain ⟨others, rests⟩ := entriesOf_injective (depth + 2) other other' inside' known'.2.2 rest rest'
        (outward.mono (Nat.le_succ _)) (outward'.mono (Nat.le_succ _)) (List.cons.inj tail).2
      exact ⟨by rw [unplaced, unplaced, conditions, bodies, others], rests⟩
    | _ => simp [entries] at same
  | whileDo condition body _, stmt', ⟨known, inside⟩, known', rest, rest', outward, outward', same => by
    cases stmt' with
    | whileDo condition' body' _ =>
      obtain ⟨labels, rows⟩ := marked_injective same
      have conditions := known.unplaced_of_chars_eq known'.1 labels
      obtain ⟨bodies, rests⟩ :=
        entriesOf_injective (depth + 1) body body' inside known'.2 rest rest' outward outward' rows
      exact ⟨by rw [unplaced, unplaced, conditions, bodies], rests⟩
    | _ => simp [entries] at same
  | returnValue value _, stmt', known, known', rest, rest', _, _, same => by
    cases stmt' with
    | returnValue value' _ =>
      obtain ⟨labels, rests⟩ := marked_injective same
      have values := Expr.FromText.unplaced_of_chars_eq known known' labels
      exact ⟨by rw [unplaced, unplaced, values], rests⟩
    | _ => simp [entries] at same

theorem entriesOf_injective (depth : Nat) : (stmts stmts' : List Stmt) → AllFromText stmts → AllFromText stmts' →
    (rest rest' : List (Nat × List Char)) → Outward depth rest → Outward depth rest' →
    entriesOf depth stmts ++ rest = entriesOf depth stmts' ++ rest' →
    unplacedAll stmts = unplacedAll stmts' ∧ rest = rest'
  | [], [], _, _, _, _, _, _, same => ⟨rfl, same⟩
  | [], stmt' :: others', _, _, rest, rest', outward, _, same => by
    obtain ⟨label, inside, head⟩ := exists_entries_cons depth stmt'
    rw [entriesOf, entriesOf, head] at same
    exact absurd (outward (depth, label) (by rw [← List.nil_append rest, same]; rfl)) (Nat.lt_irrefl _)
  | stmt :: others, [], _, _, rest, rest', _, outward', same => by
    obtain ⟨label, inside, head⟩ := exists_entries_cons depth stmt
    rw [entriesOf, entriesOf, head] at same
    exact absurd (outward' (depth, label) (by rw [← List.nil_append rest', ← same]; rfl)) (Nat.lt_irrefl _)
  | stmt :: others, stmt' :: others', ⟨known, later⟩, ⟨known', later'⟩, rest, rest', outward, outward', same => by
    simp only [entriesOf, List.append_assoc] at same
    obtain ⟨first, tail⟩ := entries_injective depth stmt stmt' known known' _ _ (outward_entriesOf others outward)
      (outward_entriesOf others' outward') same
    obtain ⟨behind, rests⟩ := entriesOf_injective depth others others' later later' rest rest' outward outward' tail
    exact ⟨by rw [unplacedAll, unplacedAll, first, behind], rests⟩

end

mutual

theorem entries_unplaced (depth : Nat) : (stmt : Stmt) → stmt.unplaced.entries depth = stmt.entries depth
  | declare name value _ => by simp only [unplaced, entries, Expr.chars_unplaced]; rfl
  | assign name value _ => by simp only [unplaced, entries, Expr.chars_unplaced]; rfl
  | ifThen condition body _ => by simp only [unplaced, entries, Expr.chars_unplaced, entriesOf_unplaced _ body]
  | ifElse condition body other _ => by
    simp only [unplaced, entries, Expr.chars_unplaced, entriesOf_unplaced _ body, entriesOf_unplaced _ other]
  | whileDo condition body _ => by simp only [unplaced, entries, Expr.chars_unplaced, entriesOf_unplaced _ body]
  | returnValue value _ => by simp only [unplaced, entries, Expr.chars_unplaced]

theorem entriesOf_unplaced (depth : Nat) :
    (stmts : List Stmt) → entriesOf depth (unplacedAll stmts) = entriesOf depth stmts
  | [] => rfl
  | stmt :: rest => by
    rw [unplacedAll, entriesOf, entriesOf, entries_unplaced depth stmt, entriesOf_unplaced depth rest]

end

end Stmt

namespace Program
open Stmt

theorem outlineText_eq_of_unplaced {program program' : Program} (same : unplacedAll program = unplacedAll program') :
    program.outlineText = program'.outlineText := by
  apply String.toList_injective
  rw [toList_outlineText, toList_outlineText, ← entriesOf_unplaced 0 program, same, entriesOf_unplaced]

theorem unplaced_of_outlineText_eq {program program' : Program} (known : AllFromText program)
    (known' : AllFromText program') (same : program.outlineText = program'.outlineText) :
    unplacedAll program = unplacedAll program' := by
  have rows : entriesOf 0 program = entriesOf 0 program' := by
    apply OutlineRow.flatMap_written_injective (plain_entriesOf 0 program known) (plain_entriesOf 0 program' known')
    rw [← toList_outlineText, same, toList_outlineText]
  have outward : Outward 0 [] := by simp [Outward]
  exact (entriesOf_injective 0 program program' known known' [] [] outward outward (by rw [rows])).1

/-- Programs that were read from sources have the same outline just if they are equal without places. Two expressions
in them, or parts of expressions, are printed alike just if they have the same structure. -/
theorem outlineText_eq_iff {program program' : Program}
    (read : ∃ source, parse source = .ok program ∨ (recover source).program = program)
    (read' : ∃ source, parse source = .ok program' ∨ (recover source).program = program') :
    (program.outlineText = program'.outlineText ↔ unplacedAll program = unplacedAll program') ∧
      ∀ e ∈ (exprsOf program).flatMap Expr.parts, ∀ e' ∈ (exprsOf program').flatMap Expr.parts,
        e.text = e'.text ↔ e.sameStructure e' := by
  have known {program : Program} (read : ∃ source, parse source = .ok program ∨ (recover source).program = program) :
      AllFromText program := by
    obtain ⟨source, read | rfl⟩ := read
    · rw [← recover_of_parse read]
      exact allFromText_recover source
    · exact allFromText_recover source
  have parts {program : Program} (known : AllFromText program) :
      ∀ e ∈ (exprsOf program).flatMap Expr.parts, e.FromText := by
    intro e member
    obtain ⟨whole, among, part⟩ := List.mem_flatMap.1 member
    exact (fromText_of_mem_exprsOf program known whole among).of_mem_parts e part
  refine ⟨⟨unplaced_of_outlineText_eq (known read) (known read'), outlineText_eq_of_unplaced⟩, ?_⟩
  intro e member e' member'
  exact (parts (known read) e member).text_eq_iff (parts (known read') e' member')

/-- A blank more in the source moves the name, and the outline is the same. -/
theorem outlineText_eq_spaced : ∃ program, parse "return a;" = .ok program ∧
    program.outlineText = (recover "return  a;").program.outlineText := by
  have read {text : String} {place : Location} (single : lex text = [⟨.identifier, "a", place⟩]) :
      ∃ value place, parse ("return " ++ text ++ ";") = .ok [.returnValue value place] ∧
        value.unplaced = .leaf ⟨.identifier, "a", .start⟩ := by
    let e : Expr := .leaf ⟨.identifier, text, .start⟩
    have spelt : e.WellSpelt := ⟨.inr (.inl rfl), _, single, rfl⟩
    have trimmed : e.trimmed = .leaf ⟨.identifier, "a", .start⟩ := by rw [Expr.trimmed, Token.trimmed, single]
    obtain ⟨value, place, same, reads, -⟩ := parse_return spelt
    rw [trimmed, Expr.sameStructure_iff] at same
    have outcome := (reads _).2 ⟨Nat.zero_le _, rfl⟩
    rw [Expr.text_leaf] at outcome
    exact ⟨value, place, outcome, same.symm⟩
  have single : lex "a" = [⟨.identifier, "a", .start⟩] := Lexer.tokens_uncut (by decide) .start
  have spaced : lex " a" = [⟨.identifier, "a", ⟨1, 2⟩⟩] := by
    change Lexer.tokens ⟨' ' :: "a".toList, .start⟩ = _
    rw [Lexer.tokens_blank (by decide), Lexer.tokens_uncut (by decide)]
    rfl
  obtain ⟨value, place, reads, same⟩ := read single
  obtain ⟨value', place', reads', same'⟩ := read spaced
  have recovered : (recover "return  a;").program = [.returnValue value' place'] := recover_of_parse reads'
  refine ⟨_, reads, (outlineText_eq_iff ⟨_, .inl reads⟩ ⟨_, .inr rfl⟩).1.2 ?_⟩
  rw [recovered]
  simp only [unplacedAll, unplaced, same, same']

end Program
end ScriptLens
