import ScriptLens.Proofs.Places
import ScriptLens.Text.Lines

/-!
The lines of a text are those that places count. The tokens of a source are those of its lines, one line behind the
other (`lex_eq_lines`), and on a line the columns of the tokens tell where they are in it (`Tiled`).
-/

namespace ScriptLens

namespace Text

/-- A text as the lines in it. The last one need not be ended. -/
inductive Lined : List Char → List String → Prop where
  | done : Lined [] []
  | last {line : String} (flat : ∀ c ∈ line.toList, c ≠ '\n') : Lined line.toList [line]
  | feed {line : String} {ending rest : List Char} {lines : List String} (flat : ∀ c ∈ line.toList, c ≠ '\n')
      (carriage : ending = [] ∨ ending = ['\r']) (later : Lined rest lines) :
      Lined (line.toList ++ (ending ++ '\n' :: rest)) (line :: lines)

theorem Lined.flat {text : List Char} {lines : List String} (lined : Lined text lines) :
    ∀ line ∈ lines, ∀ c ∈ line.toList, c ≠ '\n' := by
  induction lined with
  | done => simp
  | last flat => exact List.forall_mem_singleton.2 flat
  | feed flat carriage later ih => exact List.forall_mem_cons.2 ⟨flat, ih⟩

theorem splitLines_solid {c : Char} (solid : c ≠ '\n') (unfinished : List Char) (finished : List String)
    (text : List Char) : splitLines unfinished finished (c :: text) = splitLines (c :: unfinished) finished text := by
  rw [splitLines.eq_3]
  exact solid

theorem splitLines_eq (unfinished : List Char) (finished : List String) (text : List Char) :
    splitLines unfinished finished text = finished.reverse ++ splitLines unfinished [] text := by
  induction text generalizing unfinished finished with
  | nil =>
    unfold splitLines
    split <;> simp
  | cons c text ih =>
    by_cases feed : c = '\n'
    · subst feed
      rw [splitLines, splitLines, ih [] (_ :: finished), ih [] [_]]
      simp
    · rw [splitLines_solid feed, splitLines_solid feed, ih]

theorem exists_ending (unfinished : List Char) : ∃ ending, (ending = [] ∨ ending = ['\r']) ∧
    unfinished.reverse = (finishedLine unfinished).toList ++ ending := by
  unfold finishedLine
  split
  · exact ⟨['\r'], .inr rfl, by simp⟩
  · exact ⟨[], .inl rfl, by simp⟩

theorem lined_splitLines {unfinished : List Char} (flat : ∀ c ∈ unfinished, c ≠ '\n') (text : List Char) :
    Lined (unfinished.reverse ++ text) (splitLines unfinished [] text) := by
  induction text generalizing unfinished with
  | nil =>
    rw [List.append_nil]
    unfold splitLines
    split
    · next empty =>
      rw [List.isEmpty_iff.1 empty]
      exact .done
    · have last := @Lined.last (String.ofList unfinished.reverse) (by simpa using flat)
      rwa [String.toList_ofList] at last
  | cons c text ih =>
    by_cases feed : c = '\n'
    · subst feed
      obtain ⟨ending, carriage, split⟩ := exists_ending unfinished
      have inside : ∀ c ∈ (finishedLine unfinished).toList, c ≠ '\n' := fun c member =>
        flat c (List.mem_reverse.1 (split ▸ List.mem_append_left ending member))
      rw [splitLines, splitLines_eq, split, List.append_assoc]
      exact .feed inside carriage (ih (List.forall_mem_nil _))
    · have lined := ih (List.forall_mem_cons.2 ⟨feed, flat⟩)
      rw [List.reverse_cons, List.append_assoc] at lined
      rwa [splitLines_solid feed]

theorem lined_lines (text : String) : Lined text.toList (lines text) :=
  lined_splitLines (List.forall_mem_nil _) text.toList

end Text

/-- What stands on one line from a column on: tokens, and blanks in front of them and behind them. -/
inductive Tiled (line : Nat) : Nat → List Char → List Token → Prop where
  | done {column : Nat} {gap : List Char} (blank : ∀ c ∈ gap, c ∈ blanks) : Tiled line column gap []
  | token {column : Nat} {gap rest : List Char} {token : Token} {tokens : List Token} (blank : ∀ c ∈ gap, c ∈ blanks)
      (location : token.location = ⟨line, column + gap.length⟩)
      (later : Tiled line (column + gap.length + token.text.length) rest tokens) :
      Tiled line column (gap ++ (token.text.toList ++ rest)) (token :: tokens)

theorem Tiled.line_eq {line column : Nat} {text : List Char} {tokens : List Token}
    (tiled : Tiled line column text tokens) : ∀ token ∈ tokens, token.location.line = line := by
  induction tiled with
  | done => simp
  | token blank location later ih => exact List.forall_mem_cons.2 ⟨by rw [location], ih⟩

theorem Placed.tiled {front text : List Char} {tokens : List Token} {spans : List Span}
    (placed : Placed front text tokens spans) (flat : ∀ c ∈ text, c ≠ '\n') {line column : Nat}
    (here : Location.start.advanceBy front = ⟨line, column⟩) : Tiled line column text tokens := by
  induction placed generalizing column with
  | done blank => exact .done blank
  | @token front gap rest token tokens spans blank spelt location later ih =>
    simp only [List.forall_mem_append] at flat
    have start : Location.start.advanceBy (front ++ gap) = ⟨line, column + gap.length⟩ := by
      rw [Location.advanceBy_append, here, Location.advanceBy_of_flat _ _ flat.1]
    have finish : Location.start.advanceBy (front ++ gap ++ token.text.toList) =
        ⟨line, column + gap.length + token.text.length⟩ := by
      rw [Location.advanceBy_append, start, Location.advanceBy_of_flat _ _ flat.2.1, String.length_toList]
    exact .token blank (location.trans start) (ih flat.2.2 finish)

/-- The tokens of a line behind so many other lines. -/
def lexLine (line : String) (number : Nat) : List Token := Lexer.tokens ⟨line.toList, ⟨number + 1, 1⟩⟩

theorem tiled_lexLine {line : String} (flat : ∀ c ∈ line.toList, c ≠ '\n') (number : Nat) :
    Tiled (number + 1) 1 line.toList (lexLine line number) := by
  have here : Location.start.advanceBy (List.replicate number '\n') = ⟨number + 1, 1⟩ := by
    rw [Location.advanceBy_start, List.count_replicate_self, List.reverse_replicate]
    simp [Nat.add_comm]
  obtain ⟨spans, placed⟩ := Lexer.exists_placed (List.replicate number '\n') line.toList
  rw [here] at placed
  exact placed.tiled flat here

/-- The tokens of lines behind so many others, one line behind the other. -/
def lexLines (number : Nat) : List String → List Token
  | [] => []
  | line :: lines => lexLine line number ++ lexLines (number + 1) lines

theorem lexLines_append (number : Nat) (front back : List String) :
    lexLines number (front ++ back) = lexLines number front ++ lexLines (number + front.length) back := by
  induction front generalizing number with
  | nil => rfl
  | cons line front ih =>
    rw [List.cons_append, lexLines, lexLines, ih, List.append_assoc, List.length_cons, Nat.add_comm front.length,
      Nat.add_assoc]

theorem line_of_mem_lexLines {lines : List String} (flat : ∀ line ∈ lines, ∀ c ∈ line.toList, c ≠ '\n') (number : Nat) :
    ∀ token ∈ lexLines number lines, number < token.location.line ∧ token.location.line ≤ number + lines.length := by
  induction lines generalizing number with
  | nil => simp [lexLines]
  | cons line lines ih =>
    obtain ⟨here, later⟩ := List.forall_mem_cons.1 flat
    intro token member
    rw [List.length_cons]
    rcases List.mem_append.1 member with member | member
    · have same := (tiled_lexLine here number).line_eq token member
      omega
    · have bounds := ih later (number + 1) token member
      omega

theorem Lexer.tokens_lined {text : List Char} {lines : List String} (lined : Text.Lined text lines) (number : Nat) :
    tokens ⟨text, ⟨number + 1, 1⟩⟩ = lexLines number lines := by
  induction lined generalizing number with
  | done => exact tokens_nil _
  | last flat => exact (List.append_nil _).symm
  | @feed line ending rest lines flat carriage later ih =>
    have place := Location.advanceBy_of_flat ⟨number + 1, 1⟩ line.toList flat
    rw [lexLines, ← ih]
    rcases carriage with rfl | rfl
    · rw [List.nil_append, tokens_append (apart_cons (by decide) rest), place, tokens_blank (by decide)]
      rfl
    · rw [List.singleton_append, tokens_append (apart_cons (by decide) _), place, tokens_blank (by decide),
        tokens_blank (by decide)]
      rfl

/-- The tokens of a source are those of its lines. -/
theorem lex_eq_lines (source : String) : lex source = lexLines 0 (Text.lines source) :=
  Lexer.tokens_lined (Text.lined_lines source) 0

section
variable {source : String}

/-- A token stands on one of the lines of its source. -/
theorem line_of_mem_lex {token : Token} (member : token ∈ lex source) :
    1 ≤ token.location.line ∧ token.location.line ≤ (Text.lines source).length := by
  rw [lex_eq_lines] at member
  have bounds := line_of_mem_lexLines (Text.lined_lines source).flat 0 token member
  rwa [Nat.zero_add] at bounds

/-- The tokens of a line, between those of the lines in front of it and behind it. -/
theorem lex_around_line {number : Nat} {line : String} (here : (Text.lines source)[number]? = some line) :
    ∃ earlier later, lex source = earlier ++ (lexLine line number ++ later) ∧
      (∀ token ∈ earlier, token.location.line < number + 1) ∧ ∀ token ∈ later, number + 1 < token.location.line := by
  obtain ⟨front, back, split, rfl⟩ : ∃ front back, Text.lines source = front ++ line :: back ∧ front.length = number := by
    obtain ⟨inside, rfl⟩ := List.getElem?_eq_some_iff.1 here
    have front := List.length_take_of_le (Nat.le_of_lt inside)
    refine ⟨(Text.lines source).take number, (Text.lines source).drop (number + 1), ?_, front⟩
    rw [← List.drop_eq_getElem_cons inside, List.take_append_drop]
  have flat := (Text.lined_lines source).flat
  rw [split, List.forall_mem_append, List.forall_mem_cons] at flat
  refine ⟨lexLines 0 front, lexLines (front.length + 1) back, ?_, fun token member => ?_, fun token member => ?_⟩
  · rw [lex_eq_lines, split, lexLines_append, lexLines, Nat.zero_add]
  · have bounds := line_of_mem_lexLines flat.1 0 token member
    omega
  · exact (line_of_mem_lexLines flat.2.2 _ token member).1

end

end ScriptLens
