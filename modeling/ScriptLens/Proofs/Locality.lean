import ScriptLens.Proofs.Lines

/-!
The tokens of a text do not depend on the lines around it. Further down they are the same ones further down
(`Lexer.tokens_lowered`), and none goes on behind a line feed, so that those of a source are put together from those of
its lines (`lex_linewise`).
-/

namespace ScriptLens

/-- The place so many lines further down. -/
def Location.lowered (count : Nat) (place : Location) : Location := ⟨count + place.line, place.column⟩

/-- The token so many lines further down. -/
def Token.lowered (count : Nat) (token : Token) : Token := { token with location := token.location.lowered count }

namespace Location

theorem advance_lowered (count : Nat) (place : Location) (c : Char) :
    (place.lowered count).advance c = (place.advance c).lowered count := by
  by_cases feed : c = '\n'
  · subst feed
    rfl
  · have step (place : Location) : place.advance c = ⟨place.line, place.column + 1⟩ := if_neg feed
    rw [step, step]
    rfl

theorem advanceBy_lowered (count : Nat) (place : Location) (text : List Char) :
    (place.lowered count).advanceBy text = (place.advanceBy text).lowered count := by
  induction text generalizing place with
  | nil => rfl
  | cons c text ih =>
    change ((place.lowered count).advance c).advanceBy text = ((place.advance c).advanceBy text).lowered count
    rw [advance_lowered, ih]

end Location

namespace Lexer

theorem tokens_lowered (count : Nat) (text : List Char) (place : Location) :
    tokens ⟨text, place.lowered count⟩ = (tokens ⟨text, place⟩).map (Token.lowered count) := by
  cases text with
  | nil => rw [tokens_nil, tokens_nil, List.map_nil]
  | cons c rest =>
    by_cases blank : isBlank c
    · rw [tokens_blank blank, tokens_blank blank, Location.advance_lowered]
      exact tokens_lowered count rest _
    · have shorter := cut_shorter c rest
      rw [tokens_cons blank, tokens_cons blank, List.map_cons, Location.advanceBy_lowered]
      exact congrArg _ (tokens_lowered count (cut c rest).2 _)
termination_by text.length
decreasing_by
  · exact Nat.lt_succ_self _
  · exact shorter

end Lexer

namespace Text

/-- What stands in a text between its line feeds, in front of the first and behind the last. -/
def pieces (text : String) : List String := (text.toList.splitOn '\n').map String.ofList

theorem Lined.cons {c : Char} (solid : c ≠ '\n') {text : List Char} {line : String} {lines : List String}
    (lined : Lined text (line :: lines)) : Lined (c :: text) (String.ofList (c :: line.toList) :: lines) := by
  have longer (flat : ∀ d ∈ line.toList, d ≠ '\n') : ∀ d ∈ (String.ofList (c :: line.toList)).toList, d ≠ '\n' := by
    rw [String.toList_ofList]
    exact List.forall_mem_cons.2 ⟨solid, flat⟩
  cases lined with
  | last flat =>
    have last := Lined.last (longer flat)
    rwa [String.toList_ofList] at last
  | feed flat carriage later =>
    have feed := Lined.feed (longer flat) carriage later
    rwa [String.toList_ofList] at feed

theorem lined_pieces (text : String) : Lined text.toList (pieces text) := by
  have lined (chars : List Char) : Lined chars ((chars.splitOn '\n').map String.ofList) := by
    induction chars with
    | nil => exact @Lined.last "" (by simp)
    | cons c chars ih =>
      rw [List.splitOn_cons_eq_if_modifyHead]
      split
      · next feed =>
        obtain rfl : c = '\n' := by simpa using feed
        exact @Lined.feed "" [] _ _ (by simp) (.inl rfl) ih
      · next solid =>
        have solid : c ≠ '\n' := by simpa using solid
        obtain ⟨first, others, split⟩ := List.exists_cons_of_ne_nil (List.splitOn_ne_nil '\n' chars)
        rw [split, List.map_cons] at ih
        have longer := ih.cons solid
        rw [String.toList_ofList] at longer
        rwa [split, List.modifyHead_cons, List.map_cons]
  exact lined text.toList

end Text

/-- So far behind the column where the text starts, a token is spelt in it. -/
theorem Tiled.spelt {line column : Nat} {text : List Char} {tokens : List Token}
    (tiled : Tiled line column text tokens) : ∀ token ∈ tokens, ∃ offset,
      token.location = ⟨line, column + offset⟩ ∧ token.text.toList <+: text.drop offset := by
  induction tiled with
  | done => simp
  | @token column gap rest token tokens blank location later ih =>
    refine List.forall_mem_cons.2 ⟨⟨gap.length, location, ?_⟩, fun other member => ?_⟩
    · rw [List.drop_left]
      exact List.prefix_append ..
    · obtain ⟨offset, behind, spelt⟩ := ih other member
      have passed : column + gap.length + token.text.length + offset =
          column + ((gap ++ token.text.toList).length + offset) := by
        rw [List.length_append, String.length_toList]
        omega
      refine ⟨_, behind.trans (congrArg _ passed), ?_⟩
      rwa [← List.append_assoc, List.drop_length_add_append]

theorem lexLine_eq (line : String) (number : Nat) : lexLine line number = (lex line).map (Token.lowered number) :=
  Lexer.tokens_lowered number line.toList .start

theorem lexLines_eq (number : Nat) (lines : List String) : lexLines number lines =
    (lines.mapIdx fun index line => lexLine line (number + index)).flatten := by
  induction lines generalizing number with
  | nil => rfl
  | cons line lines ih =>
    rw [lexLines, ih, List.mapIdx_cons, List.flatten_cons]
    simp only [Nat.add_assoc, Nat.add_comm 1, Nat.add_zero]

theorem lex_feed (front back : String) :
    lex (front ++ "\n" ++ back) = lex front ++ (lex back).map (Token.lowered (1 + front.toList.count '\n')) := by
  have apart : Lexer.Apart ('\n' :: back.toList) := Lexer.apart_cons (by decide) back.toList
  have place : (Location.start.advanceBy front.toList).advance '\n' =
      Location.start.lowered (1 + front.toList.count '\n') := by
    rw [Location.advanceBy_start]
    rfl
  have whole : (front ++ "\n" ++ back).toList = front.toList ++ '\n' :: back.toList := by simp
  unfold lex Lexer.ofSource
  rw [whole, Lexer.tokens_append apart, Lexer.tokens_blank (by decide), place, Lexer.tokens_lowered]

theorem lex_eq_pieces (source : String) : lex source = lexLines 0 (Text.pieces source) :=
  Lexer.tokens_lined (Text.lined_pieces source) 0

/-- A token stands in one piece of the source, at its line and column. -/
theorem exists_piece {source : String} {token : Token} (member : token ∈ lex source) :
    ∃ index line offset, (Text.pieces source)[index]? = some line ∧ token.location = ⟨index + 1, offset + 1⟩ ∧
      token.text.toList <+: line.toList.drop offset := by
  rw [lex_eq_pieces, lexLines_eq] at member
  obtain ⟨tokens, among, member⟩ := List.mem_flatten.1 member
  obtain ⟨index, inside, rfl⟩ := List.mem_mapIdx.1 among
  have flat := (Text.lined_pieces source).flat _ (List.getElem_mem inside)
  obtain ⟨offset, location, spelt⟩ := (tiled_lexLine flat (0 + index)).spelt token member
  rw [Nat.zero_add, Nat.add_comm 1] at location
  exact ⟨index, _, offset, List.getElem?_eq_getElem inside, location, spelt⟩

/-- A line feed parts the tokens in front of it from those behind it, which are the ones of the text behind it so many
lines further down. So a source has the tokens of its lines one after the other, and each of them inside one line. -/
theorem lex_linewise (front back source : String) :
    lex (front ++ "\n" ++ back) = lex front ++ (lex back).map (Token.lowered (1 + front.toList.count '\n')) ∧
    lex source = ((Text.pieces source).mapIdx fun index line => (lex line).map (Token.lowered index)).flatten ∧
    ∀ token ∈ lex source, ∃ index line offset, (Text.pieces source)[index]? = some line ∧
      token.location = ⟨index + 1, offset + 1⟩ ∧ token.text.toList <+: line.toList.drop offset := by
  refine ⟨lex_feed front back, ?_, fun token => exists_piece⟩
  rw [lex_eq_pieces, lexLines_eq]
  simp only [lexLine_eq, Nat.zero_add]

end ScriptLens
