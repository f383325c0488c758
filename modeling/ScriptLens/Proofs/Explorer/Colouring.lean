import ScriptLens.Explorer.Document
import ScriptLens.Explorer.SourcePane
import ScriptLens.Proofs.Lines

/-!
How the lines of a source are coloured. No character of a line is lost or shown twice, whatever the tokens are
(`SourcePane.join_highlight`). With the tokens of the source just these are coloured, since their columns count the
characters of the line (`SourcePane.shows_highlight`).
-/

namespace ScriptLens.Explorer
open Screen

/-- The tokens on a line, in order, each with its index. -/
def tokensOn (tokens : List Token) (line : Nat) : List (Token × Nat) :=
  tokens.zipIdx.filter fun entry => entry.1.location.line == line

theorem indicesOn_eq (tokens : List Token) (line : Nat) :
    indicesOn tokens.toArray line = (tokensOn tokens line).map Prod.snd := by
  have range : List.range tokens.length = tokens.zipIdx.map Prod.snd := by
    rw [List.zipIdx_map_snd, List.range_eq_range']
  rw [indicesOn, tokensOn, List.size_toArray, range, List.filter_map]
  refine congrArg _ (List.filter_congr fun entry member => ?_)
  have here := List.mem_zipIdx_iff_getElem?.1 member
  simp [here]

theorem increasing_indicesOn (tokens : Array Token) (line : Nat) : (indicesOn tokens line).Pairwise (· < ·) :=
  List.Pairwise.filter _ List.pairwise_lt_range

theorem mem_indicesOn {tokens : Array Token} {index : Nat} {token : Token} (here : tokens[index]? = some token)
    (line : Nat) : index ∈ indicesOn tokens line ↔ line = token.location.line := by
  obtain ⟨inside, -⟩ := Array.getElem?_eq_some_iff.1 here
  simp only [indicesOn, List.mem_filter, List.mem_range, inside, true_and, here, Option.any_some, beq_iff_eq]
  exact eq_comm

theorem tokensOn_line {source : String} {number : Nat} {line : String}
    (here : (Text.lines source)[number]? = some line) :
    ∃ first, tokensOn (lex source) (number + 1) = (lexLine line number).zipIdx first := by
  obtain ⟨earlier, later, split, before, behind⟩ := lex_around_line here
  have flat := (Text.lined_lines source).flat line (List.mem_of_getElem? here)
  have on := (tiled_lexLine flat number).line_eq
  have off {others : List Token} (apart : ∀ token ∈ others, token.location.line ≠ number + 1) (first : Nat) :
      ((others.zipIdx first).filter fun entry => entry.1.location.line == number + 1) = [] :=
    List.filter_eq_nil_iff.2 fun entry member => by simpa using apart _ (List.fst_mem_of_mem_zipIdx member)
  have all (first : Nat) : (((lexLine line number).zipIdx first).filter fun entry =>
      entry.1.location.line == number + 1) = (lexLine line number).zipIdx first :=
    List.filter_eq_self.2 fun entry member => by simpa using on _ (List.fst_mem_of_mem_zipIdx member)
  refine ⟨earlier.length, ?_⟩
  rw [tokensOn, split, List.zipIdx_append, List.zipIdx_append, List.filter_append, List.filter_append, Nat.zero_add, all,
    off fun token member => Nat.ne_of_lt (before token member), off fun token member => Nat.ne_of_gt (behind token member)]
  exact List.append_nil _

namespace SourcePane

theorem flatMap_push (spans : Array Screen.Span) (span : Screen.Span) :
    (spans.push span).toList.flatMap (·.text.toList) = spans.toList.flatMap (·.text.toList) ++ span.text.toList := by
  simp

theorem flatMap_highlightFrom (tokens : Array Token) (selected : Option Nat) (length column : Nat) (rest : List Char)
    (spans : Array Screen.Span) (indices : List Nat) :
    (highlightFrom tokens selected length column rest spans indices).toList.flatMap (·.text.toList) =
      spans.toList.flatMap (·.text.toList) ++ rest := by
  induction indices generalizing column rest spans with
  | nil =>
    rw [highlightFrom]
    split
    · next empty => rw [List.isEmpty_iff.1 empty, List.append_nil]
    · rw [flatMap_push, Span.raw, String.toList_ofList]
  | cons index later ih =>
    rw [highlightFrom]
    split
    · exact ih column rest spans
    · next token here =>
      dsimp only
      split
      · exact ih column rest spans
      · rw [ih, flatMap_push, String.toList_ofList]
        split
        · next flush => rw [flush, Nat.sub_self, List.drop_zero, List.append_assoc, List.take_append_drop]
        · rw [flatMap_push, Span.raw, String.toList_ofList, List.append_assoc, List.append_assoc,
            List.take_append_drop, List.take_append_drop]

/-- A token as it is shown: with its text, and in the style of its kind, to which the selected one adds. -/
def coloured (selected : Option Nat) (entry : Token × Nat) : Screen.Span :=
  ⟨entry.1.text, if selected = some entry.2 then ((Palette.token entry.1.kind).on Palette.highlight).reverse
    else Palette.token entry.1.kind⟩

theorem coloured_ne_plain (selected : Option Nat) (entry : Token × Nat) : (coloured selected entry).style ≠ .plain := by
  have colour : (Palette.token entry.1.kind).fore ≠ none := by
    cases entry.1.kind <;> simp [Palette.token, Style.colored, Style.inBold, Style.underline]
  intro same
  have none := congrArg Style.fore same
  unfold coloured at none
  split at none
  · exact colour none
  · exact colour none

/-- Spans that show just these in colour, and blanks besides. -/
structure Shows (shown spans : List Screen.Span) : Prop where
  styled : spans.filter (fun span => span.style ≠ .plain) = shown
  blank : ∀ span ∈ spans, span.style = .plain → ∀ c ∈ span.text.toList, c ∈ blanks

section
variable {tokens : Array Token} {selected : Option Nat} {shown : List Screen.Span} {spans : Array Screen.Span}

theorem Shows.raw {gap : List Char} (shows : Shows shown spans.toList) (blank : ∀ c ∈ gap, c ∈ blanks) :
    Shows shown (spans.push (.raw (String.ofList gap))).toList := by
  refine ⟨?_, ?_⟩
  · rw [Array.toList_push, List.filter_append, shows.styled, List.filter_cons_of_neg (by simp [Span.raw])]
    exact List.append_nil shown
  · rw [Array.toList_push, List.forall_mem_append, List.forall_mem_singleton]
    exact ⟨shows.blank, fun _ => by rwa [Span.raw, String.toList_ofList]⟩

theorem Shows.coloured (shows : Shows shown spans.toList) (selected : Option Nat) (entry : Token × Nat) :
    Shows (shown ++ [coloured selected entry]) (spans.push (coloured selected entry)).toList := by
  have styled := coloured_ne_plain selected entry
  refine ⟨?_, ?_⟩
  · rw [Array.toList_push, List.filter_append, shows.styled, List.filter_cons_of_pos (by simpa using styled)]
    rfl
  · rw [Array.toList_push, List.forall_mem_append, List.forall_mem_singleton]
    exact ⟨shows.blank, fun plain => absurd plain styled⟩

/-- A token whose column counts the characters in front of it is cut out as it is spelt. -/
theorem highlightFrom_token {index : Nat} {token : Token} (here : tokens[index]? = some token) {length column : Nat}
    {gap rest : List Char} (place : token.location.column = column + 1 + gap.length)
    (fits : length = column + (gap ++ (token.text.toList ++ rest)).length) (later : List Nat) :
    highlightFrom tokens selected length column (gap ++ (token.text.toList ++ rest)) spans (index :: later) =
      highlightFrom tokens selected length (column + gap.length + token.text.length) rest
        ((if gap = [] then spans else spans.push (.raw (String.ofList gap))).push (coloured selected (token, index)))
        later := by
  have start : min (token.location.column - 1) length = column + gap.length := by
    rw [place, fits, List.length_append]
    omega
  have finish : min (column + gap.length + token.text.length) length = column + gap.length + token.text.length := by
    rw [fits, List.length_append, List.length_append, String.length_toList]
    omega
  have flush : column + gap.length = column ↔ gap = [] := by rw [Nat.add_eq_left, List.length_eq_zero_iff]
  rw [highlightFrom, here]
  dsimp only
  rw [start, finish, if_neg (Nat.not_lt.2 (Nat.le_add_right ..)), Nat.add_sub_cancel_left, Nat.add_sub_cancel_left,
    List.take_left, List.drop_left, ← String.length_toList, List.take_left, List.drop_left, String.ofList_toList]
  simp only [flush]
  rfl

/-- The induction goes from token to token; the characters that are left begin at the column. -/
theorem shows_highlightFrom {line place : Nat} {rest : List Char} {found : List Token}
    (tiled : Tiled line place rest found) {length column first : Nat} (same : place = column + 1)
    (fits : length = column + rest.length)
    (here : ∀ entry ∈ found.zipIdx first, tokens[entry.2]? = some entry.1) (shows : Shows shown spans.toList) :
    Shows (shown ++ (found.zipIdx first).map (coloured selected))
      (highlightFrom tokens selected length column rest spans ((found.zipIdx first).map Prod.snd)).toList := by
  induction tiled generalizing column first shown spans with
  | done blank =>
    rw [List.zipIdx_nil, List.map_nil, List.map_nil, List.append_nil, highlightFrom]
    split
    · exact shows
    · exact shows.raw blank
  | @token place gap rest token found blank location later ih =>
    subst same
    rw [List.zipIdx_cons] at here ⊢
    obtain ⟨token_here, here⟩ := List.forall_mem_cons.1 here
    have before : Shows shown (if gap = [] then spans else spans.push (.raw (String.ofList gap))).toList := by
      split
      · exact shows
      · exact shows.raw blank
    have rest_fits : length = column + gap.length + token.text.length + rest.length := by
      rw [fits]
      simp only [List.length_append, String.length_toList]
      omega
    have next := ih (by omega) rest_fits here (before.coloured selected (token, first))
    rw [List.append_assoc] at next
    rw [List.map_cons, List.map_cons, highlightFrom_token token_here (by rw [location]) fits]
    exact next

end

theorem join_highlight (tokens : Array Token) (selected : Option Nat) (line : String) (indices : List Nat) :
    String.join ((highlight tokens selected line indices).map (·.text)) = line := by
  apply String.toList_injective
  rw [String.toList_join, List.flatMap_map]
  exact flatMap_highlightFrom tokens selected line.length 0 line.toList #[] indices

theorem shows_highlight {source : String} {number : Nat} {line : String}
    (here : (Text.lines source)[number]? = some line) (selected : Option Nat) :
    Shows ((tokensOn (lex source) (number + 1)).map (coloured selected))
      (highlight (lex source).toArray selected line (Explorer.indicesOn (lex source).toArray (number + 1))) := by
  obtain ⟨first, on⟩ := tokensOn_line here
  have flat := (Text.lined_lines source).flat line (List.mem_of_getElem? here)
  have present : ∀ entry ∈ (lexLine line number).zipIdx first, (lex source).toArray[entry.2]? = some entry.1 := by
    intro entry member
    rw [← on] at member
    have found := List.mem_zipIdx_iff_getElem?.1 (List.mem_filter.1 member).1
    rwa [← List.getElem?_toArray] at found
  have none : Shows [] (#[] : Array Screen.Span).toList := ⟨rfl, List.forall_mem_nil _⟩
  have fits : line.length = 0 + line.toList.length := by rw [Nat.zero_add, String.length_toList]
  rw [indicesOn_eq, on]
  exact shows_highlightFrom (tiled_lexLine flat number) rfl fits present none

/-- The spans of a line are the line again. All the tokens on it are in them, in order and in their colours, and only
the selected one stands out; the rest is blank and plain. Every token is shown on one line, which is there. Tokens that
do not belong to the line, or places in any order, lose nothing of it either. -/
theorem highlight_colours (source : String) :
    let tokens := (Document.ofSource source).tokens
    (∀ number line, (Text.lines source)[number]? = some line → ∀ selected,
      let spans := highlight tokens selected line (Explorer.indicesOn tokens (number + 1))
      String.join (spans.map (·.text)) = line ∧
      (spans.filter fun span => span.style ≠ .plain) =
        (tokensOn (lex source) (number + 1)).map (coloured selected) ∧
      ∀ span ∈ spans, span.style = .plain → ∀ c ∈ span.text.toList, c ∈ blanks) ∧
    (∀ index token, tokens[index]? = some token →
      1 ≤ token.location.line ∧ token.location.line ≤ (Text.lines source).length ∧
      ∀ line, index ∈ Explorer.indicesOn tokens line ↔ line = token.location.line) ∧
    (∀ line, (Explorer.indicesOn tokens line).Pairwise (· < ·)) ∧
    ∀ (others : Array Token) selected line indices,
      String.join ((highlight others selected line indices).map (·.text)) = line := by
  intro tokens
  refine ⟨fun number line here selected => ?_, fun index token here => ?_, increasing_indicesOn tokens, join_highlight⟩
  · have shows := shows_highlight here selected
    exact ⟨join_highlight tokens selected line _, shows.styled, shows.blank⟩
  · have bounds := line_of_mem_lex (List.mem_toArray.1 (Array.mem_of_getElem? here))
    exact ⟨bounds.1, bounds.2, mem_indicesOn here⟩

example :
    let token : Token := ⟨.identifier, "ab", ⟨1, 2⟩⟩
    highlight #[token] (some 0) " ab " [0, 0, 7] = [.raw " ", coloured (some 0) (token, 0), .raw " "] := rfl

end SourcePane
end ScriptLens.Explorer
