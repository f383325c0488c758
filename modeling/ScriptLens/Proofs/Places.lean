import Mathlib.Data.List.Forall2
import Mathlib.Data.List.Induction
import ScriptLens.Proofs.Lexeme

/-!
Where the tokens of a text stand. Each is a stretch of the text, one behind the other, and what is between is
blank (`Placed`). A token's place counts the lines and columns of what stands in front of it (`Location.ofOffset`).
-/

namespace ScriptLens

namespace Location

/-- The place of the character at an offset: line feeds in front of it count the lines, and the characters behind
the last of them the columns. -/
def ofOffset (text : List Char) (offset : Nat) : Location :=
  ⟨1 + (text.take offset).count '\n', 1 + ((text.take offset).reverse.takeWhile (· != '\n')).length⟩

/-- Places as they are come to in reading. -/
instance : LT Location := ⟨fun a b => a.line < b.line ∨ a.line = b.line ∧ a.column < b.column⟩

theorem lt_iff {a b : Location} : a < b ↔ a.line < b.line ∨ a.line = b.line ∧ a.column < b.column := Iff.rfl

theorem lt_trans {a b c : Location} (first : a < b) (second : b < c) : a < c := by
  rw [lt_iff] at *
  omega

theorem ne_of_lt {a b : Location} (less : a < b) : a ≠ b := by
  rintro rfl
  rw [lt_iff] at less
  omega

theorem lt_advance (place : Location) (c : Char) : place < place.advance c := by
  rw [lt_iff, advance]
  split
  · exact .inl (Nat.lt_succ_self _)
  · exact .inr ⟨rfl, Nat.lt_succ_self _⟩

theorem lt_advanceBy (place : Location) {text : List Char} (present : text ≠ []) : place < place.advanceBy text := by
  induction text generalizing place with
  | nil => contradiction
  | cons c text ih =>
    have step := place.lt_advance c
    cases text with
    | nil => exact step
    | cons d text => exact lt_trans step (ih (place.advance c) (by simp))

theorem advanceBy_start (text : List Char) :
    start.advanceBy text = ⟨1 + text.count '\n', 1 + (text.reverse.takeWhile (· != '\n')).length⟩ := by
  induction text using List.reverseRecOn with
  | nil => rfl
  | append_singleton text c ih =>
    rw [advanceBy_append, ih]
    change advance _ c = _
    by_cases feed : c = '\n'
    · simp [advance, feed, Nat.add_assoc]
    · simp [advance, feed, Nat.add_comm]

theorem ofOffset_append (front back : List Char) : ofOffset (front ++ back) front.length = start.advanceBy front := by
  rw [ofOffset, List.take_left, advanceBy_start]

end Location

/-- A stretch of a text, from one offset up to another. -/
structure Span where
  start : Nat
  stop : Nat

def Span.Covers (span : Span) (offset : Nat) : Prop := span.start ≤ offset ∧ offset < span.stop

/-- What it is for a token to stand there in a text. -/
structure Token.StandsAt (text : List Char) (token : Token) (span : Span) : Prop where
  nonempty : token.text ≠ ""
  ordered : span.start < span.stop
  inside : span.stop ≤ text.length
  spelt : token.text.toList = text.extract span.start span.stop
  solid : ∀ c ∈ token.text.toList, c ∉ blanks
  location : token.location = .ofOffset text span.start
  finish : token.finish = .ofOffset text span.stop

/-- What is left of a text between stretches of it, in front of them and behind them, from an offset on. -/
def gaps (text : List Char) : Nat → List Span → List (List Char)
  | offset, [] => [text.drop offset]
  | offset, span :: spans => text.extract offset span.start :: gaps text span.stop spans

/-- Gaps and pieces in turn, a gap first. -/
def interleave : List (List Char) → List (List Char) → List Char
  | gap :: gaps, piece :: pieces => gap ++ (piece ++ interleave gaps pieces)
  | gaps, pieces => gaps.flatten ++ pieces.flatten

/-- The tokens of the text behind some front, with the stretches where they stand in the whole. -/
inductive Placed : List Char → List Char → List Token → List Span → Prop where
  | done {front gap : List Char} (blank : ∀ c ∈ gap, c ∈ blanks) : Placed front gap [] []
  | token {front gap rest : List Char} {token : Token} {tokens : List Token} {spans : List Span}
      (blank : ∀ c ∈ gap, c ∈ blanks) (spelt : Lexeme token.text.toList)
      (location : token.location = Location.start.advanceBy (front ++ gap))
      (later : Placed (front ++ gap ++ token.text.toList) rest tokens spans) :
      Placed front (gap ++ (token.text.toList ++ rest)) (token :: tokens)
        (⟨(front ++ gap).length, (front ++ gap ++ token.text.toList).length⟩ :: spans)

theorem Token.finish_eq {token : Token} (solid : ∀ c ∈ token.text.toList, c ∉ blanks) :
    token.finish = token.location.advanceBy token.text.toList := by
  have flat : ∀ c ∈ token.text.toList, c ≠ '\n' := by
    rintro c member rfl
    exact solid _ member (by decide)
  rw [Location.advanceBy_of_flat _ _ flat, String.length_toList]
  rfl

theorem Token.standsAt {token : Token} {before : List Char} (rest : List Char) (spelt : Lexeme token.text.toList)
    (location : token.location = Location.start.advanceBy before) :
    token.StandsAt (before ++ (token.text.toList ++ rest)) ⟨before.length, (before ++ token.text.toList).length⟩ := by
  have present := List.length_pos_iff.2 spelt.ne_nil
  refine ⟨?_, ?_, ?_, ?_, spelt.solid, ?_, ?_⟩
  · intro empty
    rw [empty] at present
    contradiction
  · change before.length < (before ++ token.text.toList).length
    rw [List.length_append]
    omega
  · change (before ++ token.text.toList).length ≤ _
    simp only [List.length_append]
    omega
  · rw [List.extract_eq_take_drop, List.drop_left, List.length_append, Nat.add_sub_cancel_left, List.take_left]
  · rw [location, Location.ofOffset_append]
  · rw [Token.finish_eq spelt.solid, location, ← Location.advanceBy_append, ← List.append_assoc, Location.ofOffset_append]

namespace Placed

variable {front text : List Char} {tokens : List Token} {spans : List Span}

theorem blank {c : Char} (blank : c ∈ blanks) (placed : Placed (front ++ [c]) text tokens spans) :
    Placed front (c :: text) tokens spans := by
  cases placed with
  | done blanks => exact .done (List.forall_mem_cons.2 ⟨blank, blanks⟩)
  | @token _ gap rest token tokens spans blanks spelt location later =>
    rw [List.append_assoc front, List.singleton_append] at location later ⊢
    have blanks : ∀ d ∈ c :: gap, d ∈ ScriptLens.blanks := List.forall_mem_cons.2 ⟨blank, blanks⟩
    exact .token blanks spelt location later

theorem here {rest : List Char} (token : Token) (spelt : Lexeme token.text.toList)
    (location : token.location = Location.start.advanceBy front)
    (later : Placed (front ++ token.text.toList) rest tokens spans) :
    Placed front (token.text.toList ++ rest) (token :: tokens)
      (⟨front.length, (front ++ token.text.toList).length⟩ :: spans) := by
  rw [← List.append_nil front] at location later
  have placed := Placed.token (by simp) spelt location later
  rwa [List.append_nil, List.nil_append] at placed

theorem standsAt (placed : Placed front text tokens spans) :
    List.Forall₂ (Token.StandsAt (front ++ text)) tokens spans := by
  induction placed with
  | done => exact .nil
  | @token front gap rest token tokens spans blank spelt location later ih =>
    have here := Token.standsAt rest spelt location
    have whole : front ++ gap ++ token.text.toList ++ rest = front ++ (gap ++ (token.text.toList ++ rest)) := by simp
    rw [List.append_assoc front gap] at here
    rw [whole] at ih
    exact .cons here ih

theorem length_le_start (placed : Placed front text tokens spans) : ∀ span ∈ spans, front.length ≤ span.start := by
  induction placed with
  | done => simp
  | token blank spelt location later ih =>
    refine List.forall_mem_cons.2 ⟨by simp, fun span member => ?_⟩
    have bound := ih span member
    simp only [List.length_append] at bound
    omega

theorem disjoint (placed : Placed front text tokens spans) :
    spans.Pairwise fun earlier later => earlier.stop ≤ later.start := by
  induction placed with
  | done => exact .nil
  | token _ _ _ later ih => exact .cons (fun span member => later.length_le_start span member) ih

/-- What no token covers is blank. -/
theorem mem_blanks_of_uncovered (placed : Placed front text tokens spans) {offset : Nat} {c : Char}
    (behind : front.length ≤ offset) (here : (front ++ text)[offset]? = some c)
    (uncovered : ∀ span ∈ spans, ¬span.Covers offset) : c ∈ blanks := by
  induction placed with
  | done blank =>
    rw [List.getElem?_append_right behind] at here
    exact blank c (List.mem_of_getElem? here)
  | @token front gap rest token tokens spans blank spelt location later ih =>
    obtain ⟨apart, uncovered⟩ := List.forall_mem_cons.1 uncovered
    by_cases inside : offset < (front ++ gap).length
    · rw [← List.append_assoc, List.getElem?_append_left inside, List.getElem?_append_right behind] at here
      exact blank c (List.mem_of_getElem? here)
    · have passed : (front ++ gap ++ token.text.toList).length ≤ offset :=
        Nat.le_of_not_lt fun within => apart ⟨Nat.le_of_not_lt inside, within⟩
      exact ih passed (by simpa using here) uncovered

/-- The gaps are blank, and with the tokens in them they are the text again. -/
theorem gaps_fit (placed : Placed front text tokens spans) :
    (∀ gap ∈ gaps (front ++ text) front.length spans, ∀ c ∈ gap, c ∈ blanks) ∧
      interleave (gaps (front ++ text) front.length spans) (tokens.map (·.text.toList)) = text := by
  induction placed with
  | @done front gap blank =>
    have whole : gaps (front ++ gap) front.length [] = [gap] := by rw [gaps, List.drop_left]
    rw [whole]
    exact ⟨by simpa using blank, by simp [interleave]⟩
  | @token front gap rest token tokens spans blank spelt location later ih =>
    have whole : front ++ gap ++ token.text.toList ++ rest = front ++ (gap ++ (token.text.toList ++ rest)) := by simp
    have between : (front ++ (gap ++ (token.text.toList ++ rest))).extract front.length (front ++ gap).length = gap := by
      rw [List.extract_eq_take_drop, List.drop_left, List.length_append, Nat.add_sub_cancel_left, List.take_left]
    obtain ⟨blanks, rebuilt⟩ := ih
    rw [whole] at blanks rebuilt
    rw [gaps, between]
    exact ⟨List.forall_mem_cons.2 ⟨blank, blanks⟩, by rw [List.map_cons, interleave, rebuilt]⟩

theorem location_of_mem (placed : Placed front text tokens spans) :
    ∀ token ∈ tokens, ∃ more, token.location = Location.start.advanceBy (front ++ more) := by
  induction placed with
  | done => simp
  | token blank spelt location later ih =>
    refine List.forall_mem_cons.2 ⟨⟨_, location⟩, fun token member => ?_⟩
    obtain ⟨more, same⟩ := ih token member
    rw [List.append_assoc, List.append_assoc] at same
    exact ⟨_, same⟩

theorem increasing (placed : Placed front text tokens spans) :
    tokens.Pairwise fun earlier later => earlier.location < later.location := by
  induction placed with
  | done => exact .nil
  | token blank spelt location later ih =>
    refine .cons (fun token member => ?_) ih
    obtain ⟨more, same⟩ := later.location_of_mem token member
    rw [same, location, List.append_assoc (_ ++ _), Location.advanceBy_append _ (_ ++ _)]
    exact Location.lt_advanceBy _ (List.append_ne_nil_of_left_ne_nil spelt.ne_nil more)

end Placed

namespace Lexer

theorem exists_placed (front text : List Char) :
    ∃ spans, Placed front text (tokens ⟨text, Location.start.advanceBy front⟩) spans := by
  cases text with
  | nil =>
    rw [tokens_nil]
    exact ⟨[], .done (by simp)⟩
  | cons c rest =>
    by_cases blank : isBlank c
    · obtain ⟨spans, placed⟩ := exists_placed (front ++ [c]) rest
      rw [Location.advanceBy_append] at placed
      rw [tokens_blank blank]
      exact ⟨spans, placed.blank (isBlank_iff.1 blank)⟩
    · have shorter := cut_shorter c rest
      have longest := cut_longest (mt isBlank_iff.2 blank) rest
      obtain ⟨spans, placed⟩ := exists_placed (front ++ (cut c rest).1) (cut c rest).2
      obtain ⟨text, same⟩ : ∃ text : String, text.toList = (cut c rest).1 := ⟨_, String.toList_ofList⟩
      rw [Location.advanceBy_append] at placed
      rw [← cut_append c rest, longest.tokens_append]
      rw [← same] at longest placed ⊢
      rw [String.ofList_toList]
      let token : Token := ⟨.ofText text, text, Location.start.advanceBy front⟩
      exact ⟨_, Placed.here token longest.1 rfl placed⟩
termination_by text.length
decreasing_by
  · exact Nat.lt_succ_self _
  · exact shorter

end Lexer

theorem lex_increasing (source : String) :
    (lex source).Pairwise fun earlier later => earlier.location < later.location := by
  obtain ⟨spans, placed⟩ := Lexer.exists_placed [] source.toList
  exact placed.increasing

/-- Every token is a stretch of the source without blanks, the stretches follow one another, and what is between
them is blank. So the source can be put together again, and each token stands behind those before it. -/
theorem lex_places (source : String) : ∃ spans : List Span,
    List.Forall₂ (Token.StandsAt source.toList) (lex source) spans ∧
      (spans.Pairwise fun earlier later => earlier.stop ≤ later.start) ∧
      (∀ offset c, source.toList[offset]? = some c → (∀ span ∈ spans, ¬span.Covers offset) → c ∈ blanks) ∧
      (∀ gap ∈ gaps source.toList 0 spans, ∀ c ∈ gap, c ∈ blanks) ∧
      interleave (gaps source.toList 0 spans) ((lex source).map (·.text.toList)) = source.toList ∧
      (lex source).Pairwise fun earlier later => earlier.location < later.location := by
  obtain ⟨spans, placed⟩ := Lexer.exists_placed [] source.toList
  obtain ⟨blank, rebuilt⟩ := placed.gaps_fit
  exact ⟨spans, placed.standsAt, placed.disjoint,
    fun offset c => placed.mem_blanks_of_uncovered (Nat.zero_le offset), blank, rebuilt, placed.increasing⟩

end ScriptLens
