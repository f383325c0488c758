import ScriptLens.Proofs.Places

/-!
Blanks only keep tokens apart. A spelling that can go on goes on within two characters (`Lexeme.goes_on`), so
those two decide where it ends (`Longest.of_stuck`). With other blanks in the gaps (`Respaced`) no two characters
come to stand behind a token that did not stand there before.
-/

namespace ScriptLens

/-- Other blanks in the gaps: as many gaps, and two pieces that were kept apart still are. -/
structure Respaced (gaps other : List (List Char)) : Prop where
  length_eq : other.length = gaps.length
  blank : ∀ gap ∈ other, ∀ c ∈ gap, c ∈ blanks
  apart : ∀ index, 0 < index → index + 1 < gaps.length → gaps[index]? ≠ some [] → other[index]? ≠ some []

theorem length_gaps (text : List Char) (offset : Nat) (spans : List Span) :
    (gaps text offset spans).length = spans.length + 1 := by
  induction spans generalizing offset with
  | nil => rfl
  | cons span spans ih => rw [gaps, List.length_cons, ih, List.length_cons]

theorem forall_mem_next {test : Char → Prop} {front back : List Char} {c : Char}
    (all : ∀ d ∈ front ++ c :: back, test d) : ∀ d ∈ front ++ [c], test d := by
  rw [List.append_cons] at all
  exact fun d member => all d (List.mem_append_left back member)

namespace Lexeme

variable {lexeme : List Char}

/-- A point that nothing stands in front of is by itself. -/
theorem eq_point {rest : List Char} (spelt : Lexeme ('.' :: rest)) : rest = [] := by
  generalize same : '.' :: rest = chars at spelt
  cases spelt with
  | word present alphanumeric =>
    subst same
    exact absurd (alphanumeric '.' (by simp)) (by decide)
  | @decimal whole more digit present digits =>
    cases whole with
    | nil => contradiction
    | cons c whole =>
      have point : '.' = c := (List.cons.inj same).1
      subst point
      exact absurd (digits '.' (by simp)) (by decide)
  | equal => simp at same
  | notEqual => simp at same
  | single => exact (List.cons.inj same).2

/-- No number ends in its point. -/
theorem not_pointed {whole : List Char} (present : whole ≠ []) : ¬Lexeme (whole ++ ['.']) := by
  intro spelt
  generalize same : whole ++ ['.'] = chars at spelt
  cases spelt with
  | word _ alphanumeric =>
    subst same
    exact absurd (alphanumeric '.' (by simp)) (by decide)
  | @decimal whole' more digit _ _ fraction alphanumeric =>
    have last : '.' ∈ digit :: more := by
      have ends := congrArg List.getLast? same
      rw [List.getLast?_append, List.getLast?_append, List.getLast?_cons_cons] at ends
      exact List.mem_of_getLast? (by simpa using ends.symm)
    rcases List.mem_cons.1 last with rfl | member
    · exact absurd fraction (by decide)
    · exact absurd (alphanumeric '.' member) (by decide)
  | equal => simpa using congrArg List.getLast? same
  | notEqual => simpa using congrArg List.getLast? same
  | single =>
    have short := congrArg List.length same
    have long := List.length_pos_iff.2 present
    rw [List.length_append, List.length_singleton, List.length_singleton] at short
    omega

/-- A longer spelling is reached by one character, or by the point of a number and the digit behind it. -/
theorem goes_on {ahead : List Char} (spelt : Lexeme lexeme) (longer : Lexeme (lexeme ++ ahead))
    (present : ahead ≠ []) :
    (∃ c, [c] <+: ahead ∧ Lexeme (lexeme ++ [c])) ∨
      ∃ digit : Char, digit.isDigit ∧ ['.', digit] <+: ahead ∧ Lexeme (lexeme ++ ['.', digit]) := by
  cases ahead with
  | nil => contradiction
  | cons c ahead =>
    have next : [c] <+: c :: ahead := ⟨ahead, rfl⟩
    by_cases last : ahead = []
    · subst last
      exact .inl ⟨c, next, longer⟩
    have long : 2 < (lexeme ++ c :: ahead).length := by
      have first := List.length_pos_iff.2 spelt.ne_nil
      have second := List.length_pos_iff.2 last
      rw [List.length_append, List.length_cons]
      omega
    generalize same : lexeme ++ c :: ahead = chars at longer long
    cases longer with
    | word _ alphanumeric =>
      subst same
      exact .inl ⟨c, next, .word (by simp) (forall_mem_next alphanumeric)⟩
    | @decimal whole more digit nonempty digits fraction alphanumeric =>
      -- The border lies among the digits in front of the point, or at the point, or behind the digit after it.
      have atPoint (front : lexeme = whole) (back : c :: ahead = '.' :: digit :: more) :
          ∃ digit : Char, digit.isDigit ∧ ['.', digit] <+: c :: ahead ∧ Lexeme (lexeme ++ ['.', digit]) := by
        rw [front, back]
        exact ⟨digit, fraction, ⟨more, rfl⟩, .decimal nonempty digits fraction (by simp)⟩
      rcases List.append_eq_append_iff.1 same with ⟨left, front, back⟩ | ⟨passed, front, back⟩
      · cases left with
        | nil => exact .inr (atPoint (by simpa using front.symm) back)
        | cons d left =>
          obtain rfl : c = d := (List.cons.inj back).1
          rw [front] at digits
          have within : ∀ d ∈ lexeme ++ [c], d.isAlphanum :=
            fun d member => isAlphanum_of_isDigit (forall_mem_next digits d member)
          exact .inl ⟨c, next, .word (by simp) within⟩
      · subst front
        match passed with
        | [] => exact .inr (atPoint (by simp) back.symm)
        | ['.'] => exact absurd spelt (not_pointed nonempty)
        | point :: digit' :: passed =>
          obtain ⟨rfl, rfl, rfl⟩ : '.' = point ∧ digit = digit' ∧ more = passed ++ c :: ahead := by
            simpa using back
          have grown := Lexeme.decimal nonempty digits fraction (forall_mem_next alphanumeric)
          exact .inl ⟨c, next, by simpa using grown⟩
    | equal => exact absurd long (by decide)
    | notEqual => exact absurd long (by decide)
    | single => exact absurd long (by simp)

end Lexeme

namespace Longest

variable {lexeme rest : List Char}

theorem stuck (longest : Longest lexeme rest) {ahead : List Char} (starts : ahead <+: rest) (present : ahead ≠ []) :
    ¬Lexeme (lexeme ++ ahead) := by
  intro longer
  have bound := longest.2 _ ((List.prefix_append_right_inj lexeme).2 starts) longer
  have positive := List.length_pos_iff.2 present
  rw [List.length_append] at bound
  omega

theorem of_stuck (spelt : Lexeme lexeme) (one : ∀ c, [c] <+: rest → ¬Lexeme (lexeme ++ [c]))
    (two : ∀ digit : Char, digit.isDigit → ['.', digit] <+: rest → ¬Lexeme (lexeme ++ ['.', digit])) :
    Longest lexeme rest := by
  refine ⟨spelt, fun other starts longer => ?_⟩
  by_contra exceeds
  obtain ⟨ahead, rfl⟩ := List.prefix_of_prefix_length_le (List.prefix_append lexeme rest) starts (by omega)
  have starts : ahead <+: rest := (List.prefix_append_right_inj lexeme).1 starts
  have present : ahead ≠ [] := by
    rintro rfl
    simp at exceeds
  rcases spelt.goes_on longer present with ⟨c, first, grown⟩ | ⟨digit, fraction, first, grown⟩
  · exact one c (first.trans starts) grown
  · exact two digit fraction (first.trans starts) grown

end Longest

namespace Munches

variable {text : List Char} {lexemes : List (List Char)}

theorem of_gap {gap : List Char} (blank : ∀ c ∈ gap, c ∈ blanks) (munches : Munches (gap ++ text) lexemes) :
    Munches text lexemes := by
  have same := munches.eq_tokens .start
  rw [Lexer.tokens_gap blank] at same
  exact (Lexer.munches_iff_eq _).2 same

theorem of_lexeme {lexeme rest : List Char} (munches : Munches (lexeme ++ rest) (lexeme :: lexemes)) :
    Longest lexeme rest ∧ Munches rest lexemes := by
  have spelt : Lexeme lexeme := munches.lexeme_of_mem lexeme (by simp)
  generalize same : lexeme ++ rest = text at munches
  cases munches with
  | @lexeme gap _ rest' _ blank longest later =>
    cases gap with
    | nil =>
      obtain rfl : rest = rest' := List.append_cancel_left same
      exact ⟨longest, later⟩
    | cons c gap =>
      have first : lexeme.head? = some c := by
        have head := congrArg List.head? same
        rwa [List.head?_append_of_ne_nil _ spelt.ne_nil] at head
      exact absurd (blank c (by simp)) (spelt.solid c (List.mem_of_head? first))

theorem spelling_tokens (munches : Munches text lexemes) (place : Location) :
    (Lexer.tokens ⟨text, place⟩).map Lexer.spelling =
      lexemes.map fun lexeme => (.ofText (String.ofList lexeme), String.ofList lexeme) := by
  rw [munches.eq_tokens place, List.map_map]
  apply List.map_congr_left
  intro token member
  have own := Lexer.kind_of_mem_tokens text place token member
  simp [Lexer.spelling, own]

end Munches

/-- Where a character that is no blank comes first there is no gap, and a piece that it belongs to. -/
theorem interleave_eq_cons {gap : List Char} {gaps pieces : List (List Char)} (blank : ∀ c ∈ gap, c ∈ blanks)
    (length : gaps.length = pieces.length) (spelt : ∀ piece ∈ pieces, Lexeme piece) {c : Char} {more : List Char}
    (solid : c ∉ blanks) (starts : interleave (gap :: gaps) pieces = c :: more) :
    gap = [] ∧ ∃ piece pieces', pieces = (c :: piece) :: pieces' ∧ more = piece ++ interleave gaps pieces' := by
  cases pieces with
  | nil =>
    have last : gaps = [] := List.length_eq_zero_iff.1 length
    have inside : gap = c :: more := by simpa [last, interleave] using starts
    exact absurd (blank c (by simp [inside])) solid
  | cons piece pieces =>
    rw [interleave] at starts
    cases gap with
    | cons d gap =>
      obtain rfl : d = c := (List.cons.inj starts).1
      exact absurd (blank d (by simp)) solid
    | nil =>
      cases piece with
      | nil => exact absurd rfl (spelt [] (by simp)).ne_nil
      | cons d piece =>
        obtain ⟨rfl, rest⟩ := List.cons.inj starts
        exact ⟨rfl, piece, pieces, rfl, rest.symm⟩

namespace Respaced

variable {gap gap' : List Char} {gaps other pieces : List (List Char)}

theorem tail (respaced : Respaced (gap :: gaps) (gap' :: other)) : Respaced gaps other := by
  refine ⟨?_, fun gap member => respaced.blank gap (List.mem_cons_of_mem _ member), fun index _ inside wide => ?_⟩
  · simpa using respaced.length_eq
  · have kept := respaced.apart (index + 1) (Nat.succ_pos index) (by rw [List.length_cons]; omega)
    rw [List.getElem?_cons_succ, List.getElem?_cons_succ] at kept
    exact kept wide

/-- Where a piece comes at once it came at once before. -/
theorem exposed (respaced : Respaced (gap :: gaps) (gap' :: other)) (length : gaps.length = pieces.length + 1)
    (spelt : ∀ piece ∈ pieces, Lexeme piece) {c : Char} {more : List Char} (solid : c ∉ blanks)
    (starts : interleave other pieces = c :: more) :
    ∃ gaps' other' piece pieces', gaps = [] :: gaps' ∧ other = [] :: other' ∧
      pieces = (c :: piece) :: pieces' ∧ more = piece ++ interleave other' pieces' := by
  have length_eq : other.length = gaps.length := respaced.tail.length_eq
  cases gaps with
  | nil => simp at length
  | cons first gaps =>
    cases other with
    | nil => simp at length_eq
    | cons first' other =>
      simp only [List.length_cons] at length length_eq
      obtain ⟨rfl, piece, pieces, rfl, rest⟩ :=
        interleave_eq_cons (respaced.blank first' (by simp)) (by omega) spelt solid starts
      have narrow : first = [] := by
        by_contra wide
        have kept := respaced.apart 1 Nat.one_pos (by simp only [List.length_cons] at length ⊢; omega)
        simp [wide] at kept
      exact ⟨gaps, other, piece, pieces, by rw [narrow], rfl, rfl, rest⟩

end Respaced

theorem Longest.respaced {gap gap' lexeme : List Char} {gaps other pieces : List (List Char)}
    (longest : Longest lexeme (interleave gaps pieces)) (respaced : Respaced (gap :: gaps) (gap' :: other))
    (length : gaps.length = pieces.length + 1) (spelt : ∀ piece ∈ pieces, Lexeme piece) :
    Longest lexeme (interleave other pieces) := by
  apply Longest.of_stuck longest.1
  · rintro c ⟨more, starts⟩ grown
    have solid : c ∉ blanks := grown.solid c (by simp)
    obtain ⟨gaps, other, piece, pieces, rfl, rfl, rfl, -⟩ := respaced.exposed length spelt solid starts.symm
    have before : [c] <+: interleave ([] :: gaps) ((c :: piece) :: pieces) := ⟨_, rfl⟩
    exact longest.stuck before (List.cons_ne_nil c []) grown
  · rintro digit fraction ⟨more, starts⟩ grown
    have solid : '.' ∉ blanks := by decide
    obtain ⟨gaps, other, piece, pieces, rfl, rfl, rfl, back⟩ := respaced.exposed length spelt solid starts.symm
    obtain rfl : piece = [] := (spelt ('.' :: piece) (by simp)).eq_point
    have solid : digit ∉ blanks := not_mem_blanks_of_isAlphanum (isAlphanum_of_isDigit fraction)
    have length : gaps.length = pieces.length + 1 := by simpa using length
    have spelt : ∀ piece ∈ pieces, Lexeme piece := fun piece member => spelt piece (by simp [member])
    obtain ⟨gaps, other, piece, pieces, rfl, rfl, rfl, -⟩ := respaced.tail.exposed length spelt solid back.symm
    have before : ['.', digit] <+: interleave ([] :: [] :: gaps) (['.'] :: (digit :: piece) :: pieces) := ⟨_, rfl⟩
    exact longest.stuck before (List.cons_ne_nil '.' [digit]) grown

theorem Munches.respaced {gaps other pieces : List (List Char)} (munches : Munches (interleave gaps pieces) pieces)
    (length : gaps.length = pieces.length + 1) (blank : ∀ gap ∈ gaps, ∀ c ∈ gap, c ∈ blanks)
    (respaced : Respaced gaps other) : Munches (interleave other pieces) pieces := by
  have length' : other.length = pieces.length + 1 := respaced.length_eq.trans length
  induction pieces generalizing gaps other with
  | nil =>
    obtain ⟨gap, rfl⟩ := List.length_eq_one_iff.1 length'
    exact .done (by simpa [interleave] using respaced.blank)
  | cons piece pieces ih =>
    cases gaps with
    | nil => simp at length
    | cons gap gaps =>
      cases other with
      | nil => simp at length'
      | cons gap' other =>
        have length : gaps.length = pieces.length + 1 := by simpa using length
        have length' : other.length = pieces.length + 1 := by simpa using length'
        obtain ⟨front, blank⟩ := List.forall_mem_cons.1 blank
        obtain ⟨longest, later⟩ := (munches.of_gap front).of_lexeme
        have longest' := longest.respaced respaced length later.lexeme_of_mem
        have front' : ∀ c ∈ gap', c ∈ blanks := respaced.blank gap' (by simp)
        exact .lexeme front' longest' (ih later length blank respaced.tail length')

/-- No gap in front and none behind, and so many gaps of one space between. -/
def spaces (between : Nat) : List (List Char) := [] :: (List.replicate between [' '] ++ [[]])

theorem interleave_spaces (first : List Char) (pieces : List (List Char)) :
    interleave (spaces pieces.length) (first :: pieces) = [' '].intercalate (first :: pieces) := by
  induction pieces generalizing first with
  | nil => simp [spaces, interleave]
  | cons piece pieces ih =>
    have later := ih piece
    rw [spaces, interleave, List.nil_append] at later
    rw [List.intercalate_cons_cons, ← later]
    simp [spaces, interleave, List.replicate_succ]

theorem respaced_spaces {gaps : List (List Char)} {between : Nat} (length : gaps.length = between + 2) :
    Respaced gaps (spaces between) := by
  refine ⟨by simp [spaces, length], ?_, fun index front back _ => ?_⟩
  · intro gap member
    simp only [spaces, List.mem_cons, List.mem_append, List.not_mem_nil, or_false] at member
    rcases member with rfl | member | rfl
    · simp
    · rw [List.eq_of_mem_replicate member]
      simp [blanks]
    · simp
  · cases index with
    | zero => contradiction
    | succ index =>
      have inside : index < between := by omega
      simp [spaces, List.getElem?_append, inside]

/-- Tokens are kept apart by blanks, of which it matters only that there are some: with other blanks in its gaps a
source has the same tokens, and so have their texts with a space between any two. -/
theorem lex_respaced (source : String) :
    (∃ spans : List Span, List.Forall₂ (Token.StandsAt source.toList) (lex source) spans ∧
      interleave (gaps source.toList 0 spans) ((lex source).map (·.text.toList)) = source.toList ∧
      ∀ other, Respaced (gaps source.toList 0 spans) other →
        (lex (String.ofList (interleave other ((lex source).map (·.text.toList))))).map Lexer.spelling =
          (lex source).map Lexer.spelling) ∧
      (lex (" ".intercalate ((lex source).map (·.text)))).map Lexer.spelling = (lex source).map Lexer.spelling := by
  obtain ⟨spans, placed⟩ := Lexer.exists_placed [] source.toList
  change Placed [] source.toList (lex source) spans at placed
  obtain ⟨blank, rebuilt⟩ := placed.gaps_fit
  have stands : List.Forall₂ (Token.StandsAt source.toList) (lex source) spans := placed.standsAt
  have length : (gaps source.toList 0 spans).length = ((lex source).map (·.text.toList)).length + 1 := by
    rw [length_gaps, List.length_map, stands.length_eq]
  have munches : Munches source.toList ((lex source).map (·.text.toList)) := Lexer.munches_tokens _ _
  have kept (other : List (List Char)) (respaced : Respaced (gaps source.toList 0 spans) other) :
      (lex (String.ofList (interleave other ((lex source).map (·.text.toList))))).map Lexer.spelling =
        (lex source).map Lexer.spelling := by
    have munches' := Munches.respaced (rebuilt.symm ▸ munches) length blank respaced
    rw [lex, Lexer.ofSource, String.toList_ofList, munches'.spelling_tokens]
    exact (munches.spelling_tokens .start).symm
  refine ⟨⟨spans, stands, rebuilt, kept⟩, ?_⟩
  have joined : " ".intercalate ((lex source).map (·.text)) =
      String.ofList ([' '].intercalate ((lex source).map (·.text.toList))) := by
    apply String.toList_inj.1
    simp [String.toList_intercalate, Function.comp_def]
  rw [joined]
  cases texts : (lex source).map (·.text.toList) with
  | nil =>
    have none : lex source = [] := List.map_eq_nil_iff.1 texts
    rw [none]
    exact congrArg _ (Lexer.tokens_nil .start)
  | cons first pieces =>
    have spaced := kept (spaces pieces.length) (respaced_spaces (by rw [length, texts, List.length_cons]))
    rwa [texts, interleave_spaces] at spaced

end ScriptLens
