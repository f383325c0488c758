import ScriptLens.Proofs.Lexing

/-!
The spellings of tokens. Wherever a token starts, the longest spelling is cut off (`Lexer.cut_longest`), and a
text is cut into spellings in this one way (`Lexer.munches_iff_eq`). The kind of a token is that of its spelling.
-/

namespace ScriptLens

/-- The characters that stand between tokens and in none of them. -/
def blanks : List Char := [' ', '\t', '\r', '\n', '\x0b', '\x0c']

theorem Lexer.isBlank_iff {c : Char} : isBlank c ↔ c ∈ blanks := by
  simp [isBlank, blanks, or_assoc]

/-- A run of letters and digits; digits with a point and a digit behind them, and what follows of letters and
digits; a sign of two characters; or any single character that is no blank. -/
inductive Lexeme : List Char → Prop where
  | word {chars : List Char} (present : chars ≠ []) (alphanumeric : ∀ c ∈ chars, c.isAlphanum) : Lexeme chars
  | decimal {whole more : List Char} {digit : Char} (present : whole ≠ []) (digits : ∀ c ∈ whole, c.isDigit)
      (fraction : digit.isDigit) (alphanumeric : ∀ c ∈ more, c.isAlphanum) : Lexeme (whole ++ '.' :: digit :: more)
  | equal : Lexeme ['=', '=']
  | notEqual : Lexeme ['!', '=']
  | single {c : Char} (solid : c ∉ blanks) : Lexeme [c]

theorem not_mem_blanks_of_isAlphanum {c : Char} (alphanumeric : c.isAlphanum) : c ∉ blanks := by
  intro member
  simp only [blanks, List.mem_cons, List.not_mem_nil, or_false] at member
  rcases member with rfl | rfl | rfl | rfl | rfl | rfl <;> exact absurd alphanumeric (by decide)

theorem isAlphanum_of_isDigit {c : Char} (digit : c.isDigit) : c.isAlphanum := by
  simp [Char.isAlphanum, digit]

namespace Lexeme

variable {chars : List Char}

theorem ne_nil (lexeme : Lexeme chars) : chars ≠ [] := by
  cases lexeme with
  | word present => exact present
  | decimal => simp
  | equal => simp
  | notEqual => simp
  | single => simp

theorem solid (lexeme : Lexeme chars) : ∀ c ∈ chars, c ∉ blanks := by
  cases lexeme with
  | word present alphanumeric => exact fun c member => not_mem_blanks_of_isAlphanum (alphanumeric c member)
  | @decimal whole more digit present digits fraction alphanumeric =>
    intro c member
    rcases List.mem_append.1 member with front | back
    · exact not_mem_blanks_of_isAlphanum (isAlphanum_of_isDigit (digits c front))
    rcases List.mem_cons.1 back with rfl | back
    · decide
    rcases List.mem_cons.1 back with rfl | back
    · exact not_mem_blanks_of_isAlphanum (isAlphanum_of_isDigit fraction)
    · exact not_mem_blanks_of_isAlphanum (alphanumeric c back)
  | equal => simp [blanks]
  | notEqual => simp [blanks]
  | single solid => simpa using solid

end Lexeme

/-- A spelling at the start of a text, behind which that rest is left, and none that starts there is longer. -/
def Longest (lexeme rest : List Char) : Prop :=
  Lexeme lexeme ∧ ∀ other, other <+: lexeme ++ rest → Lexeme other → other.length ≤ lexeme.length

/-- Cutting a text into spellings: blanks are passed over, and where none is left the longest spelling is taken. -/
inductive Munches : List Char → List (List Char) → Prop where
  | done {gap : List Char} (blank : ∀ c ∈ gap, c ∈ blanks) : Munches gap []
  | lexeme {gap lexeme rest : List Char} {lexemes : List (List Char)} (blank : ∀ c ∈ gap, c ∈ blanks)
      (longest : Longest lexeme rest) (later : Munches rest lexemes) :
      Munches (gap ++ (lexeme ++ rest)) (lexeme :: lexemes)

namespace Lexer

theorem length_le_takeWhile {test : Char → Bool} {front : List Char} (passes : ∀ c ∈ front, test c)
    (back : List Char) :
    front.length ≤ ((front ++ back).takeWhile test).length := by
  rw [List.takeWhile_append_of_pos passes, List.length_append]
  exact Nat.le_add_right ..

/-- How a run of letters and digits is cut off: by itself, or with the point and the digit behind its digits. -/
theorem cut_run {first : Char} (alphanumeric : first.isAlphanum) (rest : List Char) :
    (∃ digit more, rest.dropWhile Char.isAlphanum = '.' :: digit :: more ∧ digit.isDigit ∧
      (∀ c ∈ first :: rest.takeWhile Char.isAlphanum, c.isDigit) ∧
      cut first rest = (first :: rest.takeWhile Char.isAlphanum ++ '.' :: digit :: more.takeWhile Char.isAlphanum,
        more.dropWhile Char.isAlphanum)) ∨
    (cut first rest = (first :: rest.takeWhile Char.isAlphanum, rest.dropWhile Char.isAlphanum) ∧
      ∀ digit more, rest.dropWhile Char.isAlphanum = '.' :: digit :: more → digit.isDigit →
        ¬∀ c ∈ first :: rest.takeWhile Char.isAlphanum, c.isDigit) := by
  unfold cut
  rw [if_pos alphanumeric]
  dsimp only
  split
  · next digit more after =>
    by_cases digits : (∀ c ∈ first :: rest.takeWhile Char.isAlphanum, c.isDigit) ∧ digit.isDigit
    · exact .inl ⟨digit, more, after, digits.2, digits.1, if_pos (by simpa using digits)⟩
    · refine .inr ⟨by rw [if_neg (by simpa using digits), after], fun digit' more' after' fraction all => ?_⟩
      obtain ⟨-, rfl, rfl⟩ : '.' = '.' ∧ digit = digit' ∧ more = more' := by simpa using after.symm.trans after'
      exact digits ⟨all, fraction⟩
  · next plain => exact .inr ⟨rfl, fun digit more after => absurd after (plain digit more)⟩

/-- How anything else is cut off: signs of two characters, and single characters. -/
theorem cut_sign {first : Char} (plain : first.isAlphanum = false) (rest : List Char) :
    (∃ more, rest = '=' :: more ∧ (first = '=' ∨ first = '!') ∧ cut first rest = ([first, '='], more)) ∨
    (cut first rest = ([first], rest) ∧ ∀ more, rest = '=' :: more → first ≠ '=' ∧ first ≠ '!') := by
  unfold cut
  rw [if_neg (by simp [plain])]
  split
  · exact .inl ⟨_, rfl, .inl rfl, rfl⟩
  · exact .inl ⟨_, rfl, .inr rfl, rfl⟩
  · next equal notEqual =>
    refine .inr ⟨rfl, fun more same => ⟨?_, ?_⟩⟩
    · exact fun sign => equal more sign same
    · exact fun sign => notEqual more sign same

theorem cut_lexeme {first : Char} (solid : first ∉ blanks) (rest : List Char) : Lexeme (cut first rest).1 := by
  have inside (text : List Char) : ∀ c ∈ text.takeWhile Char.isAlphanum, c.isAlphanum :=
    fun c member => List.mem_takeWhile_imp member
  cases alphanumeric : first.isAlphanum with
  | true =>
    rcases cut_run alphanumeric rest with ⟨digit, more, -, fraction, digits, same⟩ | ⟨same, -⟩
    · rw [same]
      exact .decimal (by simp) digits fraction (inside more)
    · rw [same]
      exact .word (by simp) (List.forall_mem_cons.2 ⟨alphanumeric, inside rest⟩)
  | false =>
    rcases cut_sign alphanumeric rest with ⟨more, -, rfl | rfl, same⟩ | ⟨same, -⟩
    · rw [same]
      exact .equal
    · rw [same]
      exact .notEqual
    · rw [same]
      exact .single solid

/-- A point between digits is always cut off with them. -/
theorem cut_decimal {first digit : Char} {whole rest more : List Char} (digits : ∀ c ∈ first :: whole, c.isDigit)
    (fraction : digit.isDigit) (same : rest = whole ++ '.' :: digit :: more) :
    (cut first rest).1 = first :: whole ++ '.' :: digit :: more.takeWhile Char.isAlphanum := by
  have alphanumeric : ∀ c ∈ whole, c.isAlphanum :=
    fun c member => isAlphanum_of_isDigit (digits c (List.mem_cons_of_mem _ member))
  have run : rest.takeWhile Char.isAlphanum = whole := by
    rw [same, List.takeWhile_append_of_pos alphanumeric, List.takeWhile_cons_of_neg (by decide), List.append_nil]
  have after : rest.dropWhile Char.isAlphanum = '.' :: digit :: more := by
    rw [same, List.dropWhile_append_of_pos alphanumeric, List.dropWhile_cons_of_neg (by decide)]
  rcases cut_run (isAlphanum_of_isDigit (digits first (by simp))) rest with
    ⟨digit', more', after', -, -, cuts⟩ | ⟨-, undecided⟩
  · obtain ⟨-, rfl, rfl⟩ : '.' = '.' ∧ digit = digit' ∧ more = more' := by simpa using after.symm.trans after'
    rw [cuts, run]
  · rw [run] at undecided
    exact absurd digits (undecided digit more after fraction)

/-- What is cut off is at least as long as the run that the text starts with. -/
theorem length_run_le_cut {first : Char} (alphanumeric : first.isAlphanum) (rest : List Char) :
    (first :: rest.takeWhile Char.isAlphanum).length ≤ (cut first rest).1.length := by
  rcases cut_run alphanumeric rest with ⟨digit, more, -, -, -, same⟩ | ⟨same, -⟩
  · rw [same, List.length_append]
    exact Nat.le_add_right ..
  · rw [same]

theorem length_le_cut {lexeme : List Char} (spelt : Lexeme lexeme) {first : Char} {rest : List Char}
    (starts : lexeme <+: first :: rest) : lexeme.length ≤ (cut first rest).1.length := by
  obtain ⟨behind, same⟩ := starts
  cases spelt with
  | @word chars present alphanumeric =>
    cases lexeme with
    | nil => contradiction
    | cons c chars =>
      obtain ⟨rfl, rfl⟩ : c = first ∧ chars ++ behind = rest := List.cons.inj same
      have run := length_le_takeWhile (fun d member => alphanumeric d (List.mem_cons_of_mem _ member)) behind
      have bound := length_run_le_cut (alphanumeric c (by simp)) (chars ++ behind)
      rw [List.length_cons] at bound ⊢
      omega
  | @decimal whole more digit present digits fraction alphanumeric =>
    cases whole with
    | nil => contradiction
    | cons c whole =>
      have run := length_le_takeWhile alphanumeric behind
      have point : c = first ∧ whole ++ '.' :: digit :: (more ++ behind) = rest := by simpa using same
      obtain ⟨rfl, tail⟩ := point
      rw [cut_decimal digits fraction tail.symm]
      simp only [List.length_append, List.length_cons]
      omega
  | equal =>
    obtain ⟨rfl, rfl⟩ := List.cons.inj same
    exact Nat.le_refl 2
  | notEqual =>
    obtain ⟨rfl, rfl⟩ := List.cons.inj same
    exact Nat.le_refl 2
  | single => exact List.length_pos_iff.2 (cut_ne_nil first rest)

theorem cut_longest {first : Char} (solid : first ∉ blanks) (rest : List Char) :
    Longest (cut first rest).1 (cut first rest).2 := by
  refine ⟨cut_lexeme solid rest, fun other starts spelt => ?_⟩
  rw [cut_append] at starts
  exact length_le_cut spelt starts

/-- Blanks in front change nothing but places. -/
theorem tokens_gap {gap : List Char} (blank : ∀ c ∈ gap, c ∈ blanks) (rest : List Char) (place : Location) :
    tokens ⟨gap ++ rest, place⟩ = tokens ⟨rest, place.advanceBy gap⟩ := by
  induction gap generalizing place with
  | nil => rfl
  | cons c gap ih =>
    rw [List.cons_append, tokens_blank (isBlank_iff.2 (blank c (by simp))), ih fun d member => blank d (by simp [member])]
    rfl

end Lexer

namespace Longest

variable {lexeme rest lexeme' rest' : List Char}

theorem eq_of_append (longest : Longest lexeme rest) (longest' : Longest lexeme' rest')
    (same : lexeme ++ rest = lexeme' ++ rest') : lexeme = lexeme' ∧ rest = rest' := by
  have le : lexeme'.length ≤ lexeme.length := longest.2 _ ⟨rest', same.symm⟩ longest'.1
  have ge : lexeme.length ≤ lexeme'.length := longest'.2 _ ⟨rest, same⟩ longest.1
  exact List.append_inj same (Nat.le_antisymm ge le)

/-- A spelling by itself is cut off whole. -/
theorem of_lexeme (spelt : Lexeme lexeme) : Longest lexeme [] := by
  refine ⟨spelt, fun other starts _ => ?_⟩
  simpa using starts.length_le

open Lexer

theorem cut_eq {first : Char} {others : List Char} (longest : Longest (first :: others) rest) :
    cut first (others ++ rest) = (first :: others, rest) := by
  have solid : first ∉ blanks := longest.1.solid first (by simp)
  have whole : (cut first (others ++ rest)).1 ++ (cut first (others ++ rest)).2 = first :: others ++ rest :=
    cut_append first (others ++ rest)
  obtain ⟨front, back⟩ := (cut_longest solid (others ++ rest)).eq_of_append longest whole
  exact Prod.ext front back

/-- The token that is cut off where its spelling is the longest. -/
theorem tokens_append (longest : Longest lexeme rest) (place : Location) :
    tokens ⟨lexeme ++ rest, place⟩ =
      ⟨.ofText (String.ofList lexeme), String.ofList lexeme, place⟩ :: tokens ⟨rest, place.advanceBy lexeme⟩ := by
  cases lexeme with
  | nil => exact absurd rfl longest.1.ne_nil
  | cons first others =>
    have solid : ¬isBlank first := fun blank => longest.1.solid first (by simp) (isBlank_iff.1 blank)
    rw [List.cons_append, tokens_cons solid, longest.cut_eq]

end Longest

namespace Munches

theorem blank {c : Char} (blank : c ∈ blanks) {text : List Char} {lexemes : List (List Char)}
    (munches : Munches text lexemes) : Munches (c :: text) lexemes := by
  cases munches with
  | done blanks => exact .done (List.forall_mem_cons.2 ⟨blank, blanks⟩)
  | @lexeme gap lexeme rest lexemes blanks longest later =>
    have blanks : ∀ d ∈ c :: gap, d ∈ ScriptLens.blanks := List.forall_mem_cons.2 ⟨blank, blanks⟩
    exact .lexeme blanks longest later

theorem here {lexeme rest : List Char} {lexemes : List (List Char)} (longest : Longest lexeme rest)
    (later : Munches rest lexemes) : Munches (lexeme ++ rest) (lexeme :: lexemes) := by
  have blank : ∀ c ∈ [], c ∈ blanks := by simp
  exact .lexeme blank longest later

theorem lexeme_of_mem {text : List Char} {lexemes : List (List Char)} (munches : Munches text lexemes) :
    ∀ lexeme ∈ lexemes, Lexeme lexeme := by
  induction munches with
  | done => simp
  | lexeme _ longest _ ih => exact List.forall_mem_cons.2 ⟨longest.1, ih⟩

theorem eq_tokens {text : List Char} {lexemes : List (List Char)} (munches : Munches text lexemes) (place : Location) :
    lexemes = (Lexer.tokens ⟨text, place⟩).map (·.text.toList) := by
  induction munches generalizing place with
  | @done gap blank =>
    have drained := Lexer.tokens_gap blank [] place
    rw [List.append_nil, Lexer.tokens_nil] at drained
    rw [drained]
    rfl
  | lexeme blank longest later ih =>
    rw [Lexer.tokens_gap blank, longest.tokens_append, List.map_cons, ← ih, String.toList_ofList]

end Munches

namespace Lexer

theorem munches_tokens (text : List Char) (place : Location) :
    Munches text ((tokens ⟨text, place⟩).map (·.text.toList)) := by
  cases text with
  | nil =>
    rw [tokens_nil]
    exact .done (by simp)
  | cons c rest =>
    by_cases blank : isBlank c
    · rw [tokens_blank blank]
      exact (munches_tokens rest _).blank (isBlank_iff.1 blank)
    · have shorter := cut_shorter c rest
      have longest := cut_longest (mt isBlank_iff.2 blank) rest
      have later := munches_tokens (cut c rest).2 (place.advanceBy (cut c rest).1)
      rw [← cut_append c rest, longest.tokens_append, List.map_cons, String.toList_ofList]
      exact .here longest later
termination_by text.length
decreasing_by
  · exact Nat.lt_succ_self _
  · exact shorter

theorem munches_iff_eq {text : List Char} {lexemes : List (List Char)} (place : Location) :
    Munches text lexemes ↔ lexemes = (tokens ⟨text, place⟩).map (·.text.toList) :=
  ⟨fun munches => munches.eq_tokens place, fun same => same ▸ munches_tokens text place⟩

theorem lexeme_of_mem_tokens {text : List Char} {place : Location} {token : Token}
    (member : token ∈ tokens ⟨text, place⟩) : Lexeme token.text.toList :=
  (munches_tokens text place).lexeme_of_mem _ (List.mem_map_of_mem member)

end Lexer

/-- Digits, and between them a decimal point or none. -/
def IsNumeral (chars : List Char) : Prop :=
  ∃ whole, whole ≠ [] ∧ (∀ c ∈ whole, c.isDigit) ∧
    (chars = whole ∨ ∃ fraction, fraction ≠ [] ∧ (∀ c ∈ fraction, c.isDigit) ∧ chars = whole ++ '.' :: fraction)

/-- Letters and digits, of which the first is a letter. -/
def IsName (chars : List Char) : Prop := (∃ first ∈ chars.head?, first.isAlpha) ∧ ∀ c ∈ chars, c.isAlphanum

namespace Kind

/-- The spellings of a kind, each kind apart. -/
def Spells (kind : Kind) (text : String) : Prop :=
  match kind with
  | number => IsNumeral text.toList
  | keyword => ∃ word : Keyword, word.text = text
  | boolean => text = "true" ∨ text = "false"
  | identifier => IsName text.toList ∧ (¬∃ word : Keyword, word.text = text) ∧ text ≠ "true" ∧ text ≠ "false"
  | unknown => ¬IsNumeral text.toList ∧ ¬IsName text.toList ∧ ∀ other : Kind, other.symbol? ≠ some text
  | endOfInput => False
  | symbol => symbol.symbol? = some text

/-- All letters come behind the digits. -/
theorem isDigit_eq_false_of_isAlpha {c : Char} (alpha : c.isAlpha) : c.isDigit = false := by
  have letter : 'A'.val ≤ c.val := by
    rcases Bool.or_eq_true_iff.1 alpha with upper | lower
    · have bounds : 'A'.val ≤ c.val ∧ c.val ≤ 'Z'.val := of_decide_eq_true upper
      exact bounds.1
    · have bound : 'a'.val ≤ c.val := of_decide_eq_true (Bool.and_eq_true_iff.1 lower).1
      exact UInt32.le_trans (by decide) bound
  have above : ¬c.val ≤ '9'.val := UInt32.not_le.2 (UInt32.lt_of_lt_of_le (by decide) letter)
  exact Bool.and_eq_false_iff.2 (.inr (decide_eq_false above))

theorem ofText_of_numeral {text : String} (numeral : IsNumeral text.toList) : ofText text = number := by
  obtain ⟨whole, present, digits, form⟩ := numeral
  have first : text.toList.head?.any Char.isDigit := by
    cases whole with
    | nil => contradiction
    | cons c whole =>
      have digit : c.isDigit := digits c (by simp)
      rcases form with same | ⟨fraction, -, -, same⟩ <;> simp [same, digit]
  have all : text.toList.all fun c => c.isDigit || c == '.' := by
    rcases form with same | ⟨fraction, -, digits', same⟩ <;> grind
  rw [ofText]
  simp only [first, all, if_true]

theorem ofText_of_name {text : String} (name : IsName text.toList) :
    ofText text = if (Keyword.ofText? text).isSome then keyword
      else if text == "true" || text == "false" then boolean else identifier := by
  obtain ⟨⟨first, head, alpha⟩, -⟩ := name
  rw [ofText, Option.mem_def.1 head]
  simp [alpha, isDigit_eq_false_of_isAlpha alpha]

theorem isName_word (word : Keyword) : IsName word.text.toList := by
  have alphanumeric : ∀ c ∈ word.text.toList, c.isAlphanum := List.all_eq_true.1 (by cases word <;> rfl)
  cases word <;> exact ⟨⟨_, rfl, by decide⟩, alphanumeric⟩

theorem spells_of_symbol {kind : Kind} {text : String} (symbol : kind.symbol? = some text) : kind.Spells text := by
  cases kind <;> simp_all [Spells, symbol?]

theorem ofText_of_symbol {kind : Kind} {text : String} (symbol : kind.symbol? = some text) : ofText text = kind := by
  cases kind <;> simp only [symbol?, Option.some.injEq, reduceCtorEq] at symbol <;> subst symbol <;> decide

/-- A spelling that starts with a digit is a numeral if it holds no letter. -/
theorem isNumeral_of_lexeme {chars : List Char} (lexeme : Lexeme chars) (first : chars.head?.any Char.isDigit)
    (all : chars.all fun c => c.isDigit || c == '.') : IsNumeral chars := by
  have digits {more : List Char} (alphanumeric : ∀ c ∈ more, c.isAlphanum)
      (all : ∀ c ∈ more, c.isDigit || c == '.') : ∀ c ∈ more, c.isDigit := by
    intro c member
    rcases Bool.or_eq_true_iff.1 (all c member) with digit | point
    · exact digit
    · obtain rfl : c = '.' := by simpa using point
      exact absurd (alphanumeric _ member) (by decide)
  rw [List.all_eq_true] at all
  cases lexeme with
  | word present alphanumeric => exact ⟨chars, present, digits alphanumeric all, .inl rfl⟩
  | @decimal whole more digit present digits' fraction alphanumeric =>
    have inside := digits alphanumeric fun c member => all c (by simp [member])
    exact ⟨whole, present, digits', .inr ⟨digit :: more, by simp, by simpa [fraction] using inside, rfl⟩⟩
  | equal => exact absurd first (by decide)
  | notEqual => exact absurd first (by decide)
  | @single c solid =>
    have digit : ∀ d ∈ [c], d.isDigit := by simpa using first
    exact ⟨[c], by simp, digit, .inl rfl⟩

theorem isName_of_lexeme {chars : List Char} (lexeme : Lexeme chars) (first : chars.head?.any Char.isAlpha) :
    IsName chars := by
  have head : ∃ c ∈ chars.head?, c.isAlpha := by simpa [Option.any_eq_true] using first
  refine ⟨head, ?_⟩
  cases lexeme with
  | word present alphanumeric => exact alphanumeric
  | @decimal whole more digit present digits fraction alphanumeric =>
    cases whole with
    | nil => contradiction
    | cons c whole =>
      have plain := isDigit_eq_false_of_isAlpha (show c.isAlpha by simpa using first)
      exact absurd (digits c (by simp)) (by simp [plain])
  | equal => exact absurd first (by decide)
  | notEqual => exact absurd first (by decide)
  | @single c solid =>
    have alpha : c.isAlpha := by simpa using first
    simp [Char.isAlphanum, alpha]

theorem ofText_of_spells {kind : Kind} {text : String} (lexeme : Lexeme text.toList) (spells : kind.Spells text) :
    ofText text = kind := by
  cases kind with
  | number => exact ofText_of_numeral spells
  | keyword =>
    obtain ⟨word, rfl⟩ := spells
    rw [ofText_of_name (isName_word word), Keyword.ofText?_eq_some.2 rfl]
    rfl
  | boolean => rcases spells with rfl | rfl <;> decide
  | identifier =>
    obtain ⟨name, unreserved, neither⟩ := spells
    have none : Keyword.ofText? text = none := by
      simpa [Option.eq_none_iff_forall_ne_some, Keyword.ofText?_eq_some] using unreserved
    rw [ofText_of_name name, none]
    simp [neither]
  | unknown =>
    obtain ⟨noNumeral, noName, noSymbol⟩ := spells
    have none : ofSymbol? text = none := by
      simpa [Option.eq_none_iff_forall_ne_some, ofSymbol?_eq_some] using noSymbol
    rw [ofText]
    split
    · next first =>
      rw [if_neg fun all => noNumeral (isNumeral_of_lexeme lexeme first all)]
    · rw [if_neg fun first => noName (isName_of_lexeme lexeme first), none]
      rfl
  | endOfInput => exact spells.elim
  | _ => exact ofText_of_symbol spells

theorem exists_spells (text : String) : ∃ kind : Kind, kind.Spells text := by
  by_cases numeral : IsNumeral text.toList
  · exact ⟨number, numeral⟩
  by_cases reserved : ∃ word : Keyword, word.text = text
  · exact ⟨keyword, reserved⟩
  by_cases truth : text = "true" ∨ text = "false"
  · exact ⟨boolean, truth⟩
  by_cases name : IsName text.toList
  · exact ⟨identifier, name, reserved, not_or.1 truth⟩
  by_cases symbol : ∃ kind : Kind, kind.symbol? = some text
  · obtain ⟨kind, symbol⟩ := symbol
    exact ⟨kind, spells_of_symbol symbol⟩
  · exact ⟨unknown, numeral, name, not_exists.1 symbol⟩

/-- The kinds of tokens are told apart by their spellings. -/
theorem ofText_eq_iff {text : String} (lexeme : Lexeme text.toList) (kind : Kind) :
    ofText text = kind ↔ kind.Spells text := by
  constructor
  · rintro rfl
    obtain ⟨kind, spells⟩ := exists_spells text
    rwa [ofText_of_spells lexeme spells]
  · exact ofText_of_spells lexeme

end Kind

/-- A source is cut into the longest spellings and in no other way, and each token has the kind of its spelling. -/
theorem lex_munches (source : String) :
    (∀ lexemes, Munches source.toList lexemes ↔ lexemes = (lex source).map (·.text.toList)) ∧
      ∀ token ∈ lex source, ∀ kind : Kind, token.kind = kind ↔ kind.Spells token.text := by
  constructor
  · exact fun lexemes => Lexer.munches_iff_eq .start
  · intro token member kind
    have own : token.kind = .ofText token.text := Lexer.kind_of_mem_tokens source.toList .start token member
    rw [own]
    exact Kind.ofText_eq_iff (Lexer.lexeme_of_mem_tokens member) kind

end ScriptLens
