import ScriptLens.Proofs.Reports
import ScriptLens.Token.Listing

/-!
What a listing tells about the tokens in it: everything, if no line feed is in their texts. Rows end where lines end, and
in a row the place and the kind end at their first blank, however wide they are (`Text.padRight_injective`).
-/

namespace ScriptLens

namespace Text

/-- A text consists of its lines in one way. -/
theorem Consists.unique {text : String} {lines lines' : List String} (consists : Consists text lines)
    (consists' : Consists text lines') : lines = lines' := by
  have same := consists.spelt.symm.trans consists'.spelt
  have unbroken := consists.unbroken
  have unbroken' := consists'.unbroken
  clear consists consists'
  induction lines generalizing lines' with
  | nil =>
    cases lines' with
    | nil => rfl
    | cons line lines' => simp at same
  | cons line lines ih =>
    cases lines' with
    | nil => simp at same
    | cons line' lines' =>
      rw [List.forall_mem_cons] at unbroken unbroken'
      simp only [List.flatMap_cons, List.append_assoc, List.singleton_append] at same
      obtain ⟨first, later⟩ := append_injective_at unbroken.1 unbroken'.1 same
      rw [String.toList_inj.1 first, ih later unbroken.2 unbroken'.2]

/-- A column without blanks is read back from the text that starts with it and has a blank behind it. -/
theorem padRight_injective {width : Nat} {cell cell' : String} (solid : ' ' ∉ cell.toList) (solid' : ' ' ∉ cell'.toList)
    {rest rest' : List Char} (same : (padRight width cell).toList ++ ' ' :: rest =
      (padRight width cell').toList ++ ' ' :: rest') : cell = cell' ∧ rest = rest' := by
  have chars (cell : String) (rest : List Char) : (padRight width cell).toList ++ ' ' :: rest =
      cell.toList ++ ' ' :: (List.replicate (width - cell.length) ' ' ++ rest) := by
    have moved : List.replicate (width - cell.length) ' ' ++ [' '] = ' ' :: List.replicate (width - cell.length) ' ' :=
      List.replicate_succ'.symm
    calc (padRight width cell).toList ++ ' ' :: rest
        = cell.toList ++ (List.replicate (width - cell.length) ' ' ++ [' '] ++ rest) := by simp [padRight, blanks]
      _ = cell.toList ++ ' ' :: (List.replicate (width - cell.length) ' ' ++ rest) := by rw [moved, List.cons_append]
  rw [chars, chars] at same
  obtain ⟨cells, later⟩ := append_injective_at solid solid' same
  obtain rfl : cell = cell' := String.toList_inj.1 cells
  exact ⟨rfl, List.append_cancel_left later⟩

end Text
open Text

theorem eq_of_toString {number number' : Nat} (same : (toString number).toList = (toString number').toList) :
    number = number' := by
  have digits : Nat.toDigits 10 number = Nat.toDigits 10 number' :=
    Nat.toList_repr.symm.trans (same.trans Nat.toList_repr)
  have read (number : Nat) : Nat.ofDigitChars 10 (Nat.toDigits 10 number) 0 = number :=
    Nat.ofDigitChars_toDigits (by decide) (by decide)
  rw [← read number, digits, read]

namespace Location

theorem toList_text (place : Location) :
    place.text.toList = (toString place.line).toList ++ ':' :: (toString place.column).toList := by
  simp [text]

theorem solid_text (place : Location) : ' ' ∉ place.text.toList := by
  have number (number : Nat) : ' ' ∉ (toString number).toList := not_mem_toString (by decide) number
  rw [toList_text, List.mem_append, List.mem_cons]
  rintro (line | colon | column)
  · exact number place.line line
  · exact absurd colon (by decide)
  · exact number place.column column

/-- The line ends at the colon. -/
theorem text_injective {place place' : Location} (same : place.text = place'.text) : place = place' := by
  have free (number : Nat) : ':' ∉ (toString number).toList := not_mem_toString (by decide) number
  have chars := congrArg String.toList same
  rw [toList_text, toList_text] at chars
  obtain ⟨lines, columns⟩ := append_injective_at (free place.line) (free place'.line) chars
  exact congrArg₂ Location.mk (eq_of_toString lines) (eq_of_toString columns)

end Location

namespace Kind

def all : List Kind := [number, identifier, keyword, boolean] ++ symbols ++ [unknown, endOfInput]

/-- The kind with that label. -/
def ofName? (label : String) : Option Kind := all.find? fun kind => kind.name == label

theorem ofName?_name (kind : Kind) : ofName? kind.name = some kind := by
  cases kind <;> decide

theorem name_injective {kind kind' : Kind} (same : kind.name = kind'.name) : kind = kind' := by
  have found := congrArg ofName? same
  rw [ofName?_name, ofName?_name] at found
  exact Option.some.inj found

theorem solid_name (kind : Kind) : ' ' ∉ kind.name.toList ∧ Unbroken kind.name := by
  cases kind <;> decide

end Kind

namespace Token

/-- The row of a token, without its end. -/
def row (token : Token) : String :=
  padRight 8 token.location.text ++ " " ++ padRight 15 token.kind.name ++ " " ++ token.text

theorem row_injective {token token' : Token} (same : token.row = token'.row) : token = token' := by
  have chars (token : Token) : token.row.toList = (padRight 8 token.location.text).toList ++
      ' ' :: ((padRight 15 token.kind.name).toList ++ ' ' :: token.text.toList) := by
    simp [row]
  have rows := congrArg String.toList same
  rw [chars, chars] at rows
  obtain ⟨places, later⟩ := padRight_injective token.location.solid_text token'.location.solid_text rows
  obtain ⟨names, texts⟩ := padRight_injective token.kind.solid_name.1 token'.kind.solid_name.1 later
  have location : token.location = token'.location := Location.text_injective places
  have kind : token.kind = token'.kind := Kind.name_injective names
  have text : token.text = token'.text := String.toList_inj.1 texts
  calc token
      = ⟨token.kind, token.text, token.location⟩ := rfl
    _ = ⟨token'.kind, token'.text, token'.location⟩ := by rw [kind, text, location]
    _ = token' := rfl

theorem unbroken_row {token : Token} (flat : Unbroken token.text) : Unbroken token.row := by
  have padded {width : Nat} {cell : String} (flat : Unbroken cell) : Unbroken (padRight width cell) :=
    unbroken_append.2 ⟨flat, by simp [Unbroken, Text.blanks]⟩
  have place : Unbroken token.location.text := by
    simp only [Location.text, unbroken_append, unbroken_toString]
    decide
  have blank : Unbroken " " := by decide
  simp only [row, unbroken_append]
  exact ⟨⟨⟨⟨padded place, blank⟩, padded token.kind.solid_name.2⟩, blank⟩, flat⟩

theorem consists_listing {tokens : List Token} (flat : ∀ token ∈ tokens, Unbroken token.text) :
    Consists (listing tokens) (tokens.map row) := by
  have rows : (fun (rows : String) (token : Token) => rows ++ token.listingRow) =
      fun rows token => rows ++ token.row ++ "\n" := by
    funext rows token
    exact String.append_assoc.symm
  rw [listing, rows]
  exact consists_foldl row fun token member => unbroken_row (flat token member)

/-- Lists of tokens that are listed alike are the same, kind for kind, text for text and place for place, if no text
breaks a row. The tokens of a source break none. -/
theorem listing_eq_iff {tokens tokens' : List Token} (flat : ∀ token ∈ tokens, Unbroken token.text)
    (flat' : ∀ token ∈ tokens', Unbroken token.text) :
    (listing tokens = listing tokens' ↔ tokens = tokens') ∧
      ∀ source, ∀ token ∈ lex source, Unbroken token.text := by
  refine ⟨⟨fun same => ?_, congrArg listing⟩, fun source token => unbroken_of_mem_lex⟩
  have consists := consists_listing flat
  have consists' := consists_listing flat'
  rw [← same] at consists'
  have rows : tokens.map row = tokens'.map row := consists.unique consists'
  exact List.map_injective_iff.2 (fun _ _ => row_injective) rows

/-- A place that is too wide for its column, and texts with blanks and what looks like a place and a kind. -/
theorem listing_eq_wide :
    let tokens : List Token := [⟨.unknown, " 1:1      Dot", ⟨123456789, 10⟩⟩]
    let tokens' : List Token := [⟨.unknown, "1:1      Dot", ⟨123456789, 10⟩⟩]
    (∀ token ∈ tokens, Unbroken token.text) ∧ (∀ token ∈ tokens', Unbroken token.text) ∧
      listing tokens ≠ listing tokens' := by
  intro tokens tokens'
  have flat : ∀ token ∈ tokens, Unbroken token.text := by decide
  have flat' : ∀ token ∈ tokens', Unbroken token.text := by decide
  exact ⟨flat, flat', mt (listing_eq_iff flat flat').1.1 (by decide)⟩

end Token
end ScriptLens
