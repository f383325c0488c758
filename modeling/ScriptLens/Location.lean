/-! Places in a source text, as a reader counts them. -/

namespace ScriptLens

/-- Lines and columns count from one; a column counts characters, whatever their width. -/
structure Location where
  line : Nat
  column : Nat
  deriving DecidableEq

namespace Location

def start : Location := ⟨1, 1⟩

/-- The place after a character that stands here: only a line feed opens a new line. -/
def advance (place : Location) (c : Char) : Location :=
  if c = '\n' then ⟨place.line + 1, 1⟩ else ⟨place.line, place.column + 1⟩

/-- The place after a whole text that starts here. -/
def advanceBy (place : Location) (text : List Char) : Location :=
  text.foldl advance place

theorem advanceBy_append (place : Location) (front back : List Char) :
    place.advanceBy (front ++ back) = (place.advanceBy front).advanceBy back :=
  List.foldl_append

/-- A text without line feeds moves the column only. -/
theorem advanceBy_of_flat (place : Location) (text : List Char) (flat : ∀ c ∈ text, c ≠ '\n') :
    place.advanceBy text = ⟨place.line, place.column + text.length⟩ := by
  induction text generalizing place with
  | nil => rfl
  | cons c rest ih =>
    have step : place.advance c = ⟨place.line, place.column + 1⟩ := if_neg (flat c (by simp))
    change (place.advance c).advanceBy rest = _
    rw [step, ih _ fun d member => flat d (by simp [member])]
    simp only [List.length_cons, Nat.add_assoc, Nat.add_comm 1]

def text (place : Location) : String :=
  toString place.line ++ ":" ++ toString place.column

end Location
end ScriptLens
