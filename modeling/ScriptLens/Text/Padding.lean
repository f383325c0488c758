/-! Columns of text: padding counts characters and never cuts. -/

namespace ScriptLens.Text

def blanks (count : Nat) : String := String.ofList (List.replicate count ' ')

/-- Fills up with blanks on the right. -/
def padRight (width : Nat) (text : String) : String := text ++ blanks (width - text.length)

/-- Fills up with blanks on the left. -/
def padLeft (width : Nat) (text : String) : String := blanks (width - text.length) ++ text

end ScriptLens.Text
