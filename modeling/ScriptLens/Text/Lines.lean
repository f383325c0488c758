/-! The lines of a text. A line feed ends a line and takes a carriage return right in front of it along. -/

namespace ScriptLens.Text

/-- The line whose characters stand in reverse, without the carriage return that belongs to its end. -/
def finishedLine : List Char → String
  | '\r' :: reversed => String.ofList reversed.reverse
  | reversed => String.ofList reversed.reverse

/-- Goes on behind an unfinished line and finished ones, all in reverse. -/
def splitLines (unfinished : List Char) (finished : List String) : List Char → List String
  | [] =>
    if unfinished.isEmpty then finished.reverse
    else (String.ofList unfinished.reverse :: finished).reverse
  | '\n' :: rest => splitLines [] (finishedLine unfinished :: finished) rest
  | c :: rest => splitLines (c :: unfinished) finished rest

/-- A line feed at the very end opens no further line. -/
def lines (text : String) : List String := splitLines [] [] text.toList

end ScriptLens.Text
