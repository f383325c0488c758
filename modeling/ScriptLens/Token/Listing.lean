import ScriptLens.Token.Basic
import ScriptLens.Text.Padding

/-! A list of tokens as text, one row each: place, kind, and the token's own text to the end of the row. -/

namespace ScriptLens.Token
open Text

def listingRow (token : Token) : String :=
  padRight 8 token.location.text ++ " " ++ padRight 15 token.kind.name ++ " " ++ token.text ++ "\n"

def listing (tokens : List Token) : String :=
  tokens.foldl (fun rows token => rows ++ token.listingRow) ""

end ScriptLens.Token
