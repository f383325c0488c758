import ScriptLens.Location

/-!
The words of VkScript. The kind of a word is a function of its spelling (`Kind.ofText`), but a token
carries its kind beside its text, so that a list of tokens can also come from elsewhere.
-/

namespace ScriptLens

inductive Keyword where
  | varKw | ifKw | elseKw | whileKw | andKw | orKw | returnKw
  deriving DecidableEq

namespace Keyword

def text : Keyword → String
  | varKw => "var"
  | ifKw => "if"
  | elseKw => "else"
  | whileKw => "while"
  | andKw => "and"
  | orKw => "or"
  | returnKw => "return"

def all : List Keyword := [varKw, ifKw, elseKw, whileKw, andKw, orKw, returnKw]

/-- Reserved words are spelt in lower case, exactly. -/
def ofText? (word : String) : Option Keyword :=
  all.find? fun keyword => keyword.text == word

theorem ofText?_eq_some {word : String} {keyword : Keyword} :
    ofText? word = some keyword ↔ keyword.text = word := by
  constructor
  · intro found
    simpa using List.find?_some found
  · rintro rfl
    cases keyword <;> decide

end Keyword

inductive Kind where
  | number | identifier | keyword | boolean
  | assign | equal | notEqual | plus | minus | times | divide | greater | less
  | leftParen | rightParen | leftBrace | rightBrace | semicolon | comma | dot
  | unknown | endOfInput
  deriving DecidableEq

namespace Kind

/-- The label of a kind in listings. -/
def name : Kind → String
  | number => "Number"
  | identifier => "Identifier"
  | keyword => "Keyword"
  | boolean => "BooleanLiteral"
  | assign => "Assign"
  | equal => "Equal"
  | notEqual => "NotEqual"
  | plus => "Plus"
  | minus => "Minus"
  | times => "Mul"
  | divide => "Div"
  | greater => "GreaterThan"
  | less => "LessThan"
  | leftParen => "LeftParen"
  | rightParen => "RightParen"
  | leftBrace => "LeftBrace"
  | rightBrace => "RightBrace"
  | semicolon => "Semicolon"
  | comma => "Comma"
  | dot => "Dot"
  | unknown => "Unknown"
  | endOfInput => "EndOfInput"

/-- The spelling of an operator or a punctuation mark. -/
def symbol? : Kind → Option String
  | assign => some "="
  | equal => some "=="
  | notEqual => some "!="
  | plus => some "+"
  | minus => some "-"
  | times => some "*"
  | divide => some "/"
  | greater => some ">"
  | less => some "<"
  | leftParen => some "("
  | rightParen => some ")"
  | leftBrace => some "\x7b"
  | rightBrace => some "\x7d"
  | semicolon => some ";"
  | comma => some ","
  | dot => some "."
  | _ => none

def symbols : List Kind :=
  [assign, equal, notEqual, plus, minus, times, divide, greater, less, leftParen, rightParen, leftBrace,
    rightBrace, semicolon, comma, dot]

def ofSymbol? (spelling : String) : Option Kind :=
  symbols.find? fun kind => kind.symbol? == some spelling

theorem ofSymbol?_eq_some {spelling : String} {kind : Kind} :
    ofSymbol? spelling = some kind ↔ kind.symbol? = some spelling := by
  constructor
  · intro found
    simpa using List.find?_some found
  · intro spelt
    cases kind <;> simp only [symbol?, Option.some.injEq, reduceCtorEq] at spelt <;> subst spelt <;> decide

/-- A kind as messages speak of it: operators and punctuation by their spelling. -/
def description (kind : Kind) : String :=
  match kind.symbol? with
  | some spelling => "'" ++ spelling ++ "'"
  | none =>
    match kind with
    | number => "number"
    | identifier => "identifier"
    | keyword => "keyword"
    | boolean => "boolean literal"
    | endOfInput => "end of input"
    | _ => "unknown token"

/-- The kind that a spelling has wherever it stands. Digits with a decimal point are a number; digits that
run into letters are one unknown word. -/
def ofText (text : String) : Kind :=
  let chars := text.toList
  if chars.head?.any Char.isDigit then
    if chars.all fun c => c.isDigit || c == '.' then number else unknown
  else if chars.head?.any Char.isAlpha then
    if (Keyword.ofText? text).isSome then keyword
    else if text == "true" || text == "false" then boolean
    else identifier
  else (ofSymbol? text).getD unknown

end Kind

structure Token where
  kind : Kind
  text : String
  location : Location
  deriving DecidableEq

namespace Token

/-- The token that stands for the end of the input. -/
def endOfInput (location : Location) : Token := ⟨.endOfInput, "", location⟩

/-- The reserved word that this token is, if it is of that kind and spells one. -/
def keyword? (token : Token) : Option Keyword :=
  if token.kind = .keyword then Keyword.ofText? token.text else none

def isKeyword (token : Token) (keyword : Keyword) : Bool :=
  token.keyword? == some keyword

/-- The place right after the token. -/
def finish (token : Token) : Location :=
  ⟨token.location.line, token.location.column + token.text.length⟩

/-- A token as messages speak of it. -/
def description (token : Token) : String :=
  match token.kind with
  | .number => "number " ++ token.text
  | .identifier => "identifier '" ++ token.text ++ "'"
  | .keyword => "keyword '" ++ token.text ++ "'"
  | .boolean => "boolean literal " ++ token.text
  | .unknown => "unknown token '" ++ token.text ++ "'"
  | kind => kind.description

/-- Equal but for the place. -/
def Same (a b : Token) : Prop := a.kind = b.kind ∧ a.text = b.text

instance (a b : Token) : Decidable (Same a b) := inferInstanceAs (Decidable (_ ∧ _))

end Token
end ScriptLens
