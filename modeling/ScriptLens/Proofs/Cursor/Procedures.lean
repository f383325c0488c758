import ScriptLens.Program.Parser
import ScriptLens.Proofs.Grammar.Expr

/-!
Reading with a state that is changed in place: a token ahead, those that are still to come behind it, where the last of
them ended, and the number of levels that are open. The procedures take what they need from it and leave it as it is
when they fail, so all of it has to be right wherever they do.

Procedures are syntax. They call each other by name (`Routine.body`), and `Procedure.Ends` says what comes of them.
-/

namespace ScriptLens
open ScriptLens.Expr (Layer)

structure Cursor where
  current : Token
  coming : List Token
  /-- Where the end is when nothing comes any more. -/
  finish : Location
  depth : Nat

namespace Cursor

def ofTokens (tokens : List Token) : Cursor :=
  let current := tokens.head?.getD (.endOfInput .start)
  ⟨current, tokens.tail, current.finish, 0⟩

/-- The cursor behind the current token. -/
def next (cursor : Cursor) : Cursor :=
  match cursor.coming with
  | [] => { cursor with current := .endOfInput cursor.finish }
  | token :: rest => { cursor with current := token, coming := rest, finish := token.finish }

def deeper (cursor : Cursor) : Cursor := { cursor with depth := cursor.depth + 1 }

def shallower (cursor : Cursor) : Cursor := { cursor with depth := cursor.depth - 1 }

end Cursor

/-- The procedures that call themselves or each other, with what they are given. -/
inductive Routine : Type → Type
  | expression (layer : Layer) : Routine Expr
  | climb (min : Precedence) (left : Expr) : Routine Expr
  | unary : Routine Expr
  | primary : Routine Expr
  | statement : Routine Stmt
  | block : Routine (List Stmt)
  | untilBrace (before : List Stmt) : Routine (List Stmt)
  | untilEnd (before : List Stmt) : Routine Program
  | synchronize : Routine Unit
  | salvage (before : List Stmt) (errors : List SyntaxError) : Routine Recovery

/-- What is done with a cursor. Routines are called by their names. -/
inductive Procedure : Type → Type 1
  | done {α : Type} (value : α) : Procedure α
  | throw {α : Type} (error : SyntaxError) : Procedure α
  | change {α β : Type} (move : Cursor → β × Cursor) (next : β → Procedure α) : Procedure α
  | attempt {α β : Type} (inner : Procedure β) (next : Except SyntaxError β → Procedure α) : Procedure α
  | call {α β : Type} (routine : Routine β) (next : β → Procedure α) : Procedure α

namespace Procedure

variable {α β : Type}

def bind {α : Type} : Procedure α → (α → Procedure β) → Procedure β
  | .done value, later => later value
  | .throw error, _ => .throw error
  | .change move next, later => .change move fun value => (next value).bind later
  | .attempt inner next, later => .attempt inner fun outcome => (next outcome).bind later
  | .call routine next, later => .call routine fun value => (next value).bind later

instance : Monad Procedure where
  pure := .done
  bind := .bind

def peek : Procedure Token := .change (fun cursor => (cursor.current, cursor)) .done

def advance : Procedure Token := .change (fun cursor => (cursor.current, cursor.next)) .done

def fail (production : Production) (expected : Expected) : Procedure α := do
  let found ← peek
  .throw ⟨⟨production, expected⟩, found⟩

def take (kind : Kind) (production : Production) (expected : Expected) : Procedure Token := do
  let found ← peek
  if found.kind = kind then advance else fail production expected

def expect (production : Production) (kind : Kind) : Procedure Token := take kind production (.token kind)

def identifier (production : Production) : Procedure Token := take .identifier production .identifier

/-- Does something one level deeper, and leaves the level again, whether it succeeds or fails. -/
def nested (production : Production) (inner : Procedure α) : Procedure α := do
  let depth ← .change (fun cursor => (cursor.depth, cursor)) .done
  if nestingLimit ≤ depth then fail production .shallowerNesting
  else
    .change (fun cursor => ((), cursor.deeper)) .done
    let outcome ← .attempt inner .done
    .change (fun cursor => ((), cursor.shallower)) .done
    match outcome with
    | .ok value => return value
    | .error error => .throw error

def run (routine : Routine α) : Procedure α := .call routine .done

def declaration : Procedure Stmt := do
  let first ← advance
  let name ← identifier .declaration
  let _ ← expect .declaration .assign
  let value ← run (.expression .whole)
  let _ ← expect .declaration .semicolon
  return .declare ⟨name.text, name.location⟩ value first.location

def assignment : Procedure Stmt := do
  let name ← identifier .assignment
  let _ ← expect .assignment .assign
  let value ← run (.expression .whole)
  let _ ← expect .assignment .semicolon
  return .assign ⟨name.text, name.location⟩ value name.location

def result : Procedure Stmt := do
  let first ← advance
  let value ← run (.expression .whole)
  let _ ← expect .returnStmt .semicolon
  return .returnValue value first.location

/-- A condition with the parentheses around it, which are no level. -/
def guard (production : Production) : Procedure Expr := do
  let _ ← expect production .leftParen
  let condition ← run (.expression .whole)
  let _ ← expect production .rightParen
  return condition

def alternative : Procedure (Option (List Stmt)) := do
  let word ← peek
  if word.isKeyword .elseKw then
    let _ ← advance
    let other ← run .block
    return some other
  else return none

def conditional : Procedure Stmt := do
  let first ← advance
  let condition ← guard .ifStmt
  let body ← run .block
  match ← alternative with
  | none => return .ifThen condition body first.location
  | some other => return .ifElse condition body other first.location

def repetition : Procedure Stmt := do
  let first ← advance
  let condition ← guard .whileStmt
  let body ← run .block
  return .whileDo condition body first.location

end Procedure

namespace Routine
open Procedure

def body : {α : Type} → Routine α → Procedure α
  | _, expression (.joined min) => do
    let first ← run unary
    run (climb min first)
  | _, expression .operand => run unary
  | _, climb min left => do
    let op ← peek
    match Precedence.ofToken? op with
    | none => return left
    | some precedence =>
      if precedence < min then return left
      else
        let _ ← advance
        let right ← run (expression precedence.tighter)
        run (climb min (.binary op left right))
  | _, unary => do
    let op ← peek
    if op.kind = .minus then
      nested .expression do
        let _ ← advance
        let operand ← run unary
        return .negate op operand
    else run primary
  | _, primary => do
    let token ← peek
    match token.kind with
    | .number | .identifier | .boolean =>
      let _ ← advance
      return .leaf token
    | .leftParen => nested .expression do
      let _ ← advance
      let inner ← run (expression .whole)
      let _ ← expect .expression .rightParen
      return inner
    | _ => fail .expression .expression
  | _, statement => do
    let first ← peek
    match first.keyword? with
    | some .varKw => declaration
    | some .ifKw => conditional
    | some .whileKw => repetition
    | some .returnKw => result
    | _ => if first.kind = .identifier then assignment else fail .statement .statement
  | _, block => nested .block do
    let _ ← expect .block .leftBrace
    run (untilBrace [])
  | _, untilBrace before => do
    let found ← peek
    if found.kind = .rightBrace then
      let _ ← advance
      return before.reverse
    else if found.kind = .endOfInput then fail .block (.token .rightBrace)
    else
      let next ← run statement
      run (untilBrace (next :: before))
  | _, untilEnd before => do
    let found ← peek
    if found.kind = .endOfInput then return before.reverse
    else
      let next ← run statement
      run (untilEnd (next :: before))
  | _, synchronize => do
    let found ← peek
    if found.kind = .endOfInput then return
    else if found.opensStmt then return
    else
      let _ ← advance
      if found.kind = .semicolon ∨ found.kind = .rightBrace then return
      else run synchronize
  | _, salvage before errors => do
    let found ← peek
    if found.kind = .endOfInput then return ⟨before.reverse, errors.reverse⟩
    else
      match ← .attempt (run statement) .done with
      | .ok next => run (salvage (next :: before) errors)
      | .error error => do
        run synchronize
        run (salvage before (error :: errors))

end Routine

/-- What comes of a procedure, and where. -/
inductive Procedure.Ends : {α : Type} → Procedure α → Cursor → Except SyntaxError α × Cursor → Prop
  | done {α : Type} (value : α) (cursor : Cursor) : Ends (.done value) cursor (.ok value, cursor)
  | throw {α : Type} (error : SyntaxError) (cursor : Cursor) :
      Ends (.throw error : Procedure α) cursor (.error error, cursor)
  | change {α β : Type} {move : Cursor → β × Cursor} {next : β → Procedure α} {cursor : Cursor}
      {ending : Except SyntaxError α × Cursor} :
      Ends (next (move cursor).1) (move cursor).2 ending → Ends (.change move next) cursor ending
  | attempt {α β : Type} {inner : Procedure β} {next : Except SyntaxError β → Procedure α} {cursor middle : Cursor}
      {outcome : Except SyntaxError β} {ending : Except SyntaxError α × Cursor} :
      Ends inner cursor (outcome, middle) → Ends (next outcome) middle ending → Ends (.attempt inner next) cursor ending
  | returned {α β : Type} {routine : Routine β} {next : β → Procedure α} {cursor middle : Cursor} {value : β}
      {ending : Except SyntaxError α × Cursor} :
      Ends routine.body cursor (.ok value, middle) → Ends (next value) middle ending →
        Ends (.call routine next) cursor ending
  | thrown {α β : Type} {routine : Routine β} {next : β → Procedure α} {cursor middle : Cursor} {error : SyntaxError} :
      Ends routine.body cursor (.error error, middle) → Ends (.call routine next) cursor (.error error, middle)

end ScriptLens
