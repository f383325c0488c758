import ScriptLens.Expr.Printer
import ScriptLens.Stmt.Basic
import ScriptLens.Text.Padding

/-! Programs as outlines: a row for every statement, and one for every branch of a condition. -/

namespace ScriptLens

structure OutlineRow where
  depth : Nat
  label : String
  location : Location
  deriving DecidableEq

namespace OutlineRow

mutual

/-- Adds the rows of a statement behind those that are there. -/
def add (depth : Nat) (rows : Array OutlineRow) : Stmt → Array OutlineRow
  | .declare name value place => rows.push ⟨depth, "VarDecl " ++ name.text ++ " = " ++ value.text, place⟩
  | .assign name value place => rows.push ⟨depth, "Assign " ++ name.text ++ " = " ++ value.text, place⟩
  | .ifThen condition body place =>
    addAll (depth + 2)
      ((rows.push ⟨depth, "If " ++ condition.text, place⟩).push ⟨depth + 1, "then", place⟩) body
  | .ifElse condition body other place =>
    let chosen := addAll (depth + 2)
      ((rows.push ⟨depth, "If " ++ condition.text, place⟩).push ⟨depth + 1, "then", place⟩) body
    addAll (depth + 2) (chosen.push ⟨depth + 1, "else", place⟩) other
  | .whileDo condition body place =>
    addAll (depth + 1) (rows.push ⟨depth, "While " ++ condition.text, place⟩) body
  | .returnValue value place => rows.push ⟨depth, "Return " ++ value.text, place⟩

def addAll (depth : Nat) (rows : Array OutlineRow) : List Stmt → Array OutlineRow
  | [] => rows
  | statement :: rest => addAll depth (add depth rows statement) rest

end

/-- Two blanks for every level, and the label. -/
def line (row : OutlineRow) : String :=
  Text.blanks (2 * row.depth) ++ row.label ++ "\n"

end OutlineRow

namespace Program

def outline (program : Program) : List OutlineRow :=
  (OutlineRow.addAll 0 #[] program).toList

def outlineText (program : Program) : String :=
  program.outline.foldl (fun text row => text ++ row.line) ""

end Program
end ScriptLens
