import ScriptLens.Main
import ScriptLens.Proofs.Grammar.Expr
import ScriptLens.Proofs.Grammar.Stmt
import ScriptLens.Proofs.Reading.Outcome
import ScriptLens.Proofs.Reading.Expr
import ScriptLens.Proofs.Reading.Language
import ScriptLens.Proofs.Reading.Viability
import ScriptLens.Proofs.Reading.Stmt
import ScriptLens.Proofs.Reading.Program
import ScriptLens.Proofs.Reading.Lookahead
import ScriptLens.Proofs.Splitting
import ScriptLens.Proofs.Turns
import ScriptLens.Proofs.SourceOrder
import ScriptLens.Proofs.Acceptance
import ScriptLens.Proofs.Overflow
import ScriptLens.Proofs.Diagnosis
import ScriptLens.Proofs.Recovery
import ScriptLens.Proofs.Lexing
import ScriptLens.Proofs.Comparison
import ScriptLens.Proofs.Printing
import ScriptLens.Proofs.Reparse
import ScriptLens.Proofs.Reprint
import ScriptLens.Proofs.Lexeme
import ScriptLens.Proofs.Places
import ScriptLens.Proofs.Reading.Nesting
import ScriptLens.Proofs.Depth
import ScriptLens.Proofs.Agreement
import ScriptLens.Proofs.Concatenation
import ScriptLens.Proofs.Likeness
import ScriptLens.Proofs.Provenance
import ScriptLens.Proofs.Outlining
import ScriptLens.Proofs.Reports
import ScriptLens.Proofs.Cursor.Procedures
import ScriptLens.Proofs.Cursor.Outcomes
import ScriptLens.Proofs.Cursor.Following
import ScriptLens.Proofs.Cursor.Expr
import ScriptLens.Proofs.Cursor.Stmt
import ScriptLens.Proofs.Cursor.Program
import ScriptLens.Proofs.Resumption
import ScriptLens.Proofs.Reading.Unplaced
import ScriptLens.Proofs.Blindness
import ScriptLens.Proofs.Spacing
import ScriptLens.Proofs.Lines
import ScriptLens.Proofs.Explorer.Run
import ScriptLens.Proofs.Explorer.Window
import ScriptLens.Proofs.Explorer.Invariant
import ScriptLens.Proofs.Explorer.Showing
import ScriptLens.Proofs.Explorer.Keeping
import ScriptLens.Proofs.Explorer.Jumping
import ScriptLens.Proofs.Explorer.Colouring
import ScriptLens.Proofs.Explorer.Scrolling
import ScriptLens.Proofs.Explorer.Drawing
import ScriptLens.Proofs.Locality
import ScriptLens.Proofs.Listing
