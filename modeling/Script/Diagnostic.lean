import Script.Evaluation.RuntimeError
import Script.Lexeme.Basic
import Script.Syntax.ParseError

/-!
# Diagnostics

What a user is told when a source does not run: which file, where in it, and why.
-/

namespace Script

/-- Why a source does not run. -/
inductive Fault where
  | lex (error : LexError)
  | parse (error : ParseError)
  | runtime (error : RuntimeError)
deriving DecidableEq, Repr

namespace Fault

def span : Fault → Span
  | lex e => e.span
  | parse e => e.span
  | runtime e => e.span

def message : Fault → String
  | lex e => e.message
  | parse e => e.message
  | runtime e => e.message

end Fault

structure Diagnostic where
  /-- The name of the source. -/
  file : String
  fault : Fault
deriving DecidableEq, Repr

namespace Diagnostic

def span (d : Diagnostic) : Span := d.fault.span

/-- The file, the line and column where the fault starts, and why. -/
def message (d : Diagnostic) : String :=
  d.file ++ ":" ++ d.span.left.display ++ ": " ++ d.fault.message

end Diagnostic

end Script
