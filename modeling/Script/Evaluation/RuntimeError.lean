import Script.Position

/-!
# Why an evaluation fails
-/

namespace Script

inductive RuntimeError where
  | unknownVariable (name : String) (span : Span)
  | redeclaration (name : String) (span : Span)
  | assignmentToUndeclared (name : String) (span : Span)
  | notCallable (typeName : String) (span : Span)
  | notIndexable (typeName : String) (span : Span)
  /-- A call would go deeper than the limit. -/
  | stackOverflow (limit : Nat) (span : Span)
  /-- A native function gave up. -/
  | nativeFailure (message : String) (span : Span)
deriving DecidableEq, Repr

namespace RuntimeError

def span : RuntimeError → Span
  | unknownVariable _ span => span
  | redeclaration _ span => span
  | assignmentToUndeclared _ span => span
  | notCallable _ span => span
  | notIndexable _ span => span
  | stackOverflow _ span => span
  | nativeFailure _ span => span

def message : RuntimeError → String
  | unknownVariable name _ => "Variable '" ++ name ++ "' does not exist"
  | redeclaration name _ => "Variable '" ++ name ++ "' cannot be redeclared"
  | assignmentToUndeclared name _ => "Variable '" ++ name ++ "' does not exist"
  | notCallable typeName _ => "Value of type '" ++ typeName ++ "' is not callable"
  | notIndexable typeName _ => "Cannot access a member of a value of type '" ++ typeName ++ "'"
  | stackOverflow limit _ => "Maximum call depth of " ++ toString limit ++ " exceeded"
  | nativeFailure message _ => message

end RuntimeError

end Script
