import Script.Position
import Script.Token

/-!
# Why a list of tokens is not a program
-/

namespace Script

/-- What the grammar asks for at a place where it allows little. -/
inductive Expectation where
  | mark (mark : Symbol)
  | parenAfter (word : Keyword)
  | parenBeforeParameters
  | colonAfterKey
  | name
  | nameAfterDot
  | propertyName
  | commaOr (closing : Symbol)
deriving DecidableEq, Repr

/-- The wording of an expectation. -/
def Expectation.display : Expectation → String
  | mark m => "'" ++ m.spelling ++ "'"
  | parenAfter word => "'(' after '" ++ word.spelling ++ "'"
  | parenBeforeParameters => "'(' before parameters"
  | colonAfterKey => "':' after property name"
  | name => "identifier"
  | nameAfterDot => "identifier after '.'"
  | propertyName => "property name"
  | commaOr closing => "',' or '" ++ closing.spelling ++ "'"

inductive ParseError where
  /-- Nothing that the grammar allows here starts with this token. -/
  | unexpectedToken (token : Token) (span : Span)
  | expected (expectation : Expectation) (found : Token) (span : Span)
  /-- The source ends where it must go on.  If even the end of the file is missing, there is no
  place to point at. -/
  | unexpectedEnd (span : Span)
  /-- A parameter has the name of an earlier one. -/
  | duplicateParameter (name : String) (span : Span)
deriving DecidableEq, Repr

namespace ParseError

def span : ParseError → Span
  | unexpectedToken _ span => span
  | expected _ _ span => span
  | unexpectedEnd span => span
  | duplicateParameter _ span => span

def message : ParseError → String
  | unexpectedToken token _ => "Unexpected token '" ++ token.display ++ "'"
  | expected expectation found _ =>
    "Expected " ++ expectation.display ++ ", found '" ++ found.display ++ "'"
  | unexpectedEnd _ => "Unexpected end of input"
  | duplicateParameter name _ =>
    "Duplicate parameter '" ++ name ++ "' in function declaration"

end ParseError

end Script
