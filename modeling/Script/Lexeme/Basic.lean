import Script.Position
import Script.Token

/-!
# Lexemes

A lexeme is a token with its place in the source.
-/

namespace Script

/-- A token and where it stands. -/
structure Lexeme where
  token : Token
  span : Span
deriving DecidableEq, Repr

/-- Why a source cannot be cut into tokens. -/
inductive LexError where
  /-- No token starts with this character. -/
  | unexpectedCharacter (character : Char) (span : Span)
  /-- A string is opened and never closed; the span goes to the end of the source. -/
  | unterminatedString (quote : Char) (span : Span)
deriving DecidableEq, Repr

namespace LexError

def span : LexError → Span
  | unexpectedCharacter _ span => span
  | unterminatedString _ span => span

def message : LexError → String
  | unexpectedCharacter c _ => "Unexpected character '" ++ String.singleton c ++ "'"
  | unterminatedString q _ =>
    "Unterminated string literal, expected closing " ++ String.singleton q

end LexError

end Script
