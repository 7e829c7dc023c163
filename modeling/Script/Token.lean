import Script.Number.Written

/-!
# Tokens

The words, literals and marks that a source is cut into.  Keywords and punctuation are closed
classes with one spelling each, so that they are read and written from the same tables; names,
literals and comments carry their contents.
-/

namespace Script

/-- The reserved words. -/
inductive Keyword where
  | letWord
  | varWord
  | ifWord
  | elseWord
  | whileWord
  | functionWord
deriving DecidableEq, Repr

namespace Keyword

def spelling : Keyword → String
  | letWord => "let"
  | varWord => "var"
  | ifWord => "if"
  | elseWord => "else"
  | whileWord => "while"
  | functionWord => "function"

/-- The keyword with the given spelling. -/
def ofSpelling? : String → Option Keyword
  | "let" => some letWord
  | "var" => some varWord
  | "if" => some ifWord
  | "else" => some elseWord
  | "while" => some whileWord
  | "function" => some functionWord
  | _ => none

end Keyword

/-- The punctuation marks. -/
inductive Symbol where
  | lessEqual
  | greaterEqual
  | equalEqual
  | bangEqual
  | plusAssign
  | minusAssign
  | starAssign
  | slashAssign
  | percentAssign
  | andAnd
  | orOr
  | less
  | greater
  | equals
  | plus
  | minus
  | star
  | slash
  | percent
  | leftParen
  | rightParen
  | leftBracket
  | rightBracket
  | leftBrace
  | rightBrace
  | bang
  | ampersand
  | pipe
  | dot
  | comma
  | colon
  | semicolon
deriving DecidableEq, Repr

namespace Symbol

def spelling : Symbol → String
  | lessEqual => "<="
  | greaterEqual => ">="
  | equalEqual => "=="
  | bangEqual => "!="
  | plusAssign => "+="
  | minusAssign => "-="
  | starAssign => "*="
  | slashAssign => "/="
  | percentAssign => "%="
  | andAnd => "&&"
  | orOr => "||"
  | less => "<"
  | greater => ">"
  | equals => "="
  | plus => "+"
  | minus => "-"
  | star => "*"
  | slash => "/"
  | percent => "%"
  | leftParen => "("
  | rightParen => ")"
  | leftBracket => "["
  | rightBracket => "]"
  | leftBrace => "\x7b"
  | rightBrace => "\x7d"
  | bang => "!"
  | ampersand => "&"
  | pipe => "|"
  | dot => "."
  | comma => ","
  | colon => ":"
  | semicolon => ";"

/-- The mark that two characters form together. -/
def ofPair? : Char → Char → Option Symbol
  | '<', '=' => some lessEqual
  | '>', '=' => some greaterEqual
  | '=', '=' => some equalEqual
  | '!', '=' => some bangEqual
  | '+', '=' => some plusAssign
  | '-', '=' => some minusAssign
  | '*', '=' => some starAssign
  | '/', '=' => some slashAssign
  | '%', '=' => some percentAssign
  | '&', '&' => some andAnd
  | '|', '|' => some orOr
  | _, _ => none

/-- The mark that one character forms by itself. -/
def ofChar? : Char → Option Symbol
  | '<' => some less
  | '>' => some greater
  | '=' => some equals
  | '+' => some plus
  | '-' => some minus
  | '*' => some star
  | '/' => some slash
  | '%' => some percent
  | '(' => some leftParen
  | ')' => some rightParen
  | '[' => some leftBracket
  | ']' => some rightBracket
  | '\x7b' => some leftBrace
  | '\x7d' => some rightBrace
  | '!' => some bang
  | '&' => some ampersand
  | '|' => some pipe
  | '.' => some dot
  | ',' => some comma
  | ':' => some colon
  | ';' => some semicolon
  | _ => none

end Symbol

/-- A token, with its contents but without its place. -/
inductive Token where
  | number (value : Number)
  | string (contents : String)
  | identifier (name : String)
  | comment (text : String)
  | keyword (word : Keyword)
  | symbol (mark : Symbol)
  | endOfFile
deriving DecidableEq, Repr

namespace Token

/-- The text of a token in a message.  A string shows in double quotes whichever quotes it had, and
a comment behind two slashes. -/
def display : Token → String
  | number value => value.written .token
  | string contents => "\"" ++ contents ++ "\""
  | identifier name => name
  | comment text => "//" ++ text
  | keyword word => word.spelling
  | symbol mark => mark.spelling
  | endOfFile => "end of file"

def isComment : Token → Bool
  | comment _ => true
  | _ => false

end Token

end Script
