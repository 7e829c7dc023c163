import Script.Lexeme.Basic
import Script.Syntax.Basic
import Script.Text.Quoted

/-!
# Dumps of lexemes and syntax trees

A dump shows the parts of a structure by name, one to a line, four spaces deeper for every level.
-/

namespace Script

/-- A structure to be shown. -/
inductive Dump where
  | atom (text : String)
  /-- A name with one unnamed part. -/
  | wrapped (name : String) (part : Dump)
  /-- A name with named parts. -/
  | record (name : String) (fields : List (String × Dump))
  | list (items : List Dump)

namespace Dump

/-- A line break and so many levels of indentation. -/
def newline (level : Nat) : String := "\n" ++ String.ofList (List.replicate (4 * level) ' ')

mutual

/-- The text of a dump whose first line is already indented. -/
def render (level : Nat) : Dump → String
  | atom text => text
  | wrapped name part =>
    name ++ "(" ++ newline (level + 1) ++ render (level + 1) part ++ "," ++ newline level ++ ")"
  | record name fields => name ++ " \x7b" ++ renderFields level fields ++ newline level ++ "\x7d"
  | list [] => "[]"
  | list items => "[" ++ renderItems level items ++ newline level ++ "]"

def renderFields (level : Nat) : List (String × Dump) → String
  | [] => ""
  | (name, value) :: rest =>
    newline (level + 1) ++ name ++ ": " ++ render (level + 1) value ++ "," ++
      renderFields level rest

def renderItems (level : Nat) : List Dump → String
  | [] => ""
  | item :: rest =>
    newline (level + 1) ++ render (level + 1) item ++ "," ++ renderItems level rest

end

/-- The text of a dump. -/
def display (dump : Dump) : String := dump.render 0

def ofNat (n : Nat) : Dump := atom (toString n)

def ofString (s : String) : Dump := atom (Text.quoted s)

def ofNumber (n : Number) : Dump := atom (n.written .dump)

def ofOption : Option Dump → Dump
  | none => atom "None"
  | some part => wrapped "Some" part

def ofPosition (p : Position) : Dump :=
  record "Position" [("index", ofNat p.index), ("line", ofNat p.line), ("column", ofNat p.column)]

def ofSpan (s : Span) : Dump :=
  record "Span" [("left", ofPosition s.left), ("right", ofPosition s.right)]

end Dump

/-! ## Tokens -/

/-- The name of a keyword as a kind of token. -/
def Keyword.kindName : Keyword → String
  | letWord => "Let"
  | varWord => "Var"
  | ifWord => "If"
  | elseWord => "Else"
  | whileWord => "While"
  | functionWord => "Function"

/-- The name of a mark as a kind of token. -/
def Symbol.kindName : Symbol → String
  | lessEqual => "LessEqual"
  | greaterEqual => "GreaterEqual"
  | equalEqual => "EqualEqual"
  | bangEqual => "BangEqual"
  | plusAssign => "PlusAssign"
  | minusAssign => "MinusAssign"
  | starAssign => "StarAssign"
  | slashAssign => "SlashAssign"
  | percentAssign => "PercentAssign"
  | andAnd => "AndAnd"
  | orOr => "OrOr"
  | less => "Less"
  | greater => "Greater"
  | equals => "Equals"
  | plus => "Plus"
  | minus => "Minus"
  | star => "Star"
  | slash => "Slash"
  | percent => "Percent"
  | leftParen => "LParen"
  | rightParen => "RParen"
  | leftBracket => "LBracket"
  | rightBracket => "RBracket"
  | leftBrace => "LBrace"
  | rightBrace => "RBrace"
  | bang => "Bang"
  | ampersand => "Ampersand"
  | pipe => "Pipe"
  | dot => "Dot"
  | comma => "Comma"
  | colon => "Colon"
  | semicolon => "Semicolon"

/-- The kind of a token. -/
def Token.kindName : Token → String
  | number _ => "Number"
  | string _ => "String"
  | identifier _ => "Identifier"
  | comment _ => "Comment"
  | keyword word => word.kindName
  | symbol mark => mark.kindName
  | endOfFile => "Eof"

def Token.dump (token : Token) : Dump :=
  match token with
  | number value => .wrapped token.kindName (.ofNumber value)
  | string text | identifier text | comment text => .wrapped token.kindName (.ofString text)
  | _ => .atom token.kindName

def Lexeme.dump (lexeme : Lexeme) : Dump :=
  .record "Lexeme" [("token", lexeme.token.dump), ("span", .ofSpan lexeme.span)]

/-! ## Syntax trees -/

def Constant.kindName : Constant → String
  | null => "Null"
  | undefined => "Undefined"
  | true => "True"
  | false => "False"

def DeclarationKind.kindName : DeclarationKind → String
  | letKind => "Let"
  | varKind => "Var"

def AssignOp.kindName : AssignOp → String
  | assign => "Assign"
  | add => "AddAssign"
  | sub => "SubAssign"
  | mul => "MulAssign"
  | div => "DivAssign"
  | mod => "ModAssign"

def LogicalOp.kindName : LogicalOp → String
  | and => "And"
  | or => "Or"

def BinaryOp.kindName : BinaryOp → String
  | add => "Add"
  | sub => "Sub"
  | mul => "Mul"
  | div => "Div"
  | mod => "Mod"
  | less => "Less"
  | greater => "Greater"
  | lessEqual => "LessEqual"
  | greaterEqual => "GreaterEqual"
  | equal => "Equal"
  | notEqual => "NotEqual"

def UnaryOp.kindName : UnaryOp → String
  | negate => "Negate"
  | not => "Not"

mutual

def Expr.dump : Expr → Dump
  | .number value span =>
    .record "NumericLiteral" [("value", .ofNumber value), ("span", .ofSpan span)]
  | .string value span =>
    .record "StringLiteral" [("value", .ofString value), ("span", .ofSpan span)]
  | .constant value span =>
    .record "Literal" [("value", .atom value.kindName), ("span", .ofSpan span)]
  | .var name span => .record "Identifier" [("name", .ofString name), ("span", .ofSpan span)]
  | .array elements span =>
    .record "ArrayLiteral" [("elements", .list (dumpExprs elements)), ("span", .ofSpan span)]
  | .object properties span =>
    .record "ObjectLiteral"
      [("properties", .list (dumpProperties properties)), ("span", .ofSpan span)]
  | .function name f =>
    .record "FunctionExpression" [("function", f.dump name), ("span", .ofSpan f.span)]
  | .assign name op value span =>
    .record "VarAssignment"
      [("name", .ofString name), ("operator", .atom op.kindName), ("value", value.dump),
       ("span", .ofSpan span)]
  | .member object name span =>
    .record "MemberExpr"
      [("object", object.dump), ("property", .wrapped "Named" (.ofString name)),
       ("span", .ofSpan span)]
  | .index object key span =>
    .record "MemberExpr"
      [("object", object.dump), ("property", .wrapped "Computed" key.dump),
       ("span", .ofSpan span)]
  | .call callee arguments span =>
    .record "CallExpr"
      [("callee", callee.dump), ("arguments", .list (dumpExprs arguments)),
       ("span", .ofSpan span)]
  | .logical op left right span =>
    .record "LogicalExpr"
      [("left", left.dump), ("operator", .atom op.kindName), ("right", right.dump),
       ("span", .ofSpan span)]
  | .binary op left right span =>
    .record "BinaryExpr"
      [("left", left.dump), ("operator", .atom op.kindName), ("right", right.dump),
       ("span", .ofSpan span)]
  | .unary op operand span =>
    .record "UnaryExpr"
      [("operator", .atom op.kindName), ("argument", operand.dump), ("span", .ofSpan span)]

def dumpExprs : List Expr → List Dump
  | [] => []
  | e :: rest => e.dump :: dumpExprs rest

def Property.dump : Property → Dump
  | .keyed key value span =>
    .record "Property"
      [("key", .ofString key), ("value", .ofOption (some value.dump)), ("span", .ofSpan span)]
  | .shorthand name span =>
    .record "Property"
      [("key", .ofString name), ("value", .ofOption none), ("span", .ofSpan span)]

def dumpProperties : List Property → List Dump
  | [] => []
  | p :: rest => p.dump :: dumpProperties rest

def Function.dump (name : Option String) : Function → Dump
  | ⟨parameters, body, span⟩ =>
    .record "FunctionDef"
      [("name", .ofOption (name.map .ofString)), ("params", .list (parameters.map .ofString)),
       ("body", .list (dumpStmts body)), ("span", .ofSpan span)]

def Declarator.dump : Declarator → Dump
  | ⟨name, value, span⟩ =>
    .record "VarDeclarator" [("name", .ofString name), ("init", value.dump), ("span", .ofSpan span)]

def dumpDeclarators : List Declarator → List Dump
  | [] => []
  | d :: rest => d.dump :: dumpDeclarators rest

def Block.dump : Block → Dump
  | ⟨body, span⟩ =>
    .record "BlockStatement" [("body", .list (dumpStmts body)), ("span", .ofSpan span)]

def Conditional.dump : Conditional → Dump
  | ⟨condition, consequent, alternate, span⟩ =>
    .record "IfStatement"
      [("condition", condition.dump), ("consequent", consequent.dump),
       ("alternate", .ofOption alternate.dump), ("span", .ofSpan span)]

def Alternate.dump : Alternate → Option Dump
  | .absent => none
  | .block b => some b.dump
  | .conditional c => some c.dump

def Stmt.dump : Stmt → Dump
  | .expr e => e.dump
  | .declaration kind declarators span =>
    .record "VarDeclaration"
      [("kind", .atom kind.kindName), ("declarations", .list (dumpDeclarators declarators)),
       ("span", .ofSpan span)]
  | .function name f =>
    .record "FunctionDeclaration" [("function", f.dump (some name)), ("span", .ofSpan f.span)]
  | .conditional c => c.dump
  | .loop condition body span =>
    .record "WhileStatement"
      [("condition", condition.dump), ("body", body.dump), ("span", .ofSpan span)]
  | .block b => b.dump

def dumpStmts : List Stmt → List Dump
  | [] => []
  | s :: rest => s.dump :: dumpStmts rest

end

def Comment.dump (comment : Comment) : Dump :=
  .record "Comment" [("text", .ofString comment.text), ("span", .ofSpan comment.span)]

def Program.dump (program : Program) : Dump :=
  .record "Program"
    [("body", .list (dumpStmts program.body)),
      ("comments", .list (program.comments.map Comment.dump)),
     ("span", .ofSpan program.span)]

end Script
