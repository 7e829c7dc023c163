import Script.Position
import Script.Syntax.Operator

/-!
# Syntax trees

Expressions and statements, each with its span.  What the grammar promises is in the types: the
branches of a conditional and the body of a loop are blocks, the branch behind an `else` is a block
or another conditional, and a declared function has a name while a function in an expression may
have none.
-/

namespace Script

/-- The four constants.  They are written like names, but no variable has such a name. -/
inductive Constant where
  | null
  | undefined
  | true
  | false
deriving DecidableEq, Repr

namespace Constant

def spelling : Constant → String
  | null => "null"
  | undefined => "undefined"
  | true => "true"
  | false => "false"

def ofSpelling? : String → Option Constant
  | "null" => some null
  | "undefined" => some undefined
  | "true" => some true
  | "false" => some false
  | _ => none

end Constant

/-- The two words that open a declaration.  They mean the same. -/
inductive DeclarationKind where
  | letKind
  | varKind
deriving DecidableEq, Repr

mutual

inductive Expr where
  | number (value : Number) (span : Span)
  | string (value : String) (span : Span)
  | constant (value : Constant) (span : Span)
  | var (name : String) (span : Span)
  | array (elements : List Expr) (span : Span)
  | object (properties : List Property) (span : Span)
  | function (name : Option String) (function : Function)
  | assign (name : String) (op : AssignOp) (value : Expr) (span : Span)
  | member (object : Expr) (name : String) (span : Span)
  | index (object : Expr) (key : Expr) (span : Span)
  | call (callee : Expr) (arguments : List Expr) (span : Span)
  | logical (op : LogicalOp) (left right : Expr) (span : Span)
  | binary (op : BinaryOp) (left right : Expr) (span : Span)
  | unary (op : UnaryOp) (operand : Expr) (span : Span)

/-- One entry of an object literal. -/
inductive Property where
  | keyed (key : String) (value : Expr) (span : Span)
  /-- A name alone stands for the variable of that name. -/
  | shorthand (name : String) (span : Span)

/-- The parameters and the body of a function; the span runs from the word `function`. -/
structure Function where
  parameters : List String
  body : List Stmt
  span : Span

/-- One name of a declaration, with its initial value. -/
structure Declarator where
  name : String
  value : Expr
  span : Span

/-- Statements in braces. -/
structure Block where
  body : List Stmt
  span : Span

structure Conditional where
  condition : Expr
  consequent : Block
  alternate : Alternate
  span : Span

/-- What follows the first branch of a conditional. -/
inductive Alternate where
  | absent
  | block (block : Block)
  | conditional (conditional : Conditional)

inductive Stmt where
  | expr (expr : Expr)
  | declaration (kind : DeclarationKind) (declarators : List Declarator) (span : Span)
  | function (name : String) (function : Function)
  | conditional (conditional : Conditional)
  | loop (condition : Expr) (body : Block) (span : Span)
  | block (block : Block)

end

/-- A comment with its place; comments take no part in the tree. -/
structure Comment where
  text : String
  span : Span
deriving DecidableEq, Repr

structure Program where
  body : List Stmt
  /-- The comments of the whole source, in order. -/
  comments : List Comment
  span : Span

def Expr.span : Expr → Span
  | number _ span | string _ span | constant _ span | var _ span => span
  | array _ span | object _ span => span
  | function _ f => f.span
  | assign _ _ _ span | member _ _ span | index _ _ span | call _ _ span => span
  | logical _ _ _ span | binary _ _ _ span | unary _ _ span => span

def Property.span : Property → Span
  | keyed _ _ span | shorthand _ span => span

def Property.key : Property → String
  | keyed key _ _ => key
  | shorthand name _ => name

def Stmt.span : Stmt → Span
  | expr e => e.span
  | declaration _ _ span => span
  | function _ f => f.span
  | conditional c => c.span
  | loop _ _ span => span
  | block b => b.span

/-- Joins two operands; the span covers both. -/
def Connective.join (connective : Connective) (left right : Expr) : Expr :=
  let span := left.span.join right.span
  match connective with
  | logical op => .logical op left right span
  | binary op => .binary op left right span

end Script
