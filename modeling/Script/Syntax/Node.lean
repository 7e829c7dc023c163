import Script.Syntax.Basic

/-!
# Nodes of a syntax tree

One view of all that a syntax tree is made of: a node has a span, and children in the order in
which they stand in the source.
-/

namespace Script

/-- Anything in a syntax tree that has a place of its own.  An expression that stands as a statement
is one node, the expression. -/
inductive Node where
  | expr (expr : Expr)
  | property (property : Property)
  | declarator (declarator : Declarator)
  | declaration (kind : DeclarationKind) (declarators : List Declarator) (span : Span)
  | function (name : String) (function : Function)
  | conditional (conditional : Conditional)
  | loop (condition : Expr) (body : Block) (span : Span)
  | block (block : Block)

namespace Node

def ofStmt : Stmt → Node
  | .expr e => expr e
  | .declaration kind declarators span => declaration kind declarators span
  | .function name f => function name f
  | .conditional c => conditional c
  | .loop condition body span => loop condition body span
  | .block b => block b

def span : Node → Span
  | expr e => e.span
  | property p => p.span
  | declarator d => d.span
  | declaration _ _ span => span
  | function _ f => f.span
  | conditional c => c.span
  | loop _ _ span => span
  | block b => b.span

def ofAlternate : Alternate → List Node
  | .absent => []
  | .block b => [block b]
  | .conditional c => [conditional c]

/-- The children of an expression. -/
def childrenOfExpr : Expr → List Node
  | .number _ _ | .string _ _ | .constant _ _ | .var _ _ => []
  | .array elements _ => elements.map expr
  | .object properties _ => properties.map property
  | .function _ f => f.body.map ofStmt
  | .assign _ _ value _ => [expr value]
  | .member object _ _ => [expr object]
  | .index object key _ => [expr object, expr key]
  | .call callee arguments _ => expr callee :: arguments.map expr
  | .logical _ left right _ => [expr left, expr right]
  | .binary _ left right _ => [expr left, expr right]
  | .unary _ operand _ => [expr operand]

/-- The parts of a node, in the order in which they stand in the source. -/
def children : Node → List Node
  | expr e => childrenOfExpr e
  | property (.keyed _ value _) => [expr value]
  | property (.shorthand _ _) => []
  | declarator d => [expr d.value]
  | declaration _ declarators _ => declarators.map declarator
  | function _ f => f.body.map ofStmt
  | conditional c => expr c.condition :: block c.consequent :: ofAlternate c.alternate
  | loop condition body _ => [expr condition, block body]
  | block b => b.body.map ofStmt

end Node

/-- The statements of a program, as nodes. -/
def Program.nodes (program : Program) : List Node := program.body.map Node.ofStmt

end Script
