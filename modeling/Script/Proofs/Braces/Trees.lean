import Script.Syntax.Basic

/-!
# Conditionals behind an else, in braces

Behind an `else` there may be another conditional, and it may as well be the only statement of a
block.  `braced` puts such conditionals in braces wherever they are in a tree, those for which
`Braces` has a span.
-/

namespace Script

/-- Which conditionals behind an `else` are put in braces, and the span of the braces. -/
abbrev Braces : Type := Conditional → Option Span

namespace Braces

/-- No conditional is put in braces. -/
def nowhere : Braces := fun _ => none

end Braces

mutual

def Expr.braced (braces : Braces) : Expr → Expr
  | .number value span => .number value span
  | .string value span => .string value span
  | .constant value span => .constant value span
  | .var name span => .var name span
  | .array es span => .array (bracedExprs braces es) span
  | .object ps span => .object (bracedProperties braces ps) span
  | .function name f => .function name (f.braced braces)
  | .assign name op e span => .assign name op (e.braced braces) span
  | .member e name span => .member (e.braced braces) name span
  | .index e key span => .index (e.braced braces) (key.braced braces) span
  | .call e es span => .call (e.braced braces) (bracedExprs braces es) span
  | .logical op left right span => .logical op (left.braced braces) (right.braced braces) span
  | .binary op left right span => .binary op (left.braced braces) (right.braced braces) span
  | .unary op e span => .unary op (e.braced braces) span

def bracedExprs (braces : Braces) : List Expr → List Expr
  | [] => []
  | e :: es => e.braced braces :: bracedExprs braces es

def Property.braced (braces : Braces) : Property → Property
  | .keyed key e span => .keyed key (e.braced braces) span
  | .shorthand name span => .shorthand name span

def bracedProperties (braces : Braces) : List Property → List Property
  | [] => []
  | p :: ps => p.braced braces :: bracedProperties braces ps

def Function.braced (braces : Braces) : Function → Function
  | ⟨ps, body, span⟩ => ⟨ps, bracedStmts braces body, span⟩

def Declarator.braced (braces : Braces) : Declarator → Declarator
  | ⟨name, e, span⟩ => ⟨name, e.braced braces, span⟩

def bracedDeclarators (braces : Braces) : List Declarator → List Declarator
  | [] => []
  | d :: ds => d.braced braces :: bracedDeclarators braces ds

def Block.braced (braces : Braces) : Block → Block
  | ⟨body, span⟩ => ⟨bracedStmts braces body, span⟩

def Conditional.braced (braces : Braces) : Conditional → Conditional
  | ⟨e, b, alternate, span⟩ => ⟨e.braced braces, b.braced braces, alternate.braced braces, span⟩

/-- A conditional that is put in braces becomes the only statement of a block. -/
def Alternate.braced (braces : Braces) : Alternate → Alternate
  | .absent => .absent
  | .block b => .block (b.braced braces)
  | .conditional c =>
    match braces c with
    | none => .conditional (c.braced braces)
    | some span => .block ⟨[.conditional (c.braced braces)], span⟩

def Stmt.braced (braces : Braces) : Stmt → Stmt
  | .expr e => .expr (e.braced braces)
  | .declaration kind ds span => .declaration kind (bracedDeclarators braces ds) span
  | .function name f => .function name (f.braced braces)
  | .conditional c => .conditional (c.braced braces)
  | .loop e b span => .loop (e.braced braces) (b.braced braces) span
  | .block b => .block (b.braced braces)

def bracedStmts (braces : Braces) : List Stmt → List Stmt
  | [] => []
  | s :: ss => s.braced braces :: bracedStmts braces ss

end

/-! ## Trees without new braces -/

mutual

theorem Expr.braced_nowhere (e : Expr) : e.braced .nowhere = e := by
  cases e with
  | number | string | constant | var => rfl
  | array es span => rw [Expr.braced, bracedExprs_nowhere es]
  | object ps span => rw [Expr.braced, bracedProperties_nowhere ps]
  | function name f => rw [Expr.braced, f.braced_nowhere]
  | assign name op e span => rw [Expr.braced, e.braced_nowhere]
  | member e name span => rw [Expr.braced, e.braced_nowhere]
  | index e key span => rw [Expr.braced, e.braced_nowhere, key.braced_nowhere]
  | call e es span => rw [Expr.braced, e.braced_nowhere, bracedExprs_nowhere es]
  | logical op left right span => rw [Expr.braced, left.braced_nowhere, right.braced_nowhere]
  | binary op left right span => rw [Expr.braced, left.braced_nowhere, right.braced_nowhere]
  | unary op e span => rw [Expr.braced, e.braced_nowhere]

theorem bracedExprs_nowhere (es : List Expr) : bracedExprs .nowhere es = es := by
  cases es with
  | nil => rfl
  | cons e es => rw [bracedExprs, e.braced_nowhere, bracedExprs_nowhere es]

theorem Property.braced_nowhere (p : Property) : p.braced .nowhere = p := by
  cases p with
  | keyed key e span => rw [Property.braced, e.braced_nowhere]
  | shorthand => rfl

theorem bracedProperties_nowhere (ps : List Property) : bracedProperties .nowhere ps = ps := by
  cases ps with
  | nil => rfl
  | cons p ps => rw [bracedProperties, p.braced_nowhere, bracedProperties_nowhere ps]

theorem Function.braced_nowhere (f : Function) : f.braced .nowhere = f := by
  obtain ⟨ps, body, span⟩ := f
  rw [Function.braced, bracedStmts_nowhere body]

theorem Declarator.braced_nowhere (d : Declarator) : d.braced .nowhere = d := by
  obtain ⟨name, e, span⟩ := d
  rw [Declarator.braced, e.braced_nowhere]

theorem bracedDeclarators_nowhere (ds : List Declarator) : bracedDeclarators .nowhere ds = ds := by
  cases ds with
  | nil => rfl
  | cons d ds => rw [bracedDeclarators, d.braced_nowhere, bracedDeclarators_nowhere ds]

theorem Block.braced_nowhere (b : Block) : b.braced .nowhere = b := by
  obtain ⟨body, span⟩ := b
  rw [Block.braced, bracedStmts_nowhere body]

theorem Conditional.braced_nowhere (c : Conditional) : c.braced .nowhere = c := by
  obtain ⟨e, b, alternate, span⟩ := c
  rw [Conditional.braced, e.braced_nowhere, b.braced_nowhere, alternate.braced_nowhere]

theorem Alternate.braced_nowhere (a : Alternate) : a.braced .nowhere = a := by
  cases a with
  | absent => rfl
  | block b => rw [Alternate.braced, b.braced_nowhere]
  | conditional c =>
    show Alternate.conditional (c.braced .nowhere) = _
    rw [c.braced_nowhere]

theorem Stmt.braced_nowhere (s : Stmt) : s.braced .nowhere = s := by
  cases s with
  | expr e => rw [Stmt.braced, e.braced_nowhere]
  | declaration kind ds span => rw [Stmt.braced, bracedDeclarators_nowhere ds]
  | function name f => rw [Stmt.braced, f.braced_nowhere]
  | conditional c => rw [Stmt.braced, c.braced_nowhere]
  | loop e b span => rw [Stmt.braced, e.braced_nowhere, b.braced_nowhere]
  | block b => rw [Stmt.braced, b.braced_nowhere]

theorem bracedStmts_nowhere (ss : List Stmt) : bracedStmts .nowhere ss = ss := by
  cases ss with
  | nil => rfl
  | cons s ss => rw [bracedStmts, s.braced_nowhere, bracedStmts_nowhere ss]

end

end Script
