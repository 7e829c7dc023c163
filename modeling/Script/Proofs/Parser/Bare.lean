import Script.Syntax.Basic

/-!
# Trees without places

A tree is laid bare when every span in it is replaced by the empty one.  Two trees that are the same
when bare differ in nothing but where their parts stood in a source.
-/

namespace Script

mutual

/-- The expression without the places of its parts. -/
def Expr.bare : Expr → Expr
  | .number value _ => .number value .none
  | .string value _ => .string value .none
  | .constant value _ => .constant value .none
  | .var name _ => .var name .none
  | .array es _ => .array (bareExprs es) .none
  | .object ps _ => .object (bareProperties ps) .none
  | .function name f => .function name f.bare
  | .assign name op e _ => .assign name op e.bare .none
  | .member e name _ => .member e.bare name .none
  | .index e key _ => .index e.bare key.bare .none
  | .call e es _ => .call e.bare (bareExprs es) .none
  | .logical op left right _ => .logical op left.bare right.bare .none
  | .binary op left right _ => .binary op left.bare right.bare .none
  | .unary op e _ => .unary op e.bare .none

def bareExprs : List Expr → List Expr
  | [] => []
  | e :: es => e.bare :: bareExprs es

def Property.bare : Property → Property
  | .keyed key e _ => .keyed key e.bare .none
  | .shorthand name _ => .shorthand name .none

def bareProperties : List Property → List Property
  | [] => []
  | p :: ps => p.bare :: bareProperties ps

def Function.bare : Function → Function
  | ⟨ps, body, _⟩ => ⟨ps, bareStmts body, .none⟩

def Declarator.bare : Declarator → Declarator
  | ⟨name, e, _⟩ => ⟨name, e.bare, .none⟩

def bareDeclarators : List Declarator → List Declarator
  | [] => []
  | d :: ds => d.bare :: bareDeclarators ds

def Block.bare : Block → Block
  | ⟨body, _⟩ => ⟨bareStmts body, .none⟩

def Conditional.bare : Conditional → Conditional
  | ⟨e, b, alternate, _⟩ => ⟨e.bare, b.bare, alternate.bare, .none⟩

def Alternate.bare : Alternate → Alternate
  | .absent => .absent
  | .block b => .block b.bare
  | .conditional c => .conditional c.bare

def Stmt.bare : Stmt → Stmt
  | .expr e => .expr e.bare
  | .declaration kind ds _ => .declaration kind (bareDeclarators ds) .none
  | .function name f => .function name f.bare
  | .conditional c => .conditional c.bare
  | .loop e b _ => .loop e.bare b.bare .none
  | .block b => .block b.bare

def bareStmts : List Stmt → List Stmt
  | [] => []
  | s :: ss => s.bare :: bareStmts ss

end

attribute [simp] Expr.bare bareExprs Property.bare bareProperties Function.bare Declarator.bare
  bareDeclarators Block.bare Conditional.bare Alternate.bare Stmt.bare bareStmts

/-! ## Putting places back -/

section

variable {e : Expr} {span : Span}

theorem Expr.eq_number_of_bare {value : Number} (h : e.bare = .number value span) :
    ∃ sp, e = .number value sp := by
  cases e <;> simp_all

theorem Expr.eq_string_of_bare {value : String} (h : e.bare = .string value span) :
    ∃ sp, e = .string value sp := by
  cases e <;> simp_all

theorem Expr.eq_constant_of_bare {value : Constant} (h : e.bare = .constant value span) :
    ∃ sp, e = .constant value sp := by
  cases e <;> simp_all

theorem Expr.eq_array_of_bare {es : List Expr} (h : e.bare = .array es span) :
    ∃ es' sp, e = .array es' sp ∧ bareExprs es' = es := by
  cases e <;> simp_all

theorem Expr.eq_object_of_bare {ps : List Property} (h : e.bare = .object ps span) :
    ∃ ps' sp, e = .object ps' sp ∧ bareProperties ps' = ps := by
  cases e <;> simp_all

theorem Expr.eq_unary_of_bare {op : UnaryOp} {operand : Expr}
    (h : e.bare = .unary op operand span) :
    ∃ e' sp, e = .unary op e' sp ∧ e'.bare = operand := by
  cases e <;> simp_all

theorem Property.eq_keyed_of_bare {p : Property} {key : String} (h : p.bare = .keyed key e span) :
    ∃ e' sp, p = .keyed key e' sp ∧ e'.bare = e := by
  cases p <;> simp_all

/-- Statements that are one expression when bare are one expression. -/
theorem eq_expr_of_bareStmts {ss : List Stmt} (h : bareStmts ss = [.expr e]) :
    ∃ e', ss = [.expr e'] ∧ e'.bare = e := by
  rcases ss with - | ⟨s, - | ⟨s', ss⟩⟩
  · simp at h
  · cases s <;> simp_all
  · simp at h

end

end Script
