import Script.Proofs.Parser.Grammar

/-!
# Writing trees down

Every tree that the grammar allows can be written down, and here is one way: parentheses only where
an expression is looser than its place, a semicolon behind each statement, a comma behind each entry
of an object.  What is written is a yield of the tree (`yields_printStmts`), with enough semicolons
to be read back.
-/

namespace Script

open Token

namespace Rank

/-- The ranks counted from the loosest. -/
def depth : Rank → Nat
  | assignment => 0
  | level .logical => 1
  | level .comparison => 2
  | level .additive => 3
  | level .multiplicative => 4
  | sign => 5
  | access => 6
  | primary => 7

/-- The next looser rank. -/
def looser : Rank → Rank
  | assignment => assignment
  | level .logical => assignment
  | level .comparison => level .logical
  | level .additive => level .comparison
  | level .multiplicative => level .additive
  | sign => level .multiplicative
  | access => sign
  | primary => access

/-- The tokens of an expression of the rank `own`, in parentheses if its place asks for a tighter
one. -/
def enclose (place own : Rank) (ts : List Token) : List Token :=
  if place.depth ≤ own.depth then ts else symbol .leftParen :: ts ++ [symbol .rightParen]

end Rank

mutual

/-- The tokens of an expression at a place for the given rank. -/
def Expr.print : Expr → Rank → List Token
  | .number value _, _ => [number value]
  | .string value _, _ => [string value]
  | .constant c _, _ => [identifier c.spelling]
  | .var name _, _ => [identifier name]
  | .array es _, _ =>
    symbol .leftBracket :: printItems es (.level .logical) ++ [symbol .rightBracket]
  | .object ps _, _ => symbol .leftBrace :: printProperties ps ++ [symbol .rightBrace]
  | .function none f, _ => keyword .functionWord :: f.print
  | .function (some name) f, _ => keyword .functionWord :: identifier name :: f.print
  | .assign name op e _, place =>
    place.enclose .assignment (identifier name :: symbol op.symbol :: e.print .assignment)
  | .member e name _, place =>
    place.enclose .access (e.print .access ++ [symbol .dot, identifier name])
  | .index e key _, place => place.enclose .access
      (e.print .access ++ symbol .leftBracket :: key.print .assignment ++ [symbol .rightBracket])
  | .call e es _, place => place.enclose .access
      (e.print .access ++ symbol .leftParen :: printItems es .assignment ++ [symbol .rightParen])
  | .logical op left right _, place => place.enclose (.level (Connective.logical op).level)
      (left.print (.level (Connective.logical op).level) ++
        symbol (Connective.logical op).symbol ::
          right.print (.operand (Connective.logical op).level))
  | .binary op left right _, place => place.enclose (.level (Connective.binary op).level)
      (left.print (.level (Connective.binary op).level) ++
        symbol (Connective.binary op).symbol ::
          right.print (.operand (Connective.binary op).level))
  | .unary op e _, place => place.enclose .sign (symbol (UnaryOp.symbol op) :: e.print .sign)

/-- Expressions with commas between them, at places for the given rank. -/
def printItems : List Expr → Rank → List Token
  | [], _ => []
  | e :: es, place =>
    e.print place ++ if es.isEmpty then [] else symbol .comma :: printItems es place

def Property.print : Property → List Token
  | .keyed key e _ => string key :: symbol .colon :: e.print .assignment
  | .shorthand name _ => [identifier name]

/-- The entries of an object, each with a comma behind it. -/
def printProperties : List Property → List Token
  | [] => []
  | p :: ps => p.print ++ symbol .comma :: printProperties ps

/-- A function from its parameters on. -/
def Function.print : Function → List Token
  | ⟨ps, body, _⟩ => symbol .leftParen :: names ps ++
      symbol .rightParen :: (symbol .leftBrace :: printStmts body ++ [symbol .rightBrace])

def Declarator.print : Declarator → List Token
  | ⟨name, e, _⟩ => identifier name :: symbol .equals :: e.print .assignment

def printDeclarators : List Declarator → List Token
  | [] => []
  | d :: ds => d.print ++ if ds.isEmpty then [] else symbol .comma :: printDeclarators ds

def Block.print : Block → List Token
  | ⟨body, _⟩ => symbol .leftBrace :: printStmts body ++ [symbol .rightBrace]

def Conditional.print : Conditional → List Token
  | ⟨e, b, alternate, _⟩ => keyword .ifWord :: symbol .leftParen :: e.print .assignment ++
      symbol .rightParen :: b.print ++ alternate.print

def Alternate.print : Alternate → List Token
  | .absent => []
  | .block b => keyword .elseWord :: b.print
  | .conditional c => keyword .elseWord :: c.print

/-- The tokens of a statement.  An expression that would look like a block or like the declaration
of a function stands in parentheses. -/
def Stmt.print : Stmt → List Token
  | .expr e =>
    if opensStatement (e.print .assignment) then
      symbol .leftParen :: e.print .assignment ++ [symbol .rightParen]
    else e.print .assignment
  | .declaration kind ds _ => keyword kind.word :: printDeclarators ds
  | .function name f => keyword .functionWord :: identifier name :: f.print
  | .conditional c => c.print
  | .loop e b _ => keyword .whileWord :: symbol .leftParen :: e.print .assignment ++
      symbol .rightParen :: b.print
  | .block b => b.print

/-- Statements, each with a semicolon behind it. -/
def printStmts : List Stmt → List Token
  | [] => []
  | s :: ss => s.print ++ symbol .semicolon :: printStmts ss

end

/-! ## What is written is a yield -/

namespace Rank

theorem depth_looser (r : Rank) : r.looser.depth = r.depth - 1 := by
  rcases r with - | ⟨- | - | - | -⟩ | - | - | - <;> rfl

theorem eq_assignment_of_depth_eq_zero {r : Rank} (h : r.depth = 0) : r = assignment := by
  rcases r with - | ⟨- | - | - | -⟩ | - | - | - <;> simp_all [depth]

theorem depth_le_primary (r : Rank) : r.depth ≤ primary.depth := by
  rcases r with - | ⟨- | - | - | -⟩ | - | - | - <;> decide

theorem eq_or_le_looser {place own : Rank} (h : place.depth ≤ own.depth) :
    place = own ∨ place.depth ≤ own.looser.depth := by
  rcases place with - | ⟨- | - | - | -⟩ | - | - | - <;>
    rcases own with - | ⟨- | - | - | -⟩ | - | - | - <;> simp_all [depth, looser]

end Rank

namespace Yields

variable {least : Nat} {own place : Rank} {e : Expr} {ts : List Token}

theorem looser (h : Yields least (.expr own e) ts) : Yields least (.expr own.looser e) ts := by
  cases own with
  | assignment => exact h
  | level l =>
    cases l with
    | logical => exact .ofLogical h
    | comparison => exact .ofOperand (l := .logical) h
    | additive => exact .ofOperand (l := .comparison) h
    | multiplicative => exact .ofOperand (l := .additive) h
  | sign => exact .ofOperand (l := .multiplicative) h
  | access => exact .ofAccess h
  | primary => exact .ofPrimary h

/-- What is tight may stand where something looser may. -/
theorem loosen (h : Yields least (.expr own e) ts) (hle : place.depth ≤ own.depth) :
    Yields least (.expr place e) ts := by
  generalize hn : own.depth = n
  induction n generalizing own with
  | zero =>
    rw [hn] at hle
    obtain rfl := Rank.eq_assignment_of_depth_eq_zero hn
    obtain rfl := Rank.eq_assignment_of_depth_eq_zero (Nat.le_zero.mp hle)
    exact h
  | succ n ih =>
    rcases Rank.eq_or_le_looser hle with rfl | hlooser
    · exact h
    · refine ih h.looser hlooser ?_
      rw [Rank.depth_looser, hn]
      rfl

/-- Parentheses make an expression fit for any place. -/
theorem enclose (h : Yields least (.expr own e) ts) (place : Rank) :
    Yields least (.expr place e) (place.enclose own ts) := by
  unfold Rank.enclose
  split
  · next hle => exact h.loosen hle
  · have hinner : Yields least (.expr .assignment e) ts := h.loosen (Nat.zero_le _)
    exact hinner.parenthesized.loosen place.depth_le_primary

theorem ofPrimaryAt (h : Yields least (.expr .primary e) ts) : Yields least (.expr place e) ts :=
  h.loosen place.depth_le_primary

end Yields

theorem yields_list_of_items {es : List Expr} {place : Rank}
    (h : es ≠ [] → Yields 1 (.items place es) (printItems es place)) :
    Yields 1 (.list place es) (printItems es place) := by
  cases es with
  | nil => exact .listNone
  | cons e es => exact .listSome (h (List.cons_ne_nil _ _))

mutual

theorem Expr.yields_print (e : Expr) (h : e.WellNamed) (place : Rank) :
    Yields 1 (.expr place e) (e.print place) := by
  cases e with
  | number => exact Yields.number.ofPrimaryAt
  | string => exact Yields.string.ofPrimaryAt
  | constant => exact Yields.constant.ofPrimaryAt
  | var => exact Yields.var.ofPrimaryAt
  | array es =>
    have hes := yields_list_of_items fun hne => yields_printItems es hne h (.level .logical)
    exact hes.array.ofPrimaryAt
  | object ps => exact (yields_printProperties ps h).object.ofPrimaryAt
  | function name f =>
    cases name with
    | none => exact (f.yields_print h.2).namelessFunction.ofPrimaryAt
    | some name => exact (f.yields_print h.2).namedFunction.ofPrimaryAt
  | assign name op e => exact (e.yields_print h _).assignment.enclose place
  | member e name => exact (e.yields_print h _).member.enclose place
  | index e key => exact ((e.yields_print h.1 _).index (key.yields_print h.2 _)).enclose place
  | call e es =>
    have hes := yields_list_of_items fun hne => yields_printItems es hne h.2 .assignment
    exact ((e.yields_print h.1 _).call hes).enclose place
  | logical op left right =>
    exact (Yields.connective (.logical op) (left.yields_print h.1 _)
      (right.yields_print h.2 _)).enclose place
  | binary op left right =>
    exact (Yields.connective (.binary op) (left.yields_print h.1 _)
      (right.yields_print h.2 _)).enclose place
  | unary op e => exact (e.yields_print h _).sign.enclose place

theorem yields_printItems (es : List Expr) (hne : es ≠ []) (h : exprsWellNamed es)
    (place : Rank) : Yields 1 (.items place es) (printItems es place) := by
  match es with
  | [] => exact absurd rfl hne
  | [e] =>
    show Yields 1 _ (e.print place ++ [])
    rw [List.append_nil]
    exact .itemsLast (e.yields_print h.1 place)
  | e :: e' :: es =>
    exact .itemsMore (e.yields_print h.1 place)
      (yields_printItems (e' :: es) (List.cons_ne_nil _ _) h.2 place)

theorem Property.yields_print (p : Property) (h : p.WellNamed) :
    Yields 1 (.property p) p.print := by
  cases p with
  | keyed key e => exact .stringProperty (e.yields_print h .assignment)
  | shorthand => exact .shorthand

theorem yields_printProperties (ps : List Property) (h : propertiesWellNamed ps) :
    Yields 1 (.properties ps) (printProperties ps) := by
  cases ps with
  | nil => exact .propertiesNone
  | cons p ps => exact .propertiesMore (p.yields_print h.1) (yields_printProperties ps h.2)

theorem Function.yields_print (f : Function) (h : f.WellNamed) :
    Yields 1 (.function f) f.print := by
  obtain ⟨ps, body, sp⟩ := f
  have hblock : Yields 1 (.block ⟨body, sp⟩) (Block.print ⟨body, sp⟩) :=
    .block (yields_printStmts body h.2.2)
  exact .function hblock

theorem Declarator.yields_print (d : Declarator) (h : d.WellNamed) :
    Yields 1 (.declarator d) d.print := by
  obtain ⟨name, e, sp⟩ := d
  exact .declaratorValue (e.yields_print h.2 .assignment)

theorem yields_printDeclarators (ds : List Declarator) (hne : ds ≠ [])
    (h : declaratorsWellNamed ds) : Yields 1 (.declarators ds) (printDeclarators ds) := by
  match ds with
  | [] => exact absurd rfl hne
  | [d] =>
    show Yields 1 _ (d.print ++ [])
    rw [List.append_nil]
    exact .declaratorsLast (d.yields_print h.1)
  | d :: d' :: ds =>
    exact .declaratorsMore (d.yields_print h.1)
      (yields_printDeclarators (d' :: ds) (List.cons_ne_nil _ _) h.2)

theorem Block.yields_print (b : Block) (h : b.WellNamed) : Yields 1 (.block b) b.print := by
  obtain ⟨body, sp⟩ := b
  exact .block (yields_printStmts body h)

theorem Conditional.yields_print (c : Conditional) (h : c.WellNamed) :
    Yields 1 (.conditional c) c.print := by
  obtain ⟨e, b, alternate, sp⟩ := c
  have he := e.yields_print h.1 .assignment
  have hb := b.yields_print h.2.1
  cases alternate with
  | absent =>
    show Yields 1 _ (_ ++ [])
    rw [List.append_nil]
    exact .conditional he hb
  | block b' => exact .conditionalElse he hb (b'.yields_print h.2.2)
  | conditional c => exact .conditionalElseIf he hb (c.yields_print h.2.2)

theorem Stmt.yields_print (s : Stmt) (h : s.WellNamed) : Yields 1 (.statement s) s.print := by
  cases s with
  | expr e =>
    have he := e.yields_print h .assignment
    unfold Stmt.print
    split
    · exact .expressionStatement rfl he.parenthesized.ofPrimaryAt
    · next hplain => exact .expressionStatement (Bool.eq_false_iff.mpr hplain) he
  | declaration kind ds => exact .declaration (yields_printDeclarators ds h.1 h.2)
  | function name f => exact .functionDeclaration (f.yields_print h.2)
  | conditional c => exact .conditionalStatement (c.yields_print h)
  | loop e b => exact .loop (e.yields_print h.1 .assignment) (b.yields_print h.2)
  | block b => exact .blockStatement (b.yields_print h)

/-- **Every tree that is well named can be written down.** -/
theorem yields_printStmts (ss : List Stmt) (h : stmtsWellNamed ss) :
    Yields 1 (.statements ss) (printStmts ss) := by
  cases ss with
  | nil => exact .statementsNone
  | cons s ss =>
    refine .statementsSome (s.yields_print h.1) (.semicolon (yields_printStmts ss h.2)) fun _ => ?_
    exact List.prefix_append [_] _

end

end Script
