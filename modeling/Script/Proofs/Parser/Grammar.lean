import Script.Syntax.Parser

/-!
# The grammar

`Yields least form tokens` says that the tokens are a way to write the form down.  It is the grammar
of the language, rule by rule, and knows nothing of a parser: no lookahead, no rest of the input, no
spans.  An expression stands at a `Rank`, and what is looser than its place must be in parentheses,
which leave no node behind.  Operators of one level lean to the left, because the left operand may
be of the level itself and the right one may not; signs and assignments lean to the right.

The number `least` says how many semicolons must stand between two statements.  The language asks
for none, and so a sequence of tokens may be a way to write down several trees.  With one semicolon
it is not.
-/

namespace Script

/-- How tightly an expression is put together, from the loosest to the tightest. -/
inductive Rank where
  | assignment
  | level (level : Level)
  | sign
  | access
  | primary
deriving DecidableEq, Repr

/-- The rank of the right operands of a level: the next tighter one. -/
def Rank.operand (l : Level) : Rank :=
  match l.tighter? with
  | some tighter => level tighter
  | none => sign

/-- The rank of the items of a list. -/
def Item.rank : Item → Rank
  | argument => .assignment
  | element => .level .logical

/-- The expression that an operator makes of its two operands. -/
def Connective.node (connective : Connective) (left right : Expr) (span : Span) : Expr :=
  match connective with
  | logical op => .logical op left right span
  | binary op => .binary op left right span

/-- Something that has a place in the grammar. -/
inductive Form where
  | expr (rank : Rank) (expr : Expr)
  /-- Any number of expressions with commas between them. -/
  | list (rank : Rank) (exprs : List Expr)
  /-- At least one expression. -/
  | items (rank : Rank) (exprs : List Expr)
  | properties (properties : List Property)
  | property (property : Property)
  /-- A function from its parameters on. -/
  | function (function : Function)
  | block (block : Block)
  | statements (stmts : List Stmt)
  | statement (stmt : Stmt)
  | conditional (conditional : Conditional)
  | declarators (declarators : List Declarator)
  | declarator (declarator : Declarator)

/-- The word that opens a declaration. -/
def DeclarationKind.word : DeclarationKind → Keyword
  | letKind => .letWord
  | varKind => .varWord

namespace Token

/-- The tokens in front begin a block or the declaration of a function, where a statement may stand.
-/
def opensStatement : List Token → Bool
  | symbol .leftBrace :: _ => true
  | keyword .functionWord :: identifier _ :: _ => true
  | _ => false

/-- Names with commas between them. -/
def names (xs : List String) : List Token :=
  (xs.map identifier).intersperse (symbol .comma)

theorem names_cons_cons (x y : String) (xs : List String) :
    names (x :: y :: xs) = identifier x :: symbol .comma :: names (y :: xs) := rfl

end Token

open Token

/-- The tokens are a way to write the form down. -/
inductive Yields (least : Nat) : Form → List Token → Prop
  -- Primary expressions
  | number {value sp} : Yields least (.expr .primary (.number value sp)) [number value]
  | string {value sp} : Yields least (.expr .primary (.string value sp)) [string value]
  | constant {c sp} : Yields least (.expr .primary (.constant c sp)) [identifier c.spelling]
  | var {name sp} : Yields least (.expr .primary (.var name sp)) [identifier name]
  | parenthesized {e ts} (inner : Yields least (.expr .assignment e) ts) :
      Yields least (.expr .primary e) (symbol .leftParen :: ts ++ [symbol .rightParen])
  | array {es sp ts} (elements : Yields least (.list (.level .logical) es) ts) :
      Yields least (.expr .primary (.array es sp))
        (symbol .leftBracket :: ts ++ [symbol .rightBracket])
  | object {ps sp ts} (entries : Yields least (.properties ps) ts) :
      Yields least (.expr .primary (.object ps sp))
        (symbol .leftBrace :: ts ++ [symbol .rightBrace])
  | namedFunction {name f ts} (h : Yields least (.function f) ts) :
      Yields least (.expr .primary (.function (some name) f))
        (keyword .functionWord :: identifier name :: ts)
  | namelessFunction {f ts} (h : Yields least (.function f) ts) :
      Yields least (.expr .primary (.function none f)) (keyword .functionWord :: ts)
  -- Accesses and calls
  | ofPrimary {e ts} (h : Yields least (.expr .primary e) ts) : Yields least (.expr .access e) ts
  | member {e name sp ts} (object : Yields least (.expr .access e) ts) :
      Yields least (.expr .access (.member e name sp)) (ts ++ [symbol .dot, identifier name])
  | index {e key sp ts us} (object : Yields least (.expr .access e) ts)
      (inner : Yields least (.expr .assignment key) us) :
      Yields least (.expr .access (.index e key sp))
        (ts ++ symbol .leftBracket :: us ++ [symbol .rightBracket])
  | call {e es sp ts us} (callee : Yields least (.expr .access e) ts)
      (arguments : Yields least (.list .assignment es) us) :
      Yields least (.expr .access (.call e es sp))
        (ts ++ symbol .leftParen :: us ++ [symbol .rightParen])
  -- Operators
  | ofAccess {e ts} (h : Yields least (.expr .access e) ts) : Yields least (.expr .sign e) ts
  | sign {op : UnaryOp} {e sp ts} (operand : Yields least (.expr .sign e) ts) :
      Yields least (.expr .sign (.unary op e sp)) (symbol op.symbol :: ts)
  | ofOperand {l e ts} (h : Yields least (.expr (.operand l) e) ts) :
      Yields least (.expr (.level l) e) ts
  | connective (op : Connective) {left right sp ts us}
      (first : Yields least (.expr (.level op.level) left) ts)
      (second : Yields least (.expr (.operand op.level) right) us) :
      Yields least (.expr (.level op.level) (op.node left right sp))
        (ts ++ symbol op.symbol :: us)
  | ofLogical {e ts} (h : Yields least (.expr (.level .logical) e) ts) :
      Yields least (.expr .assignment e) ts
  | assignment {name} {op : AssignOp} {e sp ts} (value : Yields least (.expr .assignment e) ts) :
      Yields least (.expr .assignment (.assign name op e sp))
        (identifier name :: symbol op.symbol :: ts)
  -- Lists
  | listNone {r} : Yields least (.list r []) []
  | listSome {r es ts} (h : Yields least (.items r es) ts) : Yields least (.list r es) ts
  | itemsLast {r e ts} (h : Yields least (.expr r e) ts) : Yields least (.items r [e]) ts
  | itemsMore {r e es ts us} (h : Yields least (.expr r e) ts)
      (more : Yields least (.items r es) us) :
      Yields least (.items r (e :: es)) (ts ++ symbol .comma :: us)
  -- The entries of an object; a comma behind the last one is as good as none
  | propertiesNone : Yields least (.properties []) []
  | propertiesLast {p ts} (h : Yields least (.property p) ts) : Yields least (.properties [p]) ts
  | propertiesMore {p ps ts us} (h : Yields least (.property p) ts)
      (more : Yields least (.properties ps) us) :
      Yields least (.properties (p :: ps)) (ts ++ symbol .comma :: us)
  | nameProperty {key e sp ts} (value : Yields least (.expr .assignment e) ts) :
      Yields least (.property (.keyed key e sp)) (identifier key :: symbol .colon :: ts)
  | stringProperty {key e sp ts} (value : Yields least (.expr .assignment e) ts) :
      Yields least (.property (.keyed key e sp)) (string key :: symbol .colon :: ts)
  | shorthand {name sp} : Yields least (.property (.shorthand name sp)) [identifier name]
  -- Functions and blocks
  | function {ps body sp sp' ts} (h : Yields least (.block ⟨body, sp'⟩) ts) :
      Yields least (.function ⟨ps, body, sp⟩)
        (symbol .leftParen :: names ps ++ symbol .rightParen :: ts)
  | block {body sp ts} (h : Yields least (.statements body) ts) :
      Yields least (.block ⟨body, sp⟩) (symbol .leftBrace :: ts ++ [symbol .rightBrace])
  -- Statements
  | statementsNone : Yields least (.statements []) []
  | semicolon {body ts} (h : Yields least (.statements body) ts) :
      Yields least (.statements body) (symbol .semicolon :: ts)
  | statementsSome {s body ts us} (first : Yields least (.statement s) ts)
      (more : Yields least (.statements body) us)
      (apart : body ≠ [] → List.replicate least (symbol .semicolon) <+: us) :
      Yields least (.statements (s :: body)) (ts ++ us)
  | declaration {kind : DeclarationKind} {ds sp ts} (h : Yields least (.declarators ds) ts) :
      Yields least (.statement (.declaration kind ds sp)) (keyword kind.word :: ts)
  | functionDeclaration {name f ts} (h : Yields least (.function f) ts) :
      Yields least (.statement (.function name f))
        (keyword .functionWord :: identifier name :: ts)
  | conditionalStatement {c ts} (h : Yields least (.conditional c) ts) :
      Yields least (.statement (.conditional c)) ts
  | loop {e b sp ts us} (condition : Yields least (.expr .assignment e) ts)
      (body : Yields least (.block b) us) :
      Yields least (.statement (.loop e b sp))
        (keyword .whileWord :: symbol .leftParen :: ts ++ symbol .rightParen :: us)
  | blockStatement {b ts} (h : Yields least (.block b) ts) :
      Yields least (.statement (.block b)) ts
  | expressionStatement {e ts} (plain : opensStatement ts = false)
      (h : Yields least (.expr .assignment e) ts) : Yields least (.statement (.expr e)) ts
  | conditional {e b sp ts us} (condition : Yields least (.expr .assignment e) ts)
      (consequent : Yields least (.block b) us) :
      Yields least (.conditional ⟨e, b, .absent, sp⟩)
        (keyword .ifWord :: symbol .leftParen :: ts ++ symbol .rightParen :: us)
  | conditionalElse {e b b' sp ts us vs} (condition : Yields least (.expr .assignment e) ts)
      (consequent : Yields least (.block b) us) (alternate : Yields least (.block b') vs) :
      Yields least (.conditional ⟨e, b, .block b', sp⟩)
        (keyword .ifWord :: symbol .leftParen :: ts ++ symbol .rightParen :: us ++
          keyword .elseWord :: vs)
  | conditionalElseIf {e b c sp ts us vs} (condition : Yields least (.expr .assignment e) ts)
      (consequent : Yields least (.block b) us) (nested : Yields least (.conditional c) vs) :
      Yields least (.conditional ⟨e, b, .conditional c, sp⟩)
        (keyword .ifWord :: symbol .leftParen :: ts ++ symbol .rightParen :: us ++
          keyword .elseWord :: vs)
  -- Declarations; a name without a value has the value undefined
  | declaratorsLast {d ts} (h : Yields least (.declarator d) ts) :
      Yields least (.declarators [d]) ts
  | declaratorsMore {d ds ts us} (h : Yields least (.declarator d) ts)
      (more : Yields least (.declarators ds) us) :
      Yields least (.declarators (d :: ds)) (ts ++ symbol .comma :: us)
  | declaratorValue {name e sp ts} (value : Yields least (.expr .assignment e) ts) :
      Yields least (.declarator ⟨name, e, sp⟩) (identifier name :: symbol .equals :: ts)
  | declaratorPlain {name sp sp'} :
      Yields least (.declarator ⟨name, .constant .undefined sp, sp'⟩) [identifier name]

theorem Yields.declarators_ne_nil {least : Nat} {ds : List Declarator} {ts : List Token}
    (h : Yields least (.declarators ds) ts) : ds ≠ [] := by
  cases h <;> exact List.cons_ne_nil _ _

theorem Token.all_names (xs : List String) : (names xs).all (!·.isComment) = true := by
  induction xs with
  | nil => rfl
  | cons x xs ih =>
    cases xs with
    | nil => rfl
    | cons y ys => exact ih

/-- Comments are no part of a form. -/
theorem Yields.plain {least : Nat} {form : Form} {ts : List Token} (h : Yields least form ts) :
    ts.all (!·.isComment) = true := by
  induction h with
  | function _ ih =>
    rw [List.all_append, List.all_cons, all_names]
    exact ih
  | _ => simp_all [isComment]

/-! ## Names -/

/-- A variable may have this name: it is none of the constants. -/
def Free (name : String) : Prop := Constant.ofSpelling? name = none

mutual

/-- All variables, functions and parameters have names that a variable may have, the parameters of a
function have different ones, and a declaration has at least one. -/
def Expr.WellNamed : Expr → Prop
  | .number _ _ | .string _ _ | .constant _ _ => True
  | .var name _ => Free name
  | .array es _ => exprsWellNamed es
  | .object ps _ => propertiesWellNamed ps
  | .function name f => (∀ n ∈ name, Free n) ∧ f.WellNamed
  | .assign _ _ e _ | .member e _ _ | .unary _ e _ => e.WellNamed
  | .index e key _ => e.WellNamed ∧ key.WellNamed
  | .call e es _ => e.WellNamed ∧ exprsWellNamed es
  | .logical _ left right _ | .binary _ left right _ => left.WellNamed ∧ right.WellNamed

def exprsWellNamed : List Expr → Prop
  | [] => True
  | e :: es => e.WellNamed ∧ exprsWellNamed es

def Property.WellNamed : Property → Prop
  | .keyed _ e _ => e.WellNamed
  | .shorthand _ _ => True

def propertiesWellNamed : List Property → Prop
  | [] => True
  | p :: ps => p.WellNamed ∧ propertiesWellNamed ps

def Function.WellNamed : Function → Prop
  | ⟨ps, body, _⟩ => (∀ name ∈ ps, Free name) ∧ ps.Nodup ∧ stmtsWellNamed body

def Declarator.WellNamed : Declarator → Prop
  | ⟨name, e, _⟩ => Free name ∧ e.WellNamed

def declaratorsWellNamed : List Declarator → Prop
  | [] => True
  | d :: ds => d.WellNamed ∧ declaratorsWellNamed ds

def Block.WellNamed : Block → Prop
  | ⟨body, _⟩ => stmtsWellNamed body

def Conditional.WellNamed : Conditional → Prop
  | ⟨e, b, alternate, _⟩ => e.WellNamed ∧ b.WellNamed ∧ alternate.WellNamed

def Alternate.WellNamed : Alternate → Prop
  | .absent => True
  | .block b => b.WellNamed
  | .conditional c => c.WellNamed

def Stmt.WellNamed : Stmt → Prop
  | .expr e => e.WellNamed
  | .declaration _ ds _ => ds ≠ [] ∧ declaratorsWellNamed ds
  | .function name f => Free name ∧ f.WellNamed
  | .conditional c => c.WellNamed
  | .loop e b _ => e.WellNamed ∧ b.WellNamed
  | .block b => b.WellNamed

def stmtsWellNamed : List Stmt → Prop
  | [] => True
  | s :: ss => s.WellNamed ∧ stmtsWellNamed ss

end

theorem Connective.node_wellNamed (op : Connective) {left right : Expr} {sp : Span} :
    (op.node left right sp).WellNamed ↔ left.WellNamed ∧ right.WellNamed := by
  cases op <;> exact Iff.rfl

/-- The names in a form are names that may stand there. -/
def Form.WellNamed : Form → Prop
  | expr _ e => e.WellNamed
  | list _ es | items _ es => exprsWellNamed es
  | properties ps => propertiesWellNamed ps
  | property p => p.WellNamed
  | function f => f.WellNamed
  | block b => b.WellNamed
  | statements ss => stmtsWellNamed ss
  | statement s => s.WellNamed
  | conditional c => c.WellNamed
  | declarators ds => declaratorsWellNamed ds
  | declarator d => d.WellNamed

end Script
