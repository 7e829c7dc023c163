import Script.Proofs.Lexer.Lines
import Script.Proofs.Parser.Reading

/-!
# Trees that are moved

A `Move` takes each span to another one, in such a way that what covers two spans covers them after
the move.  Putting a source below others is a move.  Moves act on lexemes and on trees, and the
parser commutes with them (`Reads.moved`): from lexemes that are moved it reads the tree that is
moved.
-/

namespace Script

/-- A way to move the places of a source. -/
structure Move where
  apply : Span → Span
  join (a b : Span) : apply (a.join b) = (apply a).join (apply b)

namespace Position

variable {origin p q : Position}

theorem compare_below : compare (p.below origin) (q.below origin) = compare p q := by
  have hadd : ∀ k m n : Nat, Ord.compare (k + m) (k + n) = Ord.compare m n := by
    intro k m n
    simp only [Nat.compare_eq_ite_lt, Nat.add_lt_add_iff_left]
  unfold compare below
  simp only [hadd]

theorem min_below : (p.below origin).min (q.below origin) = (p.min q).below origin := by
  unfold min
  rw [compare_below]
  split
  · rfl
  · rfl

theorem max_below : (p.below origin).max (q.below origin) = (p.max q).below origin := by
  unfold max
  rw [compare_below]
  split
  · rfl
  · rfl

end Position

namespace Move

/-- Everything stays where it is. -/
def stay : Move := ⟨id, fun _ _ => rfl⟩

/-- To where the source is when it begins at `origin`, on a new line. -/
def below (origin : Position) : Move where
  apply := Span.below origin
  join a b := by
    simp only [Span.below, Span.join, Position.min_below, Position.max_below]

/-- One move after another. -/
def andThen (g h : Move) : Move where
  apply span := h.apply (g.apply span)
  join a b := by rw [g.join, h.join]

end Move

/-! ## Lexemes and trees -/

def Lexeme.moved (g : Move) (lexeme : Lexeme) : Lexeme := ⟨lexeme.token, g.apply lexeme.span⟩

mutual

def Expr.moved (g : Move) : Expr → Expr
  | .number value span => .number value (g.apply span)
  | .string value span => .string value (g.apply span)
  | .constant value span => .constant value (g.apply span)
  | .var name span => .var name (g.apply span)
  | .array es span => .array (movedExprs g es) (g.apply span)
  | .object ps span => .object (movedProperties g ps) (g.apply span)
  | .function name f => .function name (f.moved g)
  | .assign name op e span => .assign name op (e.moved g) (g.apply span)
  | .member e name span => .member (e.moved g) name (g.apply span)
  | .index e key span => .index (e.moved g) (key.moved g) (g.apply span)
  | .call e es span => .call (e.moved g) (movedExprs g es) (g.apply span)
  | .logical op left right span => .logical op (left.moved g) (right.moved g) (g.apply span)
  | .binary op left right span => .binary op (left.moved g) (right.moved g) (g.apply span)
  | .unary op e span => .unary op (e.moved g) (g.apply span)

def movedExprs (g : Move) : List Expr → List Expr
  | [] => []
  | e :: es => e.moved g :: movedExprs g es

def Property.moved (g : Move) : Property → Property
  | .keyed key e span => .keyed key (e.moved g) (g.apply span)
  | .shorthand name span => .shorthand name (g.apply span)

def movedProperties (g : Move) : List Property → List Property
  | [] => []
  | p :: ps => p.moved g :: movedProperties g ps

def Function.moved (g : Move) : Function → Function
  | ⟨ps, body, span⟩ => ⟨ps, movedStmts g body, g.apply span⟩

def Declarator.moved (g : Move) : Declarator → Declarator
  | ⟨name, e, span⟩ => ⟨name, e.moved g, g.apply span⟩

def movedDeclarators (g : Move) : List Declarator → List Declarator
  | [] => []
  | d :: ds => d.moved g :: movedDeclarators g ds

def Block.moved (g : Move) : Block → Block
  | ⟨body, span⟩ => ⟨movedStmts g body, g.apply span⟩

def Conditional.moved (g : Move) : Conditional → Conditional
  | ⟨e, b, alternate, span⟩ => ⟨e.moved g, b.moved g, alternate.moved g, g.apply span⟩

def Alternate.moved (g : Move) : Alternate → Alternate
  | .absent => .absent
  | .block b => .block (b.moved g)
  | .conditional c => .conditional (c.moved g)

def Stmt.moved (g : Move) : Stmt → Stmt
  | .expr e => .expr (e.moved g)
  | .declaration kind ds span => .declaration kind (movedDeclarators g ds) (g.apply span)
  | .function name f => .function name (f.moved g)
  | .conditional c => .conditional (c.moved g)
  | .loop e b span => .loop (e.moved g) (b.moved g) (g.apply span)
  | .block b => .block (b.moved g)

def movedStmts (g : Move) : List Stmt → List Stmt
  | [] => []
  | s :: ss => s.moved g :: movedStmts g ss

end

section

variable {g : Move}

theorem Expr.span_moved (e : Expr) : (e.moved g).span = g.apply e.span := by
  cases e with
  | function name f => cases f; rfl
  | _ => rfl

theorem Block.span_moved (b : Block) : (b.moved g).span = g.apply b.span := by
  cases b
  rfl

theorem Block.body_moved (b : Block) : (b.moved g).body = movedStmts g b.body := by
  cases b
  rfl

theorem Conditional.span_moved (c : Conditional) : (c.moved g).span = g.apply c.span := by
  cases c
  rfl

theorem Declarator.span_moved (d : Declarator) : (d.moved g).span = g.apply d.span := by
  cases d
  rfl

theorem movedStmts_eq_nil {body : List Stmt} : movedStmts g body = [] ↔ body = [] := by
  cases body <;> simp [movedStmts]

theorem Connective.join_moved (op : Connective) (left right : Expr) :
    (op.join left right).moved g = op.join (left.moved g) (right.moved g) := by
  cases op <;> simp [Connective.join, Expr.moved, Expr.span_moved, g.join]

theorem declarationSpan_moved (span : Span) (ds : List Declarator) :
    g.apply (Parse.declarationSpan span ds) =
      Parse.declarationSpan (g.apply span) (movedDeclarators g ds) := by
  unfold Parse.declarationSpan
  induction ds generalizing span with
  | nil => rfl
  | cons d ds ih =>
    rw [movedDeclarators, List.foldl_cons, List.foldl_cons, ih, g.join, Declarator.span_moved]

end

/-! ## Reading -/

/-- Names with their places. -/
def movedNames (g : Move) (names : List (String × Span)) : List (String × Span) :=
  names.map fun x => (x.1, g.apply x.2)

theorem map_fst_movedNames (g : Move) (names : List (String × Span)) :
    (movedNames g names).map Prod.fst = names.map Prod.fst := by
  rw [movedNames, List.map_map]
  rfl

def Phrase.moved (g : Move) : Phrase → Phrase
  | program body => program (movedStmts g body)
  | braced body close => braced (movedStmts g body) (g.apply close)
  | block b => block (b.moved g)
  | statement s => statement (s.moved g)
  | conditional c => conditional (c.moved g)
  | declarators ds => declarators (movedDeclarators g ds)
  | declarator d => declarator (d.moved g)
  | function keyword f => function (g.apply keyword) (f.moved g)
  | parameterList names => parameterList (movedNames g names)
  | parameters names => parameters (movedNames g names)
  | expression e => expression (e.moved g)
  | level l e => level l (e.moved g)
  | chain l left e => chain l (left.moved g) (e.moved g)
  | unary e => unary (e.moved g)
  | primary e => primary (e.moved g)
  | access operand e => access (operand.moved g) (e.moved g)
  | list kind closing es close => list kind closing (movedExprs g es) (g.apply close)
  | items kind closing es close => items kind closing (movedExprs g es) (g.apply close)
  | properties ps close => properties (movedProperties g ps) (g.apply close)
  | property p => property (p.moved g)

section

variable {g : Move}

theorem Phrase.operand_moved (l : Level) (e : Expr) :
    (Phrase.operand l e).moved g = Phrase.operand l (e.moved g) := by
  unfold operand
  split <;> rfl

theorem Phrase.item_moved (kind : Item) (e : Expr) :
    (Phrase.item kind e).moved g = Phrase.item kind (e.moved g) := by
  cases kind <;> rfl

theorem Parse.assignment?_moved {ls : List Lexeme} (h : assignment? ls = none) :
    assignment? (ls.map (Lexeme.moved g)) = none := by
  unfold assignment? at h
  split at h
  · next name span lexeme rest =>
    rw [Option.map_eq_none_iff] at h
    show (lexeme.token.assignOp?.map _) = none
    rw [h]
    rfl
  · next hother =>
    unfold assignment?
    split
    · next name span lexeme rest heq =>
      obtain ⟨first, tail, rfl, hfirst, htail⟩ := List.map_eq_cons_iff.mp heq
      obtain ⟨second, others, rfl, -, -⟩ := List.map_eq_cons_iff.mp htail
      obtain ⟨token, sp⟩ := first
      cases hfirst
      exact absurd rfl (hother name sp second others)
    · rfl

theorem Parse.opensStatement_moved (ls : List Lexeme) :
    opensStatement (ls.map (Lexeme.moved g)) = opensStatement ls := by
  rcases ls with _ | ⟨⟨token, span⟩, _ | ⟨⟨token', span'⟩, rest⟩⟩
  · rfl
  · cases token with
    | keyword word => cases word <;> rfl
    | symbol mark => cases mark <;> rfl
    | _ => rfl
  · cases token with
    | keyword word =>
      cases word with
      | functionWord => cases token' <;> rfl
      | _ => rfl
    | symbol mark => cases mark <;> rfl
    | _ => rfl

theorem Parse.firstRepeat?_moved {names : List (String × Span)}
    (h : firstRepeat? [] names = none) : firstRepeat? [] (movedNames g names) = none := by
  rw [firstRepeat?_nil_eq_none] at h ⊢
  rwa [map_fst_movedNames]

end

/-- **The parser commutes with moves.** -/
theorem Reads.moved (g : Move) {phrase : Phrase} {ls rest : List Lexeme}
    (h : Reads phrase ls rest) :
    Reads (phrase.moved g) (ls.map (Lexeme.moved g)) (rest.map (Lexeme.moved g)) := by
  induction h with
  | programSemicolon _ ih => exact .programSemicolon ih
  | programDry => exact .programDry
  | programEnd => exact .programEnd
  | programStatement semicolon ending _ _ first more =>
    exact .programStatement semicolon ending first more
  | bracedSemicolon _ ih => exact .bracedSemicolon ih
  | bracedClose => exact .bracedClose
  | bracedStatement semicolon brace ending _ _ first more =>
    exact .bracedStatement semicolon brace ending first more
  | block _ ih =>
    simp only [Phrase.moved, Block.moved, g.join]
    exact .block ih
  | declaration _ ih =>
    simp only [Phrase.moved, Stmt.moved, declarationSpan_moved]
    exact .declaration ih
  | functionDeclaration free _ ih => exact .functionDeclaration free ih
  | conditionalStatement _ ih => exact .conditionalStatement ih
  | loop _ _ condition body =>
    simp only [Phrase.moved, Stmt.moved, g.join, ← Block.span_moved]
    exact .loop condition body
  | blockStatement _ ih => exact .blockStatement ih
  | expressionStatement plain _ ih =>
    exact .expressionStatement ((Parse.opensStatement_moved _).trans plain) ih
  | conditional _ _ alone condition consequent =>
    simp only [Phrase.moved, Conditional.moved, Alternate.moved, g.join, ← Block.span_moved]
    exact .conditional condition consequent alone
  | conditionalElse _ _ plain _ condition consequent alternate =>
    simp only [Phrase.moved, Conditional.moved, Alternate.moved, g.join, ← Block.span_moved]
    exact .conditionalElse condition consequent plain alternate
  | conditionalElseIf _ _ _ condition consequent nested =>
    simp only [Phrase.moved, Conditional.moved, Alternate.moved, g.join, ← Block.span_moved,
      ← Conditional.span_moved]
    exact .conditionalElseIf condition consequent nested
  | declaratorsLast _ last ih => exact .declaratorsLast ih last
  | declaratorsMore _ _ ih more => exact .declaratorsMore ih more
  | declaratorValue free _ ih =>
    simp only [Phrase.moved, Declarator.moved, g.join, ← Expr.span_moved]
    exact .declaratorValue free ih
  | declaratorPlain free plain =>
    simp only [Phrase.moved, Declarator.moved, g.join]
    exact .declaratorPlain free plain
  | function _ distinct _ parameters body =>
    simp only [Phrase.moved, Function.moved, g.join, ← Block.span_moved, ← Block.body_moved]
    rw [← map_fst_movedNames g]
    exact .function parameters (Parse.firstRepeat?_moved distinct) body
  | parameterListNone => exact .parameterListNone
  | parameterListSome _ ih => exact .parameterListSome ih
  | parametersLast free => exact .parametersLast free
  | parametersMore free _ ih => exact .parametersMore free ih
  | assignment _ ih =>
    simp only [Phrase.moved, Expr.moved, g.join, ← Expr.span_moved]
    exact .assignment ih
  | value plain _ ih => exact .value (Parse.assignment?_moved plain) ih
  | level _ _ first more =>
    rw [Phrase.operand_moved] at first
    exact .level first more
  | @chainEnd l left ls stop =>
    refine .chainEnd ?_
    cases ls with
    | nil => rfl
    | cons lexeme ls => exact stop
  | chainOperator same _ _ ih more =>
    rw [Phrase.operand_moved] at ih
    simp only [Phrase.moved, Connective.join_moved] at more
    exact .chainOperator same ih more
  | sign _ ih =>
    simp only [Phrase.moved, Expr.moved, g.join, ← Expr.span_moved]
    exact .sign ih
  | accessed _ _ first more => exact .accessed first more
  | number => exact .number
  | string => exact .string
  | constant h => exact .constant h
  | var h => exact .var h
  | parenthesized _ ih => exact .parenthesized ih
  | array _ ih =>
    simp only [Phrase.moved, Expr.moved, g.join]
    exact .array ih
  | object _ ih =>
    simp only [Phrase.moved, Expr.moved, g.join]
    exact .object ih
  | namedFunction free _ ih => exact .namedFunction free ih
  | namelessFunction _ ih => exact .namelessFunction ih
  | accessEnd stop => exact .accessEnd stop
  | member _ ih =>
    simp only [Phrase.moved, Expr.moved, g.join, ← Expr.span_moved] at ih
    exact .member ih
  | index _ _ inner ih =>
    simp only [Phrase.moved, Expr.moved, g.join, ← Expr.span_moved] at ih
    exact .index inner ih
  | call _ _ arguments ih =>
    simp only [Phrase.moved, Expr.moved, g.join, ← Expr.span_moved] at ih
    exact .call arguments ih
  | listNone => exact .listNone
  | listSome nonempty _ ih => exact .listSome nonempty ih
  | itemsLast proper _ ih =>
    rw [Phrase.item_moved] at ih
    exact .itemsLast proper ih
  | itemsMore _ _ ih more =>
    rw [Phrase.item_moved] at ih
    exact .itemsMore ih more
  | propertiesNone => exact .propertiesNone
  | propertiesLast _ ih => exact .propertiesLast ih
  | propertiesMore _ _ ih more => exact .propertiesMore ih more
  | nameProperty _ ih =>
    simp only [Phrase.moved, Property.moved, g.join, ← Expr.span_moved]
    exact .nameProperty ih
  | stringProperty _ ih =>
    simp only [Phrase.moved, Property.moved, g.join, ← Expr.span_moved]
    exact .stringProperty ih
  | shorthand plain => exact .shorthand plain

end Script
