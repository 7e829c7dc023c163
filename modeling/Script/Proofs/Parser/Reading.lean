import Script.Proofs.Parser.Grammar
import Script.Proofs.Routine

/-!
# What the parser reads

`Reads phrase lexemes rest` says that the parser, with `lexemes` in front of it, takes the phrase
and leaves `rest`.  There is one rule for each way through the parser that ends well, and nothing in
the rules is about how the parser is run: no stack, no bound, no order of trials.  Where the parser
looks ahead before it decides, the rule carries what it saw.

A phrase is a part of the grammar together with what is read for it.  Besides the goals of the
parser there are phrases for the pieces that it reads on the way, such as a block or a single
declarator.
-/

namespace Script

/-- A part of the grammar, with the tree that stands for it. -/
inductive Phrase where
  | program (body : List Stmt)
  /-- Statements behind an opening brace, with the closing one. -/
  | braced (body : List Stmt) (close : Span)
  | block (block : Block)
  | statement (stmt : Stmt)
  | conditional (conditional : Conditional)
  | declarators (declarators : List Declarator)
  | declarator (declarator : Declarator)
  /-- A function behind its keyword, which stands at the span, and behind its name. -/
  | function (keyword : Span) (function : Function)
  /-- Parameters behind the opening parenthesis, with the closing one. -/
  | parameterList (names : List (String × Span))
  | parameters (names : List (String × Span))
  | expression (expr : Expr)
  | level (level : Level) (expr : Expr)
  /-- What an operand on the left grows to by the operators of a level behind it. -/
  | chain (level : Level) (left expr : Expr)
  | unary (expr : Expr)
  | primary (expr : Expr)
  /-- What an operand grows to by the accesses and calls behind it. -/
  | access (operand expr : Expr)
  /-- Expressions behind an opening mark, with the closing one. -/
  | list (item : Item) (closing : Symbol) (exprs : List Expr) (close : Span)
  | items (item : Item) (closing : Symbol) (exprs : List Expr) (close : Span)
  /-- The entries of an object literal behind its opening brace, with the closing one. -/
  | properties (properties : List Property) (close : Span)
  | property (property : Property)

namespace Phrase

/-- An operand of the operators of a level. -/
def operand (l : Level) (e : Expr) : Phrase :=
  match l.tighter? with
  | some tighter => level tighter e
  | none => unary e

/-- One item of a list. -/
def item : Item → Expr → Phrase
  | .argument, e => expression e
  | .element, e => level .logical e

/-- What a goal of the parser yields, as a phrase. -/
def ofGoal : (goal : Goal) → goal.Result → Phrase
  | .program, body => program body
  | .braced, (body, close) => braced body close
  | .statement, s => statement s
  | .conditional, c => conditional c
  | .declarators, ds => declarators ds
  | .expression, e => expression e
  | .level l, e => level l e
  | .chain l left, e => chain l left e
  | .unary, e => unary e
  | .access operand, e => access operand e
  | .items kind closing, (es, close) => items kind closing es close
  | .parameters, names => parameters names
  | .properties, (ps, close) => properties ps close

end Phrase

namespace Parse

/-- The lexemes in front begin a statement that is not a mere expression. -/
def opensStatement : List Lexeme → Bool
  | ⟨.keyword .letWord, _⟩ :: _ | ⟨.keyword .varWord, _⟩ :: _ => true
  | ⟨.keyword .ifWord, _⟩ :: _ | ⟨.keyword .whileWord, _⟩ :: _ => true
  | ⟨.symbol .leftBrace, _⟩ :: _ => true
  | ⟨.keyword .functionWord, _⟩ :: ⟨.identifier _, _⟩ :: _ => true
  | _ => false

/-- A token that goes on with an access or a call. -/
def opensAccess : Token → Bool
  | .symbol .dot | .symbol .leftBracket | .symbol .leftParen => true
  | _ => false

end Parse

open Parse

/-- The parser takes the phrase from the front of the first list and leaves the second one. -/
inductive Reads : Phrase → List Lexeme → List Lexeme → Prop
  -- Sequences of statements
  | programSemicolon {body ls rest sp} (h : Reads (.program body) ls rest) :
      Reads (.program body) (⟨.symbol .semicolon, sp⟩ :: ls) rest
  | programDry : Reads (.program []) [] []
  | programEnd {ls sp} : Reads (.program []) (⟨.endOfFile, sp⟩ :: ls) (⟨.endOfFile, sp⟩ :: ls)
  | programStatement {s body l ls mid rest} (semicolon : l.token ≠ .symbol .semicolon)
      (ending : l.token ≠ .endOfFile) (first : Reads (.statement s) (l :: ls) mid)
      (more : Reads (.program body) mid rest) : Reads (.program (s :: body)) (l :: ls) rest
  | bracedSemicolon {body close ls rest sp} (h : Reads (.braced body close) ls rest) :
      Reads (.braced body close) (⟨.symbol .semicolon, sp⟩ :: ls) rest
  | bracedClose {ls sp} : Reads (.braced [] sp) (⟨.symbol .rightBrace, sp⟩ :: ls) ls
  | bracedStatement {s body close l ls mid rest} (semicolon : l.token ≠ .symbol .semicolon)
      (brace : l.token ≠ .symbol .rightBrace) (ending : l.token ≠ .endOfFile)
      (first : Reads (.statement s) (l :: ls) mid) (more : Reads (.braced body close) mid rest) :
      Reads (.braced (s :: body) close) (l :: ls) rest
  | block {body close ls rest sp} (h : Reads (.braced body close) ls rest) :
      Reads (.block ⟨body, sp.join close⟩) (⟨.symbol .leftBrace, sp⟩ :: ls) rest
  -- Statements
  | declaration {kind ds ls rest sp} (h : Reads (.declarators ds) ls rest) :
      Reads (.statement (.declaration kind ds (declarationSpan sp ds)))
        (⟨.keyword kind.word, sp⟩ :: ls) rest
  | functionDeclaration {name f ls rest sp sp'} (free : Constant.ofSpelling? name = none)
      (h : Reads (.function sp f) ls rest) :
      Reads (.statement (.function name f))
        (⟨.keyword .functionWord, sp⟩ :: ⟨.identifier name, sp'⟩ :: ls) rest
  | conditionalStatement {c ls rest} (h : Reads (.conditional c) ls rest) :
      Reads (.statement (.conditional c)) ls rest
  | loop {e b ls mid rest sp sp₁ sp₂}
      (condition : Reads (.expression e) ls (⟨.symbol .rightParen, sp₂⟩ :: mid))
      (body : Reads (.block b) mid rest) :
      Reads (.statement (.loop e b (sp.join b.span)))
        (⟨.keyword .whileWord, sp⟩ :: ⟨.symbol .leftParen, sp₁⟩ :: ls) rest
  | blockStatement {b ls rest} (h : Reads (.block b) ls rest) :
      Reads (.statement (.block b)) ls rest
  | expressionStatement {e ls rest} (plain : opensStatement ls = false)
      (h : Reads (.expression e) ls rest) : Reads (.statement (.expr e)) ls rest
  | conditional {e b l ls mid rest sp sp₁ sp₂}
      (condition : Reads (.expression e) ls (⟨.symbol .rightParen, sp₂⟩ :: mid))
      (consequent : Reads (.block b) mid (l :: rest)) (alone : l.token ≠ .keyword .elseWord) :
      Reads (.conditional ⟨e, b, .absent, sp.join b.span⟩)
        (⟨.keyword .ifWord, sp⟩ :: ⟨.symbol .leftParen, sp₁⟩ :: ls) (l :: rest)
  | conditionalElse {e b b' l ls mid ms rest sp sp₁ sp₂ sp₃}
      (condition : Reads (.expression e) ls (⟨.symbol .rightParen, sp₂⟩ :: mid))
      (consequent : Reads (.block b) mid (⟨.keyword .elseWord, sp₃⟩ :: l :: ms))
      (plain : l.token ≠ .keyword .ifWord) (alternate : Reads (.block b') (l :: ms) rest) :
      Reads (.conditional ⟨e, b, .block b', (sp.join b.span).join b'.span⟩)
        (⟨.keyword .ifWord, sp⟩ :: ⟨.symbol .leftParen, sp₁⟩ :: ls) rest
  | conditionalElseIf {e b c ls mid ms rest sp sp₁ sp₂ sp₃ sp₄}
      (condition : Reads (.expression e) ls (⟨.symbol .rightParen, sp₂⟩ :: mid))
      (consequent : Reads (.block b) mid
        (⟨.keyword .elseWord, sp₃⟩ :: ⟨.keyword .ifWord, sp₄⟩ :: ms))
      (nested : Reads (.conditional c) (⟨.keyword .ifWord, sp₄⟩ :: ms) rest) :
      Reads (.conditional ⟨e, b, .conditional c, (sp.join b.span).join c.span⟩)
        (⟨.keyword .ifWord, sp⟩ :: ⟨.symbol .leftParen, sp₁⟩ :: ls) rest
  -- Declarations
  | declaratorsLast {d l ls rest} (h : Reads (.declarator d) ls (l :: rest))
      (last : l.token ≠ .symbol .comma) : Reads (.declarators [d]) ls (l :: rest)
  | declaratorsMore {d ds ls mid rest sp}
      (h : Reads (.declarator d) ls (⟨.symbol .comma, sp⟩ :: mid))
      (more : Reads (.declarators ds) mid rest) : Reads (.declarators (d :: ds)) ls rest
  | declaratorValue {name e ls rest sp sp'} (free : Constant.ofSpelling? name = none)
      (h : Reads (.expression e) ls rest) :
      Reads (.declarator ⟨name, e, sp.join e.span⟩)
        (⟨.identifier name, sp⟩ :: ⟨.symbol .equals, sp'⟩ :: ls) rest
  | declaratorPlain {name l ls sp} (free : Constant.ofSpelling? name = none)
      (plain : l.token ≠ .symbol .equals) :
      Reads (.declarator ⟨name, .constant .undefined sp, sp.join sp⟩)
        (⟨.identifier name, sp⟩ :: l :: ls) (l :: ls)
  -- Functions
  | function {names b ls mid rest sp sp'} (parameters : Reads (.parameterList names) ls mid)
      (distinct : firstRepeat? [] names = none) (body : Reads (.block b) mid rest) :
      Reads (.function sp ⟨names.map Prod.fst, b.body, sp.join b.span⟩)
        (⟨.symbol .leftParen, sp'⟩ :: ls) rest
  | parameterListNone {ls sp} : Reads (.parameterList []) (⟨.symbol .rightParen, sp⟩ :: ls) ls
  | parameterListSome {names ls rest} (h : Reads (.parameters names) ls rest) :
      Reads (.parameterList names) ls rest
  | parametersLast {name ls sp sp'} (free : Constant.ofSpelling? name = none) :
      Reads (.parameters [(name, sp)])
        (⟨.identifier name, sp⟩ :: ⟨.symbol .rightParen, sp'⟩ :: ls) ls
  | parametersMore {name names ls rest sp sp'} (free : Constant.ofSpelling? name = none)
      (h : Reads (.parameters names) ls rest) :
      Reads (.parameters ((name, sp) :: names))
        (⟨.identifier name, sp⟩ :: ⟨.symbol .comma, sp'⟩ :: ls) rest
  -- Expressions
  | assignment {name op e ls rest sp sp'} (h : Reads (.expression e) ls rest) :
      Reads (.expression (.assign name op e (sp.join e.span)))
        (⟨.identifier name, sp⟩ :: ⟨.symbol op.symbol, sp'⟩ :: ls) rest
  | value {e ls rest} (plain : assignment? ls = none) (h : Reads (.level .logical e) ls rest) :
      Reads (.expression e) ls rest
  | level {l left e ls mid rest} (first : Reads (.operand l left) ls mid)
      (more : Reads (.chain l left e) mid rest) : Reads (.level l e) ls rest
  | chainEnd {l left ls}
      (stop : (ls.head?.bind fun lexeme => lexeme.token.connective? l) = none) :
      Reads (.chain l left left) ls ls
  | chainOperator {l left right e ls mid rest sp} {op : Connective} (same : op.level = l)
      (h : Reads (.operand l right) ls mid)
      (more : Reads (.chain l (op.join left right) e) mid rest) :
      Reads (.chain l left e) (⟨.symbol op.symbol, sp⟩ :: ls) rest
  | sign {op e ls rest sp} (h : Reads (.unary e) ls rest) :
      Reads (.unary (.unary op e (sp.join e.span))) (⟨.symbol (UnaryOp.symbol op), sp⟩ :: ls) rest
  | accessed {e e' ls mid rest} (first : Reads (.primary e) ls mid)
      (more : Reads (.access e e') mid rest) : Reads (.unary e') ls rest
  | number {value ls sp} : Reads (.primary (.number value sp)) (⟨.number value, sp⟩ :: ls) ls
  | string {value ls sp} : Reads (.primary (.string value sp)) (⟨.string value, sp⟩ :: ls) ls
  | constant {name c ls sp} (h : Constant.ofSpelling? name = some c) :
      Reads (.primary (.constant c sp)) (⟨.identifier name, sp⟩ :: ls) ls
  | var {name ls sp} (h : Constant.ofSpelling? name = none) :
      Reads (.primary (.var name sp)) (⟨.identifier name, sp⟩ :: ls) ls
  | parenthesized {e ls rest sp sp'}
      (h : Reads (.expression e) ls (⟨.symbol .rightParen, sp'⟩ :: rest)) :
      Reads (.primary e) (⟨.symbol .leftParen, sp⟩ :: ls) rest
  | array {es close ls rest sp} (h : Reads (.list .element .rightBracket es close) ls rest) :
      Reads (.primary (.array es (sp.join close))) (⟨.symbol .leftBracket, sp⟩ :: ls) rest
  | object {ps close ls rest sp} (h : Reads (.properties ps close) ls rest) :
      Reads (.primary (.object ps (sp.join close))) (⟨.symbol .leftBrace, sp⟩ :: ls) rest
  | namedFunction {name f ls rest sp sp'} (free : Constant.ofSpelling? name = none)
      (h : Reads (.function sp f) ls rest) :
      Reads (.primary (.function (some name) f))
        (⟨.keyword .functionWord, sp⟩ :: ⟨.identifier name, sp'⟩ :: ls) rest
  | namelessFunction {f ls rest sp} (h : Reads (.function sp f) ls rest) :
      Reads (.primary (.function none f)) (⟨.keyword .functionWord, sp⟩ :: ls) rest
  | accessEnd {e l ls} (stop : opensAccess l.token = false) :
      Reads (.access e e) (l :: ls) (l :: ls)
  | member {e e' name ls rest sp sp'}
      (h : Reads (.access (.member e name (e.span.join sp')) e') ls rest) :
      Reads (.access e e') (⟨.symbol .dot, sp⟩ :: ⟨.identifier name, sp'⟩ :: ls) rest
  | index {e e' key ls mid rest sp sp'}
      (inner : Reads (.expression key) ls (⟨.symbol .rightBracket, sp'⟩ :: mid))
      (h : Reads (.access (.index e key (e.span.join sp')) e') mid rest) :
      Reads (.access e e') (⟨.symbol .leftBracket, sp⟩ :: ls) rest
  | call {e e' es close ls mid rest sp}
      (arguments : Reads (.list .argument .rightParen es close) ls mid)
      (h : Reads (.access (.call e es (e.span.join close)) e') mid rest) :
      Reads (.access e e') (⟨.symbol .leftParen, sp⟩ :: ls) rest
  -- Lists
  | listNone {kind closing ls sp} :
      Reads (.list kind closing [] sp) (⟨.symbol closing, sp⟩ :: ls) ls
  | listSome {kind closing es close l ls rest} (nonempty : l.token ≠ .symbol closing)
      (h : Reads (.items kind closing es close) (l :: ls) rest) :
      Reads (.list kind closing es close) (l :: ls) rest
  | itemsLast {kind closing e ls rest sp} (proper : closing ≠ .comma)
      (h : Reads (.item kind e) ls (⟨.symbol closing, sp⟩ :: rest)) :
      Reads (.items kind closing [e] sp) ls rest
  | itemsMore {kind closing e es close ls mid rest sp}
      (h : Reads (.item kind e) ls (⟨.symbol .comma, sp⟩ :: mid))
      (more : Reads (.items kind closing es close) mid rest) :
      Reads (.items kind closing (e :: es) close) ls rest
  | propertiesNone {ls sp} : Reads (.properties [] sp) (⟨.symbol .rightBrace, sp⟩ :: ls) ls
  | propertiesLast {p ls rest sp}
      (h : Reads (.property p) ls (⟨.symbol .rightBrace, sp⟩ :: rest)) :
      Reads (.properties [p] sp) ls rest
  | propertiesMore {p ps close ls mid rest sp}
      (h : Reads (.property p) ls (⟨.symbol .comma, sp⟩ :: mid))
      (more : Reads (.properties ps close) mid rest) : Reads (.properties (p :: ps) close) ls rest
  | nameProperty {key e ls rest sp sp'} (h : Reads (.expression e) ls rest) :
      Reads (.property (.keyed key e (sp.join e.span)))
        (⟨.identifier key, sp⟩ :: ⟨.symbol .colon, sp'⟩ :: ls) rest
  | stringProperty {key e ls rest sp sp'} (h : Reads (.expression e) ls rest) :
      Reads (.property (.keyed key e (sp.join e.span)))
        (⟨.string key, sp⟩ :: ⟨.symbol .colon, sp'⟩ :: ls) rest
  | shorthand {name l ls sp} (plain : l.token ≠ .symbol .colon) :
      Reads (.property (.shorthand name sp)) (⟨.identifier name, sp⟩ :: l :: ls) (l :: ls)

namespace Parse

theorem firstRepeat?_eq_none {names : List (String × Span)} {seen : List String} :
    firstRepeat? seen names = none ↔
      (names.map Prod.fst).Nodup ∧ ∀ name ∈ names.map Prod.fst, name ∉ seen := by
  induction names generalizing seen with
  | nil => simp [firstRepeat?]
  | cons x names ih =>
    obtain ⟨name, sp⟩ := x
    rw [firstRepeat?]
    by_cases hseen : name ∈ seen
    · simp [hseen]
    · rw [if_neg hseen, ih, List.map_cons, List.nodup_cons, List.forall_mem_cons]
      simp only [List.mem_cons, not_or]
      constructor
      · rintro ⟨hnodup, hfresh⟩
        exact ⟨⟨fun hmem => (hfresh name hmem).1 rfl, hnodup⟩, hseen,
          fun other hother => (hfresh other hother).2⟩
      · rintro ⟨⟨hnew, hnodup⟩, -, hfresh⟩
        exact ⟨hnodup, fun other hother => ⟨fun he => hnew (he ▸ hother), hfresh other hother⟩⟩

/-- No parameter repeats another one. -/
theorem firstRepeat?_nil_eq_none {names : List (String × Span)} :
    firstRepeat? [] names = none ↔ (names.map Prod.fst).Nodup := by
  rw [firstRepeat?_eq_none]
  simp

/-! ## Where the parser decides by what it sees -/

section Decisions

variable {ls : List Lexeme}

theorem peek_bind {α : Type} (next : Lexeme → Parse α) (l : Lexeme) :
    (peek >>= next : Parse α) (l :: ls) = next l (l :: ls) := rfl

theorem skip_bind {α : Type} (next : Unit → Parse α) (l : Lexeme) :
    (skip >>= next : Parse α) (l :: ls) = next () ls := rfl

section Single

variable {α : Type} {token : Token} {sp : Span} {mark closing : Symbol} {expectation : Expectation}
variable {name : String}

theorem expect_bind_mark (f : Lexeme → Parse α) :
    (expect mark expectation >>= f) (⟨.symbol mark, sp⟩ :: ls) = f ⟨.symbol mark, sp⟩ ls := by
  show ((if Token.symbol mark = .symbol mark then _ else _ : Parse Lexeme) _).bind _ = _
  rw [if_pos rfl]
  rfl

theorem expect_bind_of_ne (f : Lexeme → Parse α) (h : token ≠ .symbol mark) :
    (expect mark expectation >>= f) (⟨token, sp⟩ :: ls) =
      .done (.error (.expected expectation token sp)) (⟨token, sp⟩ :: ls) := by
  show ((if token = .symbol mark then _ else _ : Parse Lexeme) _).bind _ = _
  rw [if_neg h]
  rfl

theorem bindingName_bind_free (f : String × Span → Parse α)
    (free : Constant.ofSpelling? name = none) :
    (bindingName >>= f) (⟨.identifier name, sp⟩ :: ls) = f (name, sp) ls := by
  show ((if (Constant.ofSpelling? name).isSome then _ else _ : Parse (String × Span)) _).bind _ = _
  rw [free]
  rfl

theorem bindingName_bind_constant (f : String × Span → Parse α)
    (constant : (Constant.ofSpelling? name).isSome) :
    (bindingName >>= f) (⟨.identifier name, sp⟩ :: ls) =
      .done (.error (.unexpectedToken (.identifier name) sp)) ls := by
  show ((if (Constant.ofSpelling? name).isSome then _ else _ : Parse (String × Span)) _).bind _ = _
  rw [if_pos constant]
  rfl

theorem separator_bind_comma (f : Option Span → Parse α) :
    (separator closing >>= f) (⟨.symbol .comma, sp⟩ :: ls) = f none ls := rfl

theorem separator_bind_closing (f : Option Span → Parse α) (proper : closing ≠ .comma) :
    (separator closing >>= f) (⟨.symbol closing, sp⟩ :: ls) = f (some sp) ls := by
  show ((if Token.symbol closing = .symbol .comma then _ else
    if Token.symbol closing = .symbol closing then _ else _ : Parse (Option Span)) _).bind _ = _
  rw [if_neg (fun he => proper (Token.symbol.inj he)), if_pos rfl]
  rfl

theorem separator_bind_of_ne (f : Option Span → Parse α) (comma : token ≠ .symbol .comma)
    (h : token ≠ .symbol closing) :
    (separator closing >>= f) (⟨token, sp⟩ :: ls) =
      .done (.error (.expected (.commaOr closing) token sp)) ls := by
  show ((if token = .symbol .comma then _ else
    if token = .symbol closing then _ else _ : Parse (Option Span)) _).bind _ = _
  rw [if_neg comma, if_neg h]
  rfl

end Single

theorem skipSemicolons_bind {α : Type} (next : Unit → Parse α) :
    (skipSemicolons >>= next : Parse α) ls =
      next () (ls.dropWhile fun lexeme => lexeme.token = .symbol .semicolon) := rfl

theorem assignment?_of_none {name : String} {sp : Span} {l : Lexeme}
    (h : l.token.assignOp? = none) : assignment? (⟨.identifier name, sp⟩ :: l :: ls) = none := by
  rw [assignment?, h]
  rfl

theorem assignment?_of_some {name : String} {sp : Span} {l : Lexeme} {op : AssignOp}
    (h : l.token.assignOp? = some op) :
    assignment? (⟨.identifier name, sp⟩ :: l :: ls) = some (name, sp, op, ls) := by
  rw [assignment?, h]
  rfl

/-- An assignment is seen by its first two lexemes. -/
theorem exists_of_assignment? {name : String} {sp : Span} {op : AssignOp} {tail : List Lexeme}
    (h : assignment? ls = some (name, sp, op, tail)) :
    ∃ l, ls = ⟨.identifier name, sp⟩ :: l :: tail ∧ l.token.assignOp? = some op := by
  unfold assignment? at h
  split at h
  · next l _ =>
    obtain ⟨op, hop, heq⟩ := Option.map_eq_some_iff.mp h
    cases heq
    exact ⟨l, rfl, hop⟩
  · cases h

theorem assignment_of_none (h : assignment? ls = none) :
    assignment ls = reach (.level .logical) ls := by
  unfold assignment
  rw [Action.get_bind, h]
  rfl

theorem assignment_of_some {name : String} {sp : Span} {op : AssignOp} {tail : List Lexeme}
    (h : assignment? ls = some (name, sp, op, tail)) :
    assignment ls = (reach .expression >>= fun value =>
      pure (.assign name op value (sp.join value.span)) : Parse Expr) tail := by
  unfold assignment
  rw [Action.get_bind, h]
  rfl

theorem chainStep_of_none {l : Level} {left : Expr}
    (h : (ls.head?.bind fun lexeme => lexeme.token.connective? l) = none) :
    chainStep l left ls = (pure left : Parse Expr) ls := by
  unfold chainStep
  rw [Action.get_bind, h]

theorem chainStep_of_some {l : Level} {left : Expr} {op : Connective}
    (h : (ls.head?.bind fun lexeme => lexeme.token.connective? l) = some op) :
    chainStep l left ls = (skip >>= fun _ => operand l >>= fun right =>
      reach (.chain l (op.join left right)) : Parse Expr) ls := by
  unfold chainStep
  rw [Action.get_bind, h]
  rfl

theorem unary_of_none {l : Lexeme} (h : l.token.unaryOp? = none) :
    unary (l :: ls) = (primary >>= access : Parse Expr) (l :: ls) := by
  unfold unary
  rw [peek_bind, h]

theorem unary_of_some {l : Lexeme} {op : UnaryOp} (h : l.token.unaryOp? = some op) :
    unary (l :: ls) = (reach .unary >>= fun e =>
      pure (.unary op e (l.span.join e.span)) : Parse Expr) ls := by
  unfold unary
  rw [peek_bind, h]
  rfl

theorem accessStep_of_stop {e : Expr} {l : Lexeme} (stop : opensAccess l.token = false) :
    accessStep e (l :: ls) = (pure e : Parse Expr) (l :: ls) := by
  obtain ⟨token, sp⟩ := l
  cases token with
  | symbol mark =>
    cases mark with
    | dot | leftBracket | leftParen => cases stop
    | _ => rfl
  | _ => rfl

end Decisions

end Parse

end Script
