import Script.Lexeme.Basic
import Script.Routine
import Script.Syntax.Basic
import Script.Syntax.ParseError

/-!
# From lexemes to syntax trees

A recursive descent through the grammar.  From the loosest to the tightest an expression is an
assignment, then the four levels of operators between two operands, then the signs before an
operand, then accesses and calls behind one, then a literal, a name or something in brackets.
Where the grammar refers to itself the parser asks for a `Goal`, so that brackets may nest to any
depth.

The state of the parser is the list of lexemes that are left, comments excepted.  A list need not
end with the end of the file: when it runs dry, that is an error without a place.
-/

namespace Script

/-- What a list of expressions is made of. -/
inductive Item where
  /-- An argument may be any expression. -/
  | argument
  /-- An element may not be an assignment. -/
  | element
deriving DecidableEq, Repr

/-- The parts of the grammar that refer to one another. -/
inductive Goal where
  /-- The statements up to the end of the file. -/
  | program
  /-- The statements of a block behind its opening brace, with the closing one. -/
  | braced
  | statement
  | conditional
  /-- The names of a declaration. -/
  | declarators
  | expression
  /-- Operands and operators of one level and all tighter ones. -/
  | level (level : Level)
  /-- More operators of one level, behind the operand on the left. -/
  | chain (level : Level) (left : Expr)
  | unary
  /-- Accesses and calls behind an operand. -/
  | access (operand : Expr)
  /-- At least one item, and the closing mark; commas stand between the items. -/
  | items (item : Item) (closing : Symbol)
  /-- At least one parameter, and the closing mark; commas stand between the parameters. -/
  | parameters
  /-- The entries of an object literal behind its opening brace, with the closing one. -/
  | properties

namespace Goal

/-- What a goal yields.  Where a closing mark is read its span comes along. -/
abbrev Result : Goal → Type
  | program => List Stmt
  | braced => List Stmt × Span
  | statement => Stmt
  | conditional => Conditional
  | declarators => List Declarator
  | expression => Expr
  | level _ => Expr
  | chain _ _ => Expr
  | unary => Expr
  | access _ => Expr
  | items _ _ => List Expr × Span
  | parameters => List (String × Span)
  | properties => List Property × Span

end Goal

/-- Reading from the lexemes that are left. -/
abbrev Parse := Action Goal Goal.Result ParseError (List Lexeme)

namespace Parse

/-! ## Single lexemes -/

/-- The lexeme in front, which stays there. -/
def peek : Parse Lexeme := fun lexemes =>
  match lexemes with
  | [] => .done (.error (.unexpectedEnd .none)) lexemes
  | lexeme :: _ => .done (.ok lexeme) lexemes

/-- The lexeme in front, which is taken. -/
def advance : Parse Lexeme := fun lexemes =>
  match lexemes with
  | [] => .done (.error (.unexpectedEnd .none)) lexemes
  | lexeme :: rest => .done (.ok lexeme) rest

/-- Takes the lexeme in front, if there is one. -/
def skip : Parse Unit := modify List.tail

/-- Takes the lexeme in front if it is the given mark. -/
def expect (mark : Symbol) (expectation : Expectation) : Parse Lexeme := do
  let lexeme ← peek
  if lexeme.token = .symbol mark then
    skip
    return lexeme
  else
    throw (.expected expectation lexeme.token lexeme.span)

/-- Takes the given mark, which is named as it is spelled if it is missing. -/
def expectMark (mark : Symbol) : Parse Lexeme := expect mark (.mark mark)

/-- Takes all semicolons in front. -/
def skipSemicolons : Parse Unit :=
  modify fun lexemes => lexemes.dropWhile fun lexeme => lexeme.token = .symbol .semicolon

/-- Takes a name that a variable may have: none of the constants. -/
def bindingName : Parse (String × Span) := do
  let lexeme ← peek
  match lexeme.token with
  | .identifier name =>
    skip
    if (Constant.ofSpelling? name).isSome then
      throw (.unexpectedToken lexeme.token lexeme.span)
    return (name, lexeme.span)
  | token => throw (.expected .name token lexeme.span)

/-- Takes what stands behind an item of a list: a comma, or the closing mark with its span. -/
def separator (closing : Symbol) : Parse (Option Span) := do
  let lexeme ← advance
  if lexeme.token = .symbol .comma then return none
  else if lexeme.token = .symbol closing then return some lexeme.span
  else throw (.expected (.commaOr closing) lexeme.token lexeme.span)

/-! ## The goals -/

/-- Reads what a goal asks for. -/
def reach (goal : Goal) : Parse goal.Result := Action.call goal

def statement : Parse Stmt := reach .statement

def expression : Parse Expr := reach .expression

def level (level : Level) : Parse Expr := reach (.level level)

/-- An operand of the operators of a level. -/
def operand (level : Level) : Parse Expr :=
  match level.tighter? with
  | some tighter => reach (.level tighter)
  | none => reach .unary

def chain (level : Level) (left : Expr) : Parse Expr := reach (.chain level left)

def access (operand : Expr) : Parse Expr := reach (.access operand)

def item : Item → Parse Expr
  | .argument => expression
  | .element => level .logical

/-! ## Lists -/

/-- A list of expressions behind its opening mark, with the span of the closing one. -/
def list (item : Item) (closing : Symbol) : Parse (List Expr × Span) := do
  let lexeme ← peek
  if lexeme.token = .symbol closing then
    skip
    return ([], lexeme.span)
  else
    reach (.items item closing)

def items (kind : Item) (closing : Symbol) : Parse (List Expr × Span) := do
  let first ← item kind
  match ← separator closing with
  | some close => return ([first], close)
  | none =>
    let (rest, close) ← reach (.items kind closing)
    return (first :: rest, close)

/-- The parameters of a function behind the opening parenthesis. -/
def parameterList : Parse (List (String × Span)) := do
  let lexeme ← peek
  if lexeme.token = .symbol .rightParen then
    skip
    return []
  else
    reach .parameters

def parameters : Parse (List (String × Span)) := do
  let first ← bindingName
  match ← separator .rightParen with
  | some _ => return [first]
  | none =>
    let rest ← reach .parameters
    return first :: rest

/-! ## Blocks and functions -/

/-- Statements in braces. -/
def block : Parse Block := do
  let opening ← expectMark .leftBrace
  let (body, close) ← reach .braced
  return { body, span := opening.span.join close }

def braced : Parse (List Stmt × Span) := do
  skipSemicolons
  let lexeme ← peek
  match lexeme.token with
  | .symbol .rightBrace =>
    skip
    return ([], lexeme.span)
  | .endOfFile => throw (.expected (.mark .rightBrace) lexeme.token lexeme.span)
  | _ =>
    let first ← statement
    let (rest, close) ← reach .braced
    return (first :: rest, close)

/-- The first name, with its span, that repeats one of `seen` or an earlier one of the list. -/
def firstRepeat? (seen : List String) : List (String × Span) → Option (String × Span)
  | [] => none
  | (name, span) :: rest =>
    if name ∈ seen then some (name, span) else firstRepeat? (name :: seen) rest

/-- A function behind its keyword and its name. -/
def function (keyword : Lexeme) : Parse Function := do
  let _ ← expect .leftParen .parenBeforeParameters
  let parameters ← parameterList
  match firstRepeat? [] parameters with
  | some (name, span) => throw (.duplicateParameter name span)
  | none =>
    let block ← block
    return { parameters := parameters.map Prod.fst, body := block.body,
             span := keyword.span.join block.span }

/-- A function in an expression, with or without a name. -/
def functionExpression : Parse Expr := do
  let keyword ← advance
  match (← peek).token with
  | .identifier _ =>
    let (name, _) ← bindingName
    return .function (some name) (← function keyword)
  | _ => return .function none (← function keyword)

/-- A function as a statement, with its name. -/
def functionDeclaration : Parse Stmt := do
  let keyword ← advance
  let (name, _) ← bindingName
  return .function name (← function keyword)

/-! ## Expressions -/

/-- The name, the operator and what is behind them, if the lexemes in front begin an assignment. -/
def assignment? : List Lexeme → Option (String × Span × AssignOp × List Lexeme)
  | ⟨.identifier name, span⟩ :: lexeme :: rest =>
    lexeme.token.assignOp?.map fun op => (name, span, op, rest)
  | _ => none

/-- An assignment, or an expression of the loosest level. -/
def assignment : Parse Expr := do
  match assignment? (← get) with
  | some (name, span, op, rest) =>
    set rest
    let value ← expression
    return .assign name op value (span.join value.span)
  | none => level .logical

/-- The operator in front, if there is one of the level, is taken with its right operand. -/
def chainStep (level : Level) (left : Expr) : Parse Expr := do
  match (← get).head?.bind fun lexeme => lexeme.token.connective? level with
  | some connective =>
    skip
    let right ← operand level
    chain level (connective.join left right)
  | none => return left

/-- The entries of an object literal.  A comma behind the last one may stand or be missing. -/
def properties : Parse (List Property × Span) := do
  let lexeme ← advance
  match lexeme.token with
  | .symbol .rightBrace => return ([], lexeme.span)
  | .identifier name =>
    if (← peek).token = .symbol .colon then
      more (← keyed name lexeme.span)
    else
      more (.shorthand name lexeme.span)
  | .string key => more (← keyed key lexeme.span)
  | token => throw (.expected .propertyName token lexeme.span)
where
  keyed (key : String) (span : Span) : Parse Property := do
    let _ ← expect .colon .colonAfterKey
    let value ← expression
    return .keyed key value (span.join value.span)
  more (first : Property) : Parse (List Property × Span) := do
    let lexeme ← peek
    match lexeme.token with
    | .symbol .comma => skip
    | .symbol .rightBrace => pure ()
    | token => throw (.expected (.commaOr .rightBrace) token lexeme.span)
    let (rest, close) ← reach .properties
    return (first :: rest, close)

/-- A literal, a name, or something that begins with its own bracket or keyword. -/
def primary : Parse Expr := do
  let lexeme ← peek
  match lexeme.token with
  | .number value =>
    skip
    return .number value lexeme.span
  | .string value =>
    skip
    return .string value lexeme.span
  | .identifier name =>
    skip
    match Constant.ofSpelling? name with
    | some constant => return .constant constant lexeme.span
    | none => return .var name lexeme.span
  | .symbol .leftParen =>
    skip
    let inner ← expression
    let _ ← expectMark .rightParen
    return inner
  | .symbol .leftBracket =>
    skip
    let (elements, close) ← list .element .rightBracket
    return .array elements (lexeme.span.join close)
  | .symbol .leftBrace =>
    skip
    let (properties, close) ← reach .properties
    return .object properties (lexeme.span.join close)
  | .keyword .functionWord => functionExpression
  | .endOfFile => throw (.unexpectedEnd lexeme.span)
  | token => throw (.unexpectedToken token lexeme.span)

/-- A sign and its operand, or a primary expression with what is behind it. -/
def unary : Parse Expr := do
  let lexeme ← peek
  match lexeme.token.unaryOp? with
  | some op =>
    skip
    let operand ← reach .unary
    return .unary op operand (lexeme.span.join operand.span)
  | none => access (← primary)

/-- The access or call in front, if there is one, is taken. -/
def accessStep (operand : Expr) : Parse Expr := do
  match (← peek).token with
  | .symbol .dot =>
    skip
    let lexeme ← advance
    match lexeme.token with
    | .identifier name => access (.member operand name (operand.span.join lexeme.span))
    | token => throw (.expected .nameAfterDot token lexeme.span)
  | .symbol .leftBracket =>
    skip
    let key ← expression
    let close ← expectMark .rightBracket
    access (.index operand key (operand.span.join close.span))
  | .symbol .leftParen =>
    skip
    let (arguments, close) ← list .argument .rightParen
    access (.call operand arguments (operand.span.join close))
  | _ => return operand

/-! ## Statements -/

/-- The names of a declaration.  A name without a value is declared as `undefined`. -/
def declarators : Parse (List Declarator) := do
  let (name, span) ← bindingName
  let value ← initial span
  let first : Declarator := { name, value, span := span.join value.span }
  if (← peek).token = .symbol .comma then
    skip
    let rest ← reach .declarators
    return first :: rest
  else
    return [first]
where
  initial (span : Span) : Parse Expr := do
    if (← peek).token = .symbol .equals then
      skip
      expression
    else
      return .constant .undefined span

/-- The span from a keyword over all names of its declaration. -/
def declarationSpan (keyword : Span) (declarators : List Declarator) : Span :=
  declarators.foldl (fun span declarator => span.join declarator.span) keyword

def declaration (kind : DeclarationKind) : Parse Stmt := do
  let keyword ← advance
  let declarators ← reach .declarators
  return .declaration kind declarators (declarationSpan keyword.span declarators)

/-- The condition in parentheses behind a keyword. -/
def condition (word : Keyword) : Parse Expr := do
  let _ ← expect .leftParen (.parenAfter word)
  let condition ← expression
  let _ ← expectMark .rightParen
  return condition

def conditional : Parse Conditional := do
  let keyword ← advance
  let condition ← condition .ifWord
  let consequent ← block
  let span := keyword.span.join consequent.span
  if (← peek).token = .keyword .elseWord then
    skip
    if (← peek).token = .keyword .ifWord then
      let nested ← reach .conditional
      return { condition, consequent, alternate := .conditional nested,
               span := span.join nested.span }
    else
      let alternate ← block
      return { condition, consequent, alternate := .block alternate,
               span := span.join alternate.span }
  else
    return { condition, consequent, alternate := .absent, span }

def loop : Parse Stmt := do
  let keyword ← advance
  let condition ← condition .whileWord
  let body ← block
  return .loop condition body (keyword.span.join body.span)

/-- The second lexeme is a name: a `function` in front of it begins a declaration. -/
def nameIsSecond : List Lexeme → Bool
  | _ :: ⟨.identifier _, _⟩ :: _ => true
  | _ => false

/-- The kind of statement hangs on the token in front. -/
def statementBody : Parse Stmt := do
  match (← peek).token with
  | .keyword .letWord => declaration .letKind
  | .keyword .varWord => declaration .varKind
  | .keyword .functionWord =>
    if nameIsSecond (← get) then functionDeclaration else return .expr (← expression)
  | .keyword .ifWord => return .conditional (← reach .conditional)
  | .keyword .whileWord => loop
  | .symbol .leftBrace => return .block (← block)
  | _ => return .expr (← expression)

def program : Parse (List Stmt) := do
  skipSemicolons
  match (← get).head?.map Lexeme.token with
  | none | some .endOfFile => return []
  | some _ =>
    let first ← statement
    let rest ← reach .program
    return first :: rest

/-- How each goal is reached. -/
def body : (goal : Goal) → Parse goal.Result
  | .program => program
  | .braced => braced
  | .statement => statementBody
  | .conditional => conditional
  | .declarators => declarators
  | .expression => assignment
  | .level l => do chain l (← operand l)
  | .chain l left => chainStep l left
  | .unary => unary
  | .access operand => accessStep operand
  | .items kind closing => items kind closing
  | .parameters => parameters
  | .properties => properties

/-- More steps than reading so many lexemes can take. -/
def stepBound (count : Nat) : Nat := 64 * (count + 1)

/-- Reads the statements of a list of lexemes that holds no comments. -/
def run (lexemes : List Lexeme) : Except ParseError (List Stmt) :=
  match Routine.perform body (stepBound lexemes.length) .program lexemes with
  | some (outcome, _) => outcome
  | none => .error (.unexpectedEnd .none)

end Parse

/-- The comment that a lexeme is, if it is one. -/
def Comment.ofLexeme? : Lexeme → Option Comment
  | ⟨.comment text, span⟩ => some ⟨text, span⟩
  | _ => none

namespace Program

/-- The span of a program runs from the start of the source to the end of its last lexeme. -/
def spanOf (lexemes : List Lexeme) : Span :=
  ⟨.start, (lexemes.getLast?.map fun lexeme => lexeme.span.right).getD .start⟩

/-- Reads a program.  The comments are set aside wherever they stand. -/
def parse (lexemes : List Lexeme) : Except ParseError Program := do
  let body ← Parse.run (lexemes.filter fun lexeme => !lexeme.token.isComment)
  return { body, comments := lexemes.filterMap Comment.ofLexeme?, span := spanOf lexemes }

end Program

end Script
