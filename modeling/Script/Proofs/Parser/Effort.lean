import Script.Proofs.Parser.Reading
import Script.Proofs.Routine

/-!
# What can be read is yielded, in few steps

The converse of the descent.  Where a phrase can be read, the parser reads it: it comes to an end
with the phrase and leaves the same lexemes (`Reads.paid`).  The steps are counted on the way, and
each lexeme that is taken pays for `64` of them.  The tighter a phrase, the more it leaves over for
the looser phrases around it: what a single token costs on its way down through all levels of
operators and up again, that token pays.  So the bound of the parser is always enough
(`Parse.run_of_reads`).

`Pays` has a rule for each way to put work together.  The rules are read from below: what is left of
the work must leave over what the part before it does not.
-/

namespace Script

open Routine

namespace Parse

variable {α β : Type} {a : α} {b : β} {ls mid rest : List Lexeme} {l : Lexeme} {sp : Span}
variable {slack enough : Int}

/-- The work yields `a` from the lexemes `ls` and leaves `rest`.  Of `64` steps for each lexeme that
it takes, at least `slack` are left over; if that is negative, so many may be missing. -/
def Pays (work : Parse α) (ls : List Lexeme) (a : α) (rest : List Lexeme) (slack : Int) : Prop :=
  ∃ k : Nat, Ends body (work ls) (.ok a) rest k ∧ k + slack + 64 * rest.length ≤ 64 * ls.length

namespace Pays

variable {work work' : Parse α}

/-- What takes nothing has nothing left over. -/
theorem pure (hle : slack ≤ 0) : Pays (Pure.pure a) ls a ls slack :=
  ⟨0, .done _ _, by omega⟩

/-- More left over is as good as less. -/
theorem weaken (h : Pays work ls a rest enough) (hle : slack ≤ enough) :
    Pays work ls a rest slack := by
  obtain ⟨k, hk, hk'⟩ := h
  exact ⟨k, hk, by omega⟩

/-- Only what the work does on these lexemes counts. -/
theorem of_eq (h : Pays work' ls a rest slack) (same : work ls = work' ls) :
    Pays work ls a rest slack := by
  obtain ⟨k, hk, hle⟩ := h
  exact ⟨k, by rw [same]; exact hk, hle⟩

/-- What is left over comes from a lexeme. -/
theorem exists_cons (h : Pays work ls a rest slack) (hpos : 0 < slack) :
    ∃ l tail, ls = l :: tail := by
  obtain ⟨k, -, hle⟩ := h
  cases ls with
  | nil =>
    rw [List.length_nil] at hle
    omega
  | cons l tail => exact ⟨l, tail, rfl⟩

/-- Two pieces of work share what is left over, less a step between them. -/
theorem bind {first : Parse β} {f : β → Parse α} (h : Pays first ls b mid enough)
    (h' : Pays (f b) mid a rest (slack + 1 - enough)) : Pays (first >>= f) ls a rest slack := by
  obtain ⟨k, hk, hle⟩ := h
  obtain ⟨k', hk', hle'⟩ := h'
  obtain ⟨n, hn, hends⟩ := Action.ends_bind hk hk'
  exact ⟨n, hends, by omega⟩

/-- A goal that is asked for last takes one step to be asked for. -/
theorem call (goal : Goal) {r : goal.Result} (h : Pays (body goal) ls r rest enough)
    (hle : slack + 1 ≤ enough) : Pays (reach goal) ls r rest slack := by
  obtain ⟨k, hk, hk'⟩ := h
  exact ⟨k + 1, .call hk, by omega⟩

/-- A goal that is asked for before more is done takes one step to be asked for, and one to hand
over what it yields. -/
theorem ask (goal : Goal) {f : goal.Result → Parse α} {r : goal.Result}
    (h : Pays (body goal) ls r mid enough) (h' : Pays (f r) mid a rest (slack + 2 - enough)) :
    Pays (reach goal >>= f) ls a rest slack := by
  obtain ⟨k, hk, hle⟩ := h
  obtain ⟨k', hk', hle'⟩ := h'
  exact ⟨k + k' + 2, .ask hk hk', by omega⟩

/-- To look is free. -/
theorem peek {f : Lexeme → Parse α} (h : Pays (f l) (l :: ls) a rest slack) :
    Pays (Parse.peek >>= f) (l :: ls) a rest slack := h

/-- Work that takes a lexeme at once has what this lexeme pays. -/
theorem take (h : Pays work ls a rest (slack - 64))
    (same : work' (l :: ls) = work ls) : Pays work' (l :: ls) a rest slack := by
  obtain ⟨k, hk, hle⟩ := h
  refine ⟨k, by rw [same]; exact hk, ?_⟩
  rw [List.length_cons]
  omega

theorem advance {f : Lexeme → Parse α} (h : Pays (f l) ls a rest (slack - 64)) :
    Pays (Parse.advance >>= f) (l :: ls) a rest slack := h.take rfl

theorem skip {f : Unit → Parse α} (h : Pays (f ()) ls a rest (slack - 64)) :
    Pays (Parse.skip >>= f) (l :: ls) a rest slack := h.take rfl

/-- A mark that is expected and found pays like any lexeme. -/
theorem expect {mark : Symbol} {expectation : Expectation} {f : Lexeme → Parse α}
    (h : Pays (f ⟨.symbol mark, sp⟩) ls a rest (slack - 64)) :
    Pays (Parse.expect mark expectation >>= f) (⟨.symbol mark, sp⟩ :: ls) a rest slack :=
  h.take (expect_bind_mark f)

/-- So does a name that is bound; it must not be that of a constant. -/
theorem bindingName {name : String} {f : String × Span → Parse α}
    (free : Constant.ofSpelling? name = none) (h : Pays (f (name, sp)) ls a rest (slack - 64)) :
    Pays (Parse.bindingName >>= f) (⟨.identifier name, sp⟩ :: ls) a rest slack :=
  h.take (bindingName_bind_free f free)

/-- Behind an item, a comma: there are more. -/
theorem comma {closing : Symbol} {f : Option Span → Parse α}
    (h : Pays (f none) ls a rest (slack - 64)) :
    Pays (separator closing >>= f) (⟨.symbol .comma, sp⟩ :: ls) a rest slack :=
  h.take (separator_bind_comma f)

/-- Behind an item, the closing mark: it was the last. -/
theorem closing {closing : Symbol} {f : Option Span → Parse α} (proper : closing ≠ .comma)
    (h : Pays (f (some sp)) ls a rest (slack - 64)) :
    Pays (separator closing >>= f) (⟨.symbol closing, sp⟩ :: ls) a rest slack :=
  h.take (separator_bind_closing f proper)

end Pays

end Parse

open Parse

/-- What an expression of a level leaves over.  An operand of the level leaves three steps more: one
to be asked for, one to hand over its result, and one for the operators behind it. -/
def Level.slack : Level → Int
  | logical => 50
  | comparison => 53
  | additive => 56
  | multiplicative => 59

namespace Phrase

/-- The parser reads the phrase from the first list and leaves the second one, and the lexemes
between them pay for it. -/
def Paid : Phrase → List Lexeme → List Lexeme → Prop
  | program body, ls, rest => Pays Parse.program ls body rest 0
  | braced body close, ls, rest => Pays Parse.braced ls (body, close) rest 10
  | block b, ls, rest => Pays Parse.block ls b rest 20
  | statement s, ls, rest => Pays statementBody ls s rest 10
  | conditional c, ls, rest => Pays Parse.conditional ls c rest 20
  | declarators ds, ls, rest => Pays Parse.declarators ls ds rest 10
  | declarator d, ls, rest => ∃ name value sp tail, d = ⟨name, value, sp.join value.span⟩ ∧
      ls = ⟨.identifier name, sp⟩ :: tail ∧ Constant.ofSpelling? name = none ∧
      Pays (declarators.initial sp) tail value rest 0
  | function sp f, ls, rest => ∀ token, Pays (Parse.function ⟨token, sp⟩) ls f rest 10
  | parameterList names, ls, rest => Pays Parse.parameterList ls names rest 10
  | parameters names, ls, rest => Pays Parse.parameters ls names rest 20
  | expression e, ls, rest => Pays assignment ls e rest 49
  | level l e, ls, rest => Pays (body (.level l)) ls e rest l.slack
  | chain l left e, ls, rest => Pays (chainStep l left) ls e rest 0
  | unary e, ls, rest => Pays Parse.unary ls e rest 62
  | primary e, ls, rest => Pays Parse.primary ls e rest 64
  | access e e', ls, rest => Pays (accessStep e) ls e' rest 0
  | list kind closing es close, ls, rest => Pays (Parse.list kind closing) ls (es, close) rest 10
  | items kind closing es close, ls, rest => Pays (Parse.items kind closing) ls (es, close) rest 20
  | properties ps close, ls, rest => Pays Parse.properties ls (ps, close) rest 10
  | property p, ls, rest => ∀ x rest', Pays (properties.more p) rest x rest' 0 →
      Pays Parse.properties ls x rest' 10

variable {ls ms mid rest : List Lexeme} {l : Lexeme} {sp sp' sp₁ sp₂ sp₃ close : Span}
  {name : String}

/-! ## Sequences of statements -/

section Sequences

variable {s : Stmt} {stmts : List Stmt}

/-- What a program does in front of a statement. -/
theorem program_eq (semicolon : l.token ≠ .symbol .semicolon) (ending : l.token ≠ .endOfFile) :
    Parse.program (l :: ls) = (reach .statement >>= fun first => reach .program >>= fun more =>
      pure (first :: more) : Parse (List Stmt)) (l :: ls) := by
  obtain ⟨token, sp⟩ := l
  unfold Parse.program
  rw [skipSemicolons_bind, Action.get_bind, List.dropWhile_cons_of_neg (by simpa using semicolon)]
  cases token with
  | endOfFile => exact absurd rfl ending
  | _ => rfl

/-- What a sequence in braces does in front of a statement. -/
theorem braced_eq (semicolon : l.token ≠ .symbol .semicolon) (brace : l.token ≠ .symbol .rightBrace)
    (ending : l.token ≠ .endOfFile) :
    Parse.braced (l :: ls) = (reach .statement >>= fun first => reach .braced >>= fun more =>
      pure (first :: more.1, more.2) : Parse (List Stmt × Span)) (l :: ls) := by
  obtain ⟨token, sp⟩ := l
  show (peek >>= _ : Parse (List Stmt × Span)) (List.dropWhile _ _) = _
  rw [List.dropWhile_cons_of_neg (by simpa using semicolon)]
  cases token with
  | endOfFile => exact absurd rfl ending
  | symbol mark =>
    cases mark with
    | rightBrace => exact absurd rfl brace
    | _ => rfl
  | _ => rfl

theorem paid_programSemicolon (h : (program stmts).Paid ls rest) :
    (program stmts).Paid (⟨.symbol .semicolon, sp⟩ :: ls) rest :=
  Pays.take (h.weaken (by decide)) rfl

/-- A program may end where there are no lexemes left, without an end of the file. -/
theorem paid_programDry : (program []).Paid [] [] :=
  (Pays.pure (by decide)).of_eq rfl

/-- The end of the file is left where it is. -/
theorem paid_programEnd : (program []).Paid (⟨.endOfFile, sp⟩ :: ls) (⟨.endOfFile, sp⟩ :: ls) :=
  (Pays.pure (by decide)).of_eq rfl

theorem paid_programStatement (semicolon : l.token ≠ .symbol .semicolon)
    (ending : l.token ≠ .endOfFile) (hs : (statement s).Paid (l :: ls) mid)
    (hmore : (program stmts).Paid mid rest) : (program (s :: stmts)).Paid (l :: ls) rest := by
  refine Pays.of_eq ?_ (program_eq semicolon ending)
  refine Pays.ask .statement hs ?_
  refine Pays.ask .program hmore ?_
  exact Pays.pure (by decide)

theorem paid_bracedSemicolon (h : (braced stmts close).Paid ls rest) :
    (braced stmts close).Paid (⟨.symbol .semicolon, sp⟩ :: ls) rest :=
  Pays.take (h.weaken (by decide)) rfl

theorem paid_bracedClose : (braced [] sp).Paid (⟨.symbol .rightBrace, sp⟩ :: ls) ls := by
  refine Pays.take ?_ (rfl : _ = (pure ([], sp) : Parse (List Stmt × Span)) ls)
  exact Pays.pure (by decide)

theorem paid_bracedStatement (semicolon : l.token ≠ .symbol .semicolon)
    (brace : l.token ≠ .symbol .rightBrace) (ending : l.token ≠ .endOfFile)
    (hs : (statement s).Paid (l :: ls) mid) (hmore : (braced stmts close).Paid mid rest) :
    (braced (s :: stmts) close).Paid (l :: ls) rest := by
  refine Pays.of_eq ?_ (braced_eq semicolon brace ending)
  refine Pays.ask .statement hs ?_
  refine Pays.ask .braced hmore ?_
  exact Pays.pure (by decide)

theorem paid_block (h : (braced stmts close).Paid ls rest) :
    (block ⟨stmts, sp.join close⟩).Paid (⟨.symbol .leftBrace, sp⟩ :: ls) rest := by
  refine Pays.expect ?_
  refine Pays.ask .braced h ?_
  exact Pays.pure (by decide)

end Sequences

/-! ## Declarations and functions -/

section Declarations

variable {d : Declarator} {ds : List Declarator} {e : Expr} {f : Function} {b : Block}
variable {names : List (String × Span)}

theorem paid_declaratorsLast (h : (declarator d).Paid ls (l :: rest))
    (last : l.token ≠ .symbol .comma) : (declarators [d]).Paid ls (l :: rest) := by
  obtain ⟨name, value, sp, tail, rfl, rfl, free, hvalue⟩ := h
  refine Pays.bindingName free ?_
  refine Pays.bind hvalue ?_
  refine Pays.peek ?_
  rw [if_neg last]
  exact Pays.pure (by decide)

theorem paid_declaratorsMore (h : (declarator d).Paid ls (⟨.symbol .comma, sp⟩ :: mid))
    (hmore : (declarators ds).Paid mid rest) : (declarators (d :: ds)).Paid ls rest := by
  obtain ⟨name, value, sp, tail, rfl, rfl, free, hvalue⟩ := h
  refine Pays.bindingName free ?_
  refine Pays.bind hvalue ?_
  refine Pays.peek ?_
  rw [if_pos rfl]
  refine Pays.skip ?_
  refine Pays.ask .declarators hmore ?_
  exact Pays.pure (by decide)

/-- The name of a declarator is taken by the list around it, which is why `Paid` speaks of what is
behind it. -/
theorem paid_declaratorValue (free : Constant.ofSpelling? name = none)
    (h : (expression e).Paid ls rest) :
    (declarator ⟨name, e, sp.join e.span⟩).Paid
      (⟨.identifier name, sp⟩ :: ⟨.symbol .equals, sp'⟩ :: ls) rest := by
  refine ⟨name, _, sp, _, rfl, rfl, free, ?_⟩
  refine Pays.peek ?_
  rw [if_pos rfl]
  refine Pays.skip ?_
  exact Pays.call .expression h (by decide)

theorem paid_declaratorPlain (free : Constant.ofSpelling? name = none)
    (plain : l.token ≠ .symbol .equals) :
    (declarator ⟨name, .constant .undefined sp, sp.join sp⟩).Paid
      (⟨.identifier name, sp⟩ :: l :: ls) (l :: ls) := by
  refine ⟨name, _, sp, _, rfl, rfl, free, ?_⟩
  refine Pays.peek ?_
  rw [if_neg plain]
  exact Pays.pure (by decide)

/-- A function does not look at the keyword in front of it, only at where that stands. -/
theorem paid_function (hparameters : (parameterList names).Paid ls mid)
    (distinct : firstRepeat? [] names = none) (hbody : (block b).Paid mid rest) :
    (function sp ⟨names.map Prod.fst, b.body, sp.join b.span⟩).Paid
      (⟨.symbol .leftParen, sp'⟩ :: ls) rest := by
  intro token
  refine Pays.expect ?_
  refine Pays.bind hparameters ?_
  rw [distinct]
  refine Pays.bind hbody ?_
  exact Pays.pure (by decide)

theorem paid_parameterListNone : (parameterList []).Paid (⟨.symbol .rightParen, sp⟩ :: ls) ls := by
  refine Pays.peek ?_
  rw [if_pos rfl]
  refine Pays.skip ?_
  exact Pays.pure (by decide)

theorem paid_parameterListSome (h : (parameters names).Paid (⟨.identifier name, sp⟩ :: ls) rest) :
    (parameterList names).Paid (⟨.identifier name, sp⟩ :: ls) rest := by
  refine Pays.peek ?_
  rw [if_neg nofun]
  exact Pays.call .parameters h (by decide)

theorem paid_parametersLast (free : Constant.ofSpelling? name = none) :
    (parameters [(name, sp)]).Paid
      (⟨.identifier name, sp⟩ :: ⟨.symbol .rightParen, sp'⟩ :: ls) ls := by
  refine Pays.bindingName free ?_
  refine Pays.closing nofun ?_
  exact Pays.pure (by decide)

theorem paid_parametersMore (free : Constant.ofSpelling? name = none)
    (h : (parameters names).Paid ls rest) :
    (parameters ((name, sp) :: names)).Paid
      (⟨.identifier name, sp⟩ :: ⟨.symbol .comma, sp'⟩ :: ls) rest := by
  refine Pays.bindingName free ?_
  refine Pays.comma ?_
  refine Pays.ask .parameters h ?_
  exact Pays.pure (by decide)

end Declarations

/-! ## Statements -/

section Statements

variable {kind : DeclarationKind} {ds : List Declarator} {e : Expr} {f : Function} {b b' : Block}
variable {c : Conditional}

/-- A statement that opens like no other kind is an expression. -/
theorem statementBody_eq (plain : opensStatement (l :: ls) = false) :
    statementBody (l :: ls) =
      (reach .expression >>= fun e => pure (.expr e) : Parse Stmt) (l :: ls) := by
  obtain ⟨token, sp⟩ := l
  cases token with
  | keyword word =>
    cases word with
    | functionWord =>
      cases ls with
      | nil => rfl
      | cons second tail =>
        obtain ⟨token, sp'⟩ := second
        cases token with
        | identifier name => cases plain
        | _ => rfl
    | elseWord => rfl
    | _ => cases plain
  | symbol mark =>
    cases mark with
    | leftBrace => cases plain
    | _ => rfl
  | _ => rfl

/-- Parentheses pay for two lexemes, so a condition has much left over. -/
theorem pays_condition {word : Keyword}
    (h : (expression e).Paid ls (⟨.symbol .rightParen, sp'⟩ :: rest)) :
    Pays (condition word) (⟨.symbol .leftParen, sp⟩ :: ls) e rest 100 := by
  refine Pays.expect ?_
  refine Pays.ask .expression h ?_
  refine Pays.expect ?_
  exact Pays.pure (by decide)

theorem paid_declaration (h : (declarators ds).Paid ls rest) :
    (statement (.declaration kind ds (declarationSpan sp ds))).Paid
      (⟨.keyword kind.word, sp⟩ :: ls) rest := by
  have hd : Pays (Parse.declaration kind) (⟨.keyword kind.word, sp⟩ :: ls)
      (.declaration kind ds (declarationSpan sp ds)) rest 10 := by
    refine Pays.advance ?_
    refine Pays.ask .declarators h ?_
    exact Pays.pure (by decide)
  cases kind with
  | letKind => exact hd.of_eq rfl
  | varKind => exact hd.of_eq rfl

theorem paid_functionDeclaration (free : Constant.ofSpelling? name = none)
    (h : (function sp f).Paid ls rest) :
    (statement (.function name f)).Paid
      (⟨.keyword .functionWord, sp⟩ :: ⟨.identifier name, sp'⟩ :: ls) rest := by
  refine Pays.of_eq ?_ (rfl : _ = Parse.functionDeclaration _)
  refine Pays.advance ?_
  refine Pays.bindingName free ?_
  refine Pays.bind (h _) ?_
  exact Pays.pure (by decide)

theorem paid_conditionalStatement (h : (conditional c).Paid (⟨.keyword .ifWord, sp⟩ :: ls) rest) :
    (statement (.conditional c)).Paid (⟨.keyword .ifWord, sp⟩ :: ls) rest := by
  refine Pays.peek ?_
  refine Pays.ask .conditional h ?_
  exact Pays.pure (by decide)

theorem paid_loop (hcondition : (expression e).Paid ls (⟨.symbol .rightParen, sp₂⟩ :: mid))
    (hbody : (block b).Paid mid rest) :
    (statement (.loop e b (sp.join b.span))).Paid
      (⟨.keyword .whileWord, sp⟩ :: ⟨.symbol .leftParen, sp₁⟩ :: ls) rest := by
  refine Pays.of_eq ?_ (rfl : _ = Parse.loop _)
  refine Pays.advance ?_
  refine Pays.bind (pays_condition hcondition) ?_
  refine Pays.bind hbody ?_
  exact Pays.pure (by decide)

theorem paid_blockStatement (h : (block b).Paid (⟨.symbol .leftBrace, sp⟩ :: ls) rest) :
    (statement (.block b)).Paid (⟨.symbol .leftBrace, sp⟩ :: ls) rest := by
  refine Pays.peek ?_
  refine Pays.bind h ?_
  exact Pays.pure (by decide)

theorem paid_expressionStatement (plain : opensStatement ls = false)
    (h : (expression e).Paid ls rest) : (statement (.expr e)).Paid ls rest := by
  obtain ⟨l, tail, rfl⟩ := h.exists_cons (by decide)
  refine Pays.of_eq ?_ (statementBody_eq plain)
  refine Pays.ask .expression h ?_
  exact Pays.pure (by decide)

/-- No `else` follows. -/
theorem paid_conditional (hcondition : (expression e).Paid ls (⟨.symbol .rightParen, sp₂⟩ :: mid))
    (hconsequent : (block b).Paid mid (l :: rest)) (alone : l.token ≠ .keyword .elseWord) :
    (conditional ⟨e, b, .absent, sp.join b.span⟩).Paid
      (⟨.keyword .ifWord, sp⟩ :: ⟨.symbol .leftParen, sp₁⟩ :: ls) (l :: rest) := by
  refine Pays.advance ?_
  refine Pays.bind (pays_condition hcondition) ?_
  refine Pays.bind hconsequent ?_
  refine Pays.peek ?_
  rw [if_neg alone]
  exact Pays.pure (by decide)

/-- Behind `else`, a block. -/
theorem paid_conditionalElse
    (hcondition : (expression e).Paid ls (⟨.symbol .rightParen, sp₂⟩ :: mid))
    (hconsequent : (block b).Paid mid (⟨.keyword .elseWord, sp₃⟩ :: l :: ms))
    (plain : l.token ≠ .keyword .ifWord) (halternate : (block b').Paid (l :: ms) rest) :
    (conditional ⟨e, b, .block b', (sp.join b.span).join b'.span⟩).Paid
      (⟨.keyword .ifWord, sp⟩ :: ⟨.symbol .leftParen, sp₁⟩ :: ls) rest := by
  refine Pays.advance ?_
  refine Pays.bind (pays_condition hcondition) ?_
  refine Pays.bind hconsequent ?_
  refine Pays.peek ?_
  rw [if_pos rfl]
  refine Pays.skip ?_
  refine Pays.peek ?_
  rw [if_neg plain]
  refine Pays.bind halternate ?_
  exact Pays.pure (by decide)

/-- Behind `else`, another conditional. -/
theorem paid_conditionalElseIf
    (hcondition : (expression e).Paid ls (⟨.symbol .rightParen, sp₂⟩ :: mid))
    (hconsequent : (block b).Paid mid
      (⟨.keyword .elseWord, sp₃⟩ :: ⟨.keyword .ifWord, sp'⟩ :: ms))
    (hnested : (conditional c).Paid (⟨.keyword .ifWord, sp'⟩ :: ms) rest) :
    (conditional ⟨e, b, .conditional c, (sp.join b.span).join c.span⟩).Paid
      (⟨.keyword .ifWord, sp⟩ :: ⟨.symbol .leftParen, sp₁⟩ :: ls) rest := by
  refine Pays.advance ?_
  refine Pays.bind (pays_condition hcondition) ?_
  refine Pays.bind hconsequent ?_
  refine Pays.peek ?_
  rw [if_pos rfl]
  refine Pays.skip ?_
  refine Pays.peek ?_
  rw [if_pos rfl]
  refine Pays.ask .conditional hnested ?_
  exact Pays.pure (by decide)

end Statements

/-! ## Expressions -/

section Expressions

variable {e e' left right key : Expr} {es : List Expr} {ps : List Property} {f : Function}
variable {lvl : Level} {c : Constant} {value : Number} {text : String}

/-- An operand of a level leaves three steps more than the level. -/
theorem ask_operand {g : Expr → Parse Expr} {enough slack : Int}
    (h : (operand lvl left).Paid ls mid) (hle : enough ≤ lvl.slack + 3)
    (h' : Pays (g left) mid e rest (slack + 2 - enough)) :
    Pays (Parse.operand lvl >>= g) ls e rest slack := by
  cases lvl with
  | logical => exact Pays.ask (.level .comparison) (h.weaken hle) h'
  | comparison => exact Pays.ask (.level .additive) (h.weaken hle) h'
  | additive => exact Pays.ask (.level .multiplicative) (h.weaken hle) h'
  | multiplicative => exact Pays.ask .unary (h.weaken hle) h'

/-- Elements are tighter than arguments, and leave a step more. -/
theorem ask_item {α : Type} {a : α} {kind : Item} {g : Expr → Parse α} {slack : Int}
    (h : (item kind e).Paid ls mid) (h' : Pays (g e) mid a rest (slack + 2 - 49)) :
    Pays (Parse.item kind >>= g) ls a rest slack := by
  cases kind with
  | argument => exact Pays.ask .expression h h'
  | element => exact Pays.ask (.level .logical) (h.weaken (by decide)) h'

/-- Two lexemes are taken at once, the name and the operator. -/
theorem paid_assignment {op : AssignOp} (h : (expression e).Paid ls rest) :
    (expression (.assign name op e (sp.join e.span))).Paid
      (⟨.identifier name, sp⟩ :: ⟨.symbol op.symbol, sp'⟩ :: ls) rest := by
  have heq : assignment (⟨.identifier name, sp⟩ :: ⟨.symbol op.symbol, sp'⟩ :: ls) =
      (skip >>= fun _ => skip >>= fun _ => reach .expression >>= fun value =>
        pure (.assign name op value (sp.join value.span)) : Parse Expr)
          (⟨.identifier name, sp⟩ :: ⟨.symbol op.symbol, sp'⟩ :: ls) := by
    cases op <;> rfl
  refine Pays.of_eq ?_ heq
  refine Pays.skip ?_
  refine Pays.skip ?_
  refine Pays.ask .expression h ?_
  exact Pays.pure (by decide)

/-- An expression that is no assignment is a logical one, and asking for it takes a step. -/
theorem paid_value (plain : assignment? ls = none) (h : (level .logical e).Paid ls rest) :
    (expression e).Paid ls rest := by
  exact (Pays.call (.level .logical) h (by decide)).of_eq (assignment_of_none plain)

/-- The first operand pays for the operators behind it to be asked for. -/
theorem paid_level (hfirst : (operand lvl left).Paid ls mid)
    (hmore : (chain lvl left e).Paid mid rest) : (level lvl e).Paid ls rest := by
  refine ask_operand hfirst (Int.le_refl _) ?_
  exact Pays.call (.chain lvl left) hmore (by omega)

/-- No operator of this level follows. -/
theorem paid_chainEnd
    (stop : (ls.head?.bind fun lexeme => lexeme.token.connective? lvl) = none) :
    (chain lvl left left).Paid ls ls := by
  exact (Pays.pure (by decide)).of_eq (chainStep_of_none stop)

/-- Each operator pays for its round. -/
theorem paid_chainOperator {op : Connective} (same : op.level = lvl)
    (h : (operand lvl right).Paid ls mid)
    (hmore : (chain lvl (op.join left right) e).Paid mid rest) :
    (chain lvl left e).Paid (⟨.symbol op.symbol, sp⟩ :: ls) rest := by
  subst same
  have heq : chainStep op.level left (⟨.symbol op.symbol, sp⟩ :: ls) =
      (skip >>= fun _ => Parse.operand op.level >>= fun right =>
        reach (.chain op.level (op.join left right)) : Parse Expr)
          (⟨.symbol op.symbol, sp⟩ :: ls) := by
    rcases op with op | op <;> cases op <;> rfl
  refine Pays.of_eq ?_ heq
  refine Pays.skip ?_
  have hslack : 0 ≤ op.level.slack := by cases op.level <;> decide
  refine ask_operand h (show 0 ≤ _ by omega) ?_
  exact Pays.call (.chain op.level (op.join left right)) hmore (by decide)

theorem paid_sign {op : UnaryOp} (h : (unary e).Paid ls rest) :
    (unary (.unary op e (sp.join e.span))).Paid (⟨.symbol op.symbol, sp⟩ :: ls) rest := by
  have heq : Parse.unary (⟨.symbol op.symbol, sp⟩ :: ls) =
      (skip >>= fun _ => reach .unary >>= fun e =>
        pure (.unary op e (sp.join e.span)) : Parse Expr) (⟨.symbol op.symbol, sp⟩ :: ls) := by
    cases op <;> rfl
  refine Pays.of_eq ?_ heq
  refine Pays.skip ?_
  refine Pays.ask .unary h ?_
  exact Pays.pure (by decide)

/-- Whatever is no sign begins a primary expression. -/
theorem paid_accessed (plain : l.token.unaryOp? = none) (hfirst : (primary e).Paid (l :: ls) mid)
    (hmore : (access e e').Paid mid rest) : (unary e').Paid (l :: ls) rest := by
  refine Pays.peek ?_
  rw [plain]
  refine Pays.bind hfirst ?_
  exact Pays.call (.access e) hmore (by decide)

theorem paid_number : (primary (.number value sp)).Paid (⟨.number value, sp⟩ :: ls) ls := by
  refine Pays.peek ?_
  refine Pays.skip ?_
  exact Pays.pure (by decide)

theorem paid_string : (primary (.string text sp)).Paid (⟨.string text, sp⟩ :: ls) ls := by
  refine Pays.peek ?_
  refine Pays.skip ?_
  exact Pays.pure (by decide)

theorem paid_constant (h : Constant.ofSpelling? name = some c) :
    (primary (.constant c sp)).Paid (⟨.identifier name, sp⟩ :: ls) ls := by
  refine Pays.peek ?_
  refine Pays.skip ?_
  rw [h]
  exact Pays.pure (by decide)

theorem paid_var (h : Constant.ofSpelling? name = none) :
    (primary (.var name sp)).Paid (⟨.identifier name, sp⟩ :: ls) ls := by
  refine Pays.peek ?_
  refine Pays.skip ?_
  rw [h]
  exact Pays.pure (by decide)

theorem paid_parenthesized (h : (expression e).Paid ls (⟨.symbol .rightParen, sp'⟩ :: rest)) :
    (primary e).Paid (⟨.symbol .leftParen, sp⟩ :: ls) rest := by
  refine Pays.peek ?_
  refine Pays.skip ?_
  refine Pays.ask .expression h ?_
  refine Pays.expect ?_
  exact Pays.pure (by decide)

theorem paid_array (h : (list .element .rightBracket es close).Paid ls rest) :
    (primary (.array es (sp.join close))).Paid (⟨.symbol .leftBracket, sp⟩ :: ls) rest := by
  refine Pays.peek ?_
  refine Pays.skip ?_
  refine Pays.bind h ?_
  exact Pays.pure (by decide)

theorem paid_object (h : (properties ps close).Paid ls rest) :
    (primary (.object ps (sp.join close))).Paid (⟨.symbol .leftBrace, sp⟩ :: ls) rest := by
  refine Pays.peek ?_
  refine Pays.skip ?_
  refine Pays.ask .properties h ?_
  exact Pays.pure (by decide)

theorem paid_namedFunction (free : Constant.ofSpelling? name = none)
    (h : (function sp f).Paid ls rest) :
    (primary (.function (some name) f)).Paid
      (⟨.keyword .functionWord, sp⟩ :: ⟨.identifier name, sp'⟩ :: ls) rest := by
  refine Pays.peek ?_
  refine Pays.advance ?_
  refine Pays.peek ?_
  refine Pays.bindingName free ?_
  refine Pays.bind (h _) ?_
  exact Pays.pure (by decide)

theorem paid_namelessFunction (h : (function sp f).Paid (⟨.symbol .leftParen, sp'⟩ :: ls) rest) :
    (primary (.function none f)).Paid
      (⟨.keyword .functionWord, sp⟩ :: ⟨.symbol .leftParen, sp'⟩ :: ls) rest := by
  refine Pays.peek ?_
  refine Pays.advance ?_
  refine Pays.peek ?_
  refine Pays.bind (h _) ?_
  exact Pays.pure (by decide)

/-- Nothing that goes on with an access follows. -/
theorem paid_accessEnd (stop : opensAccess l.token = false) :
    (access e e).Paid (l :: ls) (l :: ls) :=
  (Pays.pure (by decide)).of_eq (accessStep_of_stop stop)

theorem paid_member (h : (access (.member e name (e.span.join sp')) e').Paid ls rest) :
    (access e e').Paid (⟨.symbol .dot, sp⟩ :: ⟨.identifier name, sp'⟩ :: ls) rest := by
  refine Pays.peek ?_
  refine Pays.skip ?_
  refine Pays.advance ?_
  exact Pays.call (.access _) h (by decide)

theorem paid_index (hkey : (expression key).Paid ls (⟨.symbol .rightBracket, sp'⟩ :: mid))
    (h : (access (.index e key (e.span.join sp')) e').Paid mid rest) :
    (access e e').Paid (⟨.symbol .leftBracket, sp⟩ :: ls) rest := by
  refine Pays.peek ?_
  refine Pays.skip ?_
  refine Pays.ask .expression hkey ?_
  refine Pays.expect ?_
  exact Pays.call (.access _) h (by decide)

theorem paid_call (harguments : (list .argument .rightParen es close).Paid ls mid)
    (h : (access (.call e es (e.span.join close)) e').Paid mid rest) :
    (access e e').Paid (⟨.symbol .leftParen, sp⟩ :: ls) rest := by
  refine Pays.peek ?_
  refine Pays.skip ?_
  refine Pays.bind harguments ?_
  exact Pays.call (.access _) h (by decide)

end Expressions

/-! ## Lists -/

section Lists

variable {kind : Item} {closing : Symbol} {e : Expr} {es : List Expr} {p : Property}
variable {ps : List Property} {key : String}

theorem paid_listNone : (list kind closing [] sp).Paid (⟨.symbol closing, sp⟩ :: ls) ls := by
  refine Pays.peek ?_
  rw [if_pos rfl]
  refine Pays.skip ?_
  exact Pays.pure (by decide)

theorem paid_listSome (nonempty : l.token ≠ .symbol closing)
    (h : (items kind closing es close).Paid (l :: ls) rest) :
    (list kind closing es close).Paid (l :: ls) rest := by
  refine Pays.peek ?_
  rw [if_neg nonempty]
  exact Pays.call (.items kind closing) h (by decide)

theorem paid_itemsLast (proper : closing ≠ .comma)
    (h : (item kind e).Paid ls (⟨.symbol closing, sp⟩ :: rest)) :
    (items kind closing [e] sp).Paid ls rest := by
  refine ask_item h ?_
  refine Pays.closing proper ?_
  exact Pays.pure (by decide)

theorem paid_itemsMore (h : (item kind e).Paid ls (⟨.symbol .comma, sp⟩ :: mid))
    (hmore : (items kind closing es close).Paid mid rest) :
    (items kind closing (e :: es) close).Paid ls rest := by
  refine ask_item h ?_
  refine Pays.comma ?_
  refine Pays.ask (.items kind closing) hmore ?_
  exact Pays.pure (by decide)

theorem paid_propertiesNone : (properties [] sp).Paid (⟨.symbol .rightBrace, sp⟩ :: ls) ls := by
  refine Pays.advance ?_
  exact Pays.pure (by decide)

theorem paid_propertiesLast (h : (property p).Paid ls (⟨.symbol .rightBrace, sp⟩ :: rest)) :
    (properties [p] sp).Paid ls rest := by
  refine h _ _ ?_
  refine Pays.peek ?_
  refine Pays.ask .properties paid_propertiesNone ?_
  exact Pays.pure (by decide)

theorem paid_propertiesMore (h : (property p).Paid ls (⟨.symbol .comma, sp⟩ :: mid))
    (hmore : (properties ps close).Paid mid rest) : (properties (p :: ps) close).Paid ls rest := by
  refine h _ _ ?_
  refine Pays.peek ?_
  refine Pays.skip ?_
  refine Pays.ask .properties hmore ?_
  exact Pays.pure (by decide)

/-- A key with its value behind a colon. -/
theorem pays_keyed (h : (expression e).Paid ls rest) :
    Pays (properties.keyed key sp) (⟨.symbol .colon, sp'⟩ :: ls)
      (.keyed key e (sp.join e.span)) rest 100 := by
  refine Pays.expect ?_
  refine Pays.ask .expression h ?_
  exact Pays.pure (by decide)

theorem paid_nameProperty (h : (expression e).Paid ls rest) :
    (property (.keyed key e (sp.join e.span))).Paid
      (⟨.identifier key, sp⟩ :: ⟨.symbol .colon, sp'⟩ :: ls) rest := by
  intro x rest' hmore
  refine Pays.advance ?_
  refine Pays.peek ?_
  rw [if_pos rfl]
  exact Pays.bind (pays_keyed h) (hmore.weaken (by decide))

theorem paid_stringProperty (h : (expression e).Paid ls rest) :
    (property (.keyed key e (sp.join e.span))).Paid
      (⟨.string key, sp⟩ :: ⟨.symbol .colon, sp'⟩ :: ls) rest := by
  intro x rest' hmore
  refine Pays.advance ?_
  exact Pays.bind (pays_keyed h) (hmore.weaken (by decide))

theorem paid_shorthand (plain : l.token ≠ .symbol .colon) :
    (property (.shorthand name sp)).Paid (⟨.identifier name, sp⟩ :: l :: ls) (l :: ls) := by
  intro x rest' hmore
  refine Pays.advance ?_
  refine Pays.peek ?_
  rw [if_neg plain]
  exact hmore.weaken (by decide)

end Lists

end Phrase

/-! ## Whole readings -/

section Fronts

variable {ls rest : List Lexeme}

/-- The keyword that the parser has seen when it asks for a conditional. -/
theorem Reads.conditional_front {c : Conditional} (h : Reads (.conditional c) ls rest) :
    ∃ sp tail, ls = ⟨.keyword .ifWord, sp⟩ :: tail := by
  cases h <;> exact ⟨_, _, rfl⟩

/-- The brace that the parser has seen when it asks for a block as a statement. -/
theorem Reads.block_front {b : Block} (h : Reads (.block b) ls rest) :
    ∃ sp tail, ls = ⟨.symbol .leftBrace, sp⟩ :: tail := by
  cases h
  exact ⟨_, _, rfl⟩

/-- A function without a name goes on with its parameters. -/
theorem Reads.function_front {sp : Span} {f : Function} (h : Reads (.function sp f) ls rest) :
    ∃ sp' tail, ls = ⟨.symbol .leftParen, sp'⟩ :: tail := by
  cases h
  exact ⟨_, _, rfl⟩

/-- A list of parameters that is not empty begins with a name. -/
theorem Reads.parameters_front {names : List (String × Span)}
    (h : Reads (.parameters names) ls rest) :
    ∃ name sp tail, ls = ⟨.identifier name, sp⟩ :: tail := by
  cases h <;> exact ⟨_, _, _, rfl⟩

/-- No sign begins a primary expression. -/
theorem Reads.primary_front {e : Expr} (h : Reads (.primary e) ls rest) :
    ∃ l tail, ls = l :: tail ∧ l.token.unaryOp? = none := by
  cases h <;> exact ⟨_, _, rfl, rfl⟩

end Fronts

open Phrase in
/-- What can be read is read, and the lexemes that are taken pay for it. -/
theorem Reads.paid {phrase : Phrase} {ls rest : List Lexeme} (h : Reads phrase ls rest) :
    phrase.Paid ls rest := by
  induction h with
  | programSemicolon _ ih => exact paid_programSemicolon ih
  | programDry => exact paid_programDry
  | programEnd => exact paid_programEnd
  | programStatement semicolon ending _ _ ih₁ ih₂ =>
    exact paid_programStatement semicolon ending ih₁ ih₂
  | bracedSemicolon _ ih => exact paid_bracedSemicolon ih
  | bracedClose => exact paid_bracedClose
  | bracedStatement semicolon brace ending _ _ ih₁ ih₂ =>
    exact paid_bracedStatement semicolon brace ending ih₁ ih₂
  | block _ ih => exact paid_block ih
  | declaration _ ih => exact paid_declaration ih
  | functionDeclaration free _ ih => exact paid_functionDeclaration free ih
  | conditionalStatement h ih =>
    obtain ⟨sp, tail, rfl⟩ := h.conditional_front
    exact paid_conditionalStatement ih
  | loop _ _ ih₁ ih₂ => exact paid_loop ih₁ ih₂
  | blockStatement h ih =>
    obtain ⟨sp, tail, rfl⟩ := h.block_front
    exact paid_blockStatement ih
  | expressionStatement plain _ ih => exact paid_expressionStatement plain ih
  | conditional _ _ alone ih₁ ih₂ => exact paid_conditional ih₁ ih₂ alone
  | conditionalElse _ _ plain _ ih₁ ih₂ ih₃ => exact paid_conditionalElse ih₁ ih₂ plain ih₃
  | conditionalElseIf _ _ _ ih₁ ih₂ ih₃ => exact paid_conditionalElseIf ih₁ ih₂ ih₃
  | declaratorsLast _ last ih => exact paid_declaratorsLast ih last
  | declaratorsMore _ _ ih₁ ih₂ => exact paid_declaratorsMore ih₁ ih₂
  | declaratorValue free _ ih => exact paid_declaratorValue free ih
  | declaratorPlain free plain => exact paid_declaratorPlain free plain
  | function _ distinct _ ih₁ ih₂ => exact paid_function ih₁ distinct ih₂
  | parameterListNone => exact paid_parameterListNone
  | parameterListSome h ih =>
    obtain ⟨name, sp, tail, rfl⟩ := h.parameters_front
    exact paid_parameterListSome ih
  | parametersLast free => exact paid_parametersLast free
  | parametersMore free _ ih => exact paid_parametersMore free ih
  | assignment _ ih => exact paid_assignment ih
  | value plain _ ih => exact paid_value plain ih
  | level _ _ ih₁ ih₂ => exact paid_level ih₁ ih₂
  | chainEnd stop => exact paid_chainEnd stop
  | chainOperator same _ _ ih₁ ih₂ => exact paid_chainOperator same ih₁ ih₂
  | sign _ ih => exact paid_sign ih
  | accessed h _ ih₁ ih₂ =>
    obtain ⟨l, tail, rfl, plain⟩ := h.primary_front
    exact paid_accessed plain ih₁ ih₂
  | number => exact paid_number
  | string => exact paid_string
  | constant h => exact paid_constant h
  | var h => exact paid_var h
  | parenthesized _ ih => exact paid_parenthesized ih
  | array _ ih => exact paid_array ih
  | object _ ih => exact paid_object ih
  | namedFunction free _ ih => exact paid_namedFunction free ih
  | namelessFunction h ih =>
    obtain ⟨sp, tail, rfl⟩ := h.function_front
    exact paid_namelessFunction ih
  | accessEnd stop => exact paid_accessEnd stop
  | member _ ih => exact paid_member ih
  | index _ _ ih₁ ih₂ => exact paid_index ih₁ ih₂
  | call _ _ ih₁ ih₂ => exact paid_call ih₁ ih₂
  | listNone => exact paid_listNone
  | listSome nonempty _ ih => exact paid_listSome nonempty ih
  | itemsLast proper _ ih => exact paid_itemsLast proper ih
  | itemsMore _ _ ih₁ ih₂ => exact paid_itemsMore ih₁ ih₂
  | propertiesNone => exact paid_propertiesNone
  | propertiesLast _ ih => exact paid_propertiesLast ih
  | propertiesMore _ _ ih₁ ih₂ => exact paid_propertiesMore ih₁ ih₂
  | nameProperty _ ih => exact paid_nameProperty ih
  | stringProperty _ ih => exact paid_stringProperty ih
  | shorthand plain => exact paid_shorthand plain

/-- **The parser yields what can be read.**  The bound on its steps never gets in the way. -/
theorem Parse.run_of_reads {stmts : List Stmt} {ls rest : List Lexeme}
    (h : Reads (.program stmts) ls rest) : Parse.run ls = .ok stmts := by
  obtain ⟨k, hk, hle⟩ := h.paid
  have henough : k + 2 ≤ stepBound ls.length := by
    rw [stepBound]
    omega
  have hrun : Routine.perform body (stepBound ls.length) .program ls = some (.ok stmts, rest) :=
    Ends.perform hk henough
  unfold Parse.run
  simp only [hrun]

end Script
