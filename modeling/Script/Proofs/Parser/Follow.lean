import Script.Proofs.Parser.Reading

/-!
# What stands in front and behind

The parser decides by what it sees in front, and it stops by what it sees behind.  An expression of
the grammar begins with one of few tokens (`Yields.beginsExpr`), and unless it is an assignment it
does not look like one (`Yields.opensAssignment`).  A token `Bounds` an expression if no operator of
the tight levels and no access begins with it; the brackets, commas and semicolons of the grammar
bound every expression (`Token.closers`).
-/

namespace Script

/-- The levels counted from the loosest. -/
def Level.depth : Level → Nat
  | logical => 0
  | comparison => 1
  | additive => 2
  | multiplicative => 3

namespace Token

/-- An expression may begin with this token. -/
def startsExpr : Token → Bool
  | number _ | string _ | identifier _ => true
  | symbol .leftParen | symbol .leftBracket | symbol .leftBrace => true
  | symbol .minus | symbol .bang => true
  | keyword .functionWord => true
  | _ => false

/-- The tokens begin like an expression; the word `function` is not all of one. -/
def BeginsExpr (ts : List Token) : Prop :=
  ∃ t more, ts = t :: more ∧ t.startsExpr = true ∧ (t = keyword .functionWord → more ≠ [])

/-- The tokens begin an assignment. -/
def opensAssignment : List Token → Bool
  | identifier _ :: t :: _ => t.assignOp?.isSome
  | _ => false

/-- The token does not go on with an expression whose operators are of the given depth or tighter.
-/
def Bounds (t : Token) (depth : Nat) : Prop :=
  Parse.opensAccess t = false ∧ ∀ l : Level, depth ≤ l.depth → t.connective? l = none

/-- The tokens that stand behind statements. -/
def statementClosers : List Token := [symbol .semicolon, symbol .rightBrace, endOfFile]

/-- The tokens that stand behind expressions. -/
def closers : List Token :=
  symbol .rightParen :: symbol .rightBracket :: symbol .comma :: statementClosers

theorem rightParen_mem_closers : symbol .rightParen ∈ closers := by decide

theorem rightBracket_mem_closers : symbol .rightBracket ∈ closers := by decide

theorem rightBrace_mem_closers : symbol .rightBrace ∈ closers := by decide

theorem comma_mem_closers : symbol .comma ∈ closers := by decide

theorem rightBrace_mem_statementClosers : symbol .rightBrace ∈ statementClosers := by decide

theorem semicolon_mem_statementClosers : symbol .semicolon ∈ statementClosers := by decide

theorem endOfFile_mem_statementClosers : endOfFile ∈ statementClosers := by decide

variable {t : Token} {ts us : List Token}

/-- What ends a statement ends the expression at its end. -/
theorem mem_closers_of_mem_statementClosers (h : t ∈ statementClosers) : t ∈ closers :=
  List.mem_cons_of_mem _ (List.mem_cons_of_mem _ (List.mem_cons_of_mem _ h))

/-- What stands behind expressions goes on with none of them. -/
theorem bounds_of_mem_closers (h : t ∈ closers) (depth : Nat) : t.Bounds depth := by
  have hall : ∀ t ∈ closers, Parse.opensAccess t = false ∧ t.connective? .logical = none ∧
      t.connective? .comparison = none ∧ t.connective? .additive = none ∧
      t.connective? .multiplicative = none := by decide
  obtain ⟨haccess, hlogical, hcomparison, hadditive, hmultiplicative⟩ := hall t h
  refine ⟨haccess, fun l _ => ?_⟩
  cases l with
  | logical => exact hlogical
  | comparison => exact hcomparison
  | additive => exact hadditive
  | multiplicative => exact hmultiplicative

/-- Nor does it make an assignment of a name in front. -/
theorem assignOp?_of_mem_closers (h : t ∈ closers) : t.assignOp? = none := by
  have hall : ∀ t ∈ closers, t.assignOp? = none := by decide
  exact hall t h

/-- What bounds loose operators bounds the tighter ones. -/
theorem Bounds.mono {depth depth' : Nat} (h : t.Bounds depth) (hle : depth ≤ depth') :
    t.Bounds depth' :=
  ⟨h.1, fun l hl => h.2 l (Nat.le_trans hle hl)⟩

/-- An operator bounds what is tighter than itself. -/
theorem bounds_connective (op : Connective) : (symbol op.symbol).Bounds (op.level.depth + 1) := by
  refine ⟨?_, fun l hl => ?_⟩
  · rcases op with op | op <;> cases op <;> rfl
  · have hne : op.level ≠ l := by
      rintro rfl
      omega
    rw [connective?, Connective.ofSymbol?_symbol]
    simp [Option.filter, hne]

/-- An operator between two operands assigns nothing. -/
theorem assignOp?_connective (op : Connective) : (symbol op.symbol).assignOp? = none := by
  rcases op with op | op <;> cases op <;> rfl

/-- What is behind the beginning does not matter. -/
theorem BeginsExpr.append (h : BeginsExpr ts) : BeginsExpr (ts ++ us) := by
  obtain ⟨t, more, rfl, hstarts, hmore⟩ := h
  refine ⟨t, more ++ us, rfl, hstarts, fun ht => ?_⟩
  exact List.append_ne_nil_of_left_ne_nil (hmore ht) us

theorem BeginsExpr.of_startsExpr (h : t.startsExpr = true) (hword : t ≠ keyword .functionWord) :
    BeginsExpr (t :: ts) :=
  ⟨t, ts, rfl, h, fun ht => absurd ht hword⟩

end Token

open Token

variable {least : Nat} {r : Rank} {e : Expr} {ts : List Token}

/-- An expression begins like one, in every rank. -/
theorem Yields.beginsExpr (h : Yields least (.expr r e) ts) : BeginsExpr ts := by
  generalize hform : Form.expr r e = form at h
  induction h generalizing r e with
  | number | string | constant | var | parenthesized | array | object | assignment =>
    exact .of_startsExpr rfl nofun
  | namedFunction => exact ⟨_, _, rfl, rfl, fun _ => List.cons_ne_nil _ _⟩
  | namelessFunction h =>
    cases h
    exact ⟨_, _, rfl, rfl, fun _ => List.cons_ne_nil _ _⟩
  | ofPrimary _ ih | ofAccess _ ih | ofOperand _ ih | ofLogical _ ih => exact ih rfl
  | member _ ih => exact (ih rfl).append
  | index _ _ ih | call _ _ ih => exact (ih rfl).append.append
  | connective _ _ _ ih => exact (ih rfl).append
  | @sign op => cases op <;> exact .of_startsExpr rfl nofun
  | _ => cases hform

/-- A list that is not empty begins with its first item. -/
theorem Yields.items_beginsExpr {es : List Expr} (h : Yields least (.items r es) ts) :
    BeginsExpr ts := by
  cases h with
  | itemsLast h => exact h.beginsExpr
  | itemsMore h => exact h.beginsExpr.append

/-- Behind the name that an expression begins with there is no assignment, unless the expression is
one. -/
theorem Yields.opensAssignment (h : Yields least (.expr r e) ts) (hr : r ≠ .assignment) {t : Token}
    (ht : t.assignOp? = none) (more : List Token) :
    Token.opensAssignment (ts ++ t :: more) = false := by
  generalize hform : Form.expr r e = form at h
  induction h generalizing r e t more with
  | number | string | parenthesized | array | object | namedFunction | namelessFunction
  | sign => rfl
  | constant | var =>
    show t.assignOp?.isSome = false
    rw [ht]
    rfl
  | ofPrimary _ ih => exact ih (r := .primary) nofun ht more rfl
  | ofAccess _ ih => exact ih (r := .access) nofun ht more rfl
  | @ofOperand l _ _ _ ih =>
    refine ih (r := .operand l) ?_ ht more rfl
    cases l <;> nofun
  | member _ ih | index _ _ ih | call _ _ ih =>
    simp only [List.append_assoc, List.cons_append]
    exact ih (r := .access) nofun rfl _ rfl
  | connective op _ _ ih =>
    rw [List.append_assoc]
    exact ih (r := .level op.level) nofun (assignOp?_connective op) _ rfl
  | ofLogical | assignment =>
    cases hform
    exact absurd rfl hr
  | _ => cases hform

/-- A statement does not begin with what stands behind one. -/
theorem Yields.statement_front {s : Stmt} (h : Yields least (.statement s) ts) :
    ∃ t more, ts = t :: more ∧ t ∉ statementClosers := by
  cases h with
  | @declaration kind => cases kind <;> exact ⟨_, _, rfl, by decide⟩
  | functionDeclaration => exact ⟨_, _, rfl, by decide⟩
  | conditionalStatement h => cases h <;> exact ⟨_, _, rfl, by decide⟩
  | loop => exact ⟨_, _, rfl, by decide⟩
  | blockStatement h =>
    cases h
    exact ⟨_, _, rfl, by decide⟩
  | expressionStatement _ h =>
    obtain ⟨t, more, rfl, hstarts, -⟩ := h.beginsExpr
    refine ⟨t, more, rfl, fun hmem => ?_⟩
    have hall : ∀ t ∈ statementClosers, t.startsExpr = false := by decide
    rw [hall t hmem] at hstarts
    cases hstarts

/-! ## Lexemes -/

namespace Lexeme

variable {ls : List Lexeme} {t t' : Token} {ts us : List Token}

/-- The lexeme of a first token. -/
theorem map_token_eq_cons (h : ls.map token = t :: ts) :
    ∃ sp tail, ls = ⟨t, sp⟩ :: tail ∧ tail.map token = ts := by
  obtain ⟨⟨t', sp⟩, tail, rfl, rfl, htail⟩ := List.map_eq_cons_iff.mp h
  exact ⟨sp, tail, rfl, htail⟩

theorem map_token_eq_singleton (h : ls.map token = [t]) : ∃ sp, ls = [⟨t, sp⟩] := by
  obtain ⟨sp, tail, rfl, htail⟩ := map_token_eq_cons h
  obtain rfl := List.map_eq_nil_iff.mp htail
  exact ⟨sp, rfl⟩

/-- The lexeme of a token in the middle, with what is in front of it and behind it. -/
theorem map_token_eq_append_cons (h : ls.map token = ts ++ t :: us) :
    ∃ ms sp tail, ls = ms ++ ⟨t, sp⟩ :: tail ∧ ms.map token = ts ∧ tail.map token = us := by
  obtain ⟨ms, rest, rfl, hms, hrest⟩ := List.map_eq_append_iff.mp h
  obtain ⟨sp, tail, rfl, htail⟩ := map_token_eq_cons hrest
  exact ⟨ms, sp, tail, rfl, hms, htail⟩

/-- The lexemes of two marks, with what is between them. -/
theorem map_token_eq_bracketed (h : ls.map token = t :: ts ++ [t']) :
    ∃ sp ms sp', ls = ⟨t, sp⟩ :: ms ++ [⟨t', sp'⟩] ∧ ms.map token = ts := by
  obtain ⟨sp, tail, rfl, htail⟩ := map_token_eq_cons h
  obtain ⟨ms, sp', tail, rfl, hms, hnil⟩ := map_token_eq_append_cons htail
  obtain rfl := List.map_eq_nil_iff.mp hnil
  exact ⟨sp, ms, sp', rfl, hms⟩

/-- The lexemes of a keyword and a condition in parentheses, with what is behind them. -/
theorem map_token_eq_condition {word : Keyword}
    (h : ls.map token =
      keyword word :: symbol .leftParen :: ts ++ symbol .rightParen :: us) :
    ∃ sp₁ sp₂ ms sp₃ tail, ls = ⟨keyword word, sp₁⟩ :: ⟨symbol .leftParen, sp₂⟩ :: ms ++
      ⟨symbol .rightParen, sp₃⟩ :: tail ∧ ms.map token = ts ∧ tail.map token = us := by
  obtain ⟨sp₁, rest, rfl, hrest⟩ := map_token_eq_cons h
  obtain ⟨sp₂, inner, rfl, hinner⟩ := map_token_eq_cons hrest
  obtain ⟨ms, sp₃, tail, rfl, hms, htail⟩ := map_token_eq_append_cons hinner
  exact ⟨sp₁, sp₂, ms, sp₃, tail, rfl, hms, htail⟩

end Lexeme

namespace Parse

variable {ls : List Lexeme}

/-- The parser sees an assignment only where the tokens begin one. -/
theorem assignment?_eq_none (h : Token.opensAssignment (ls.map Lexeme.token) = false) :
    assignment? ls = none := by
  match ls with
  | [] => rfl
  | [⟨token, _⟩] => cases token <;> rfl
  | ⟨token, _⟩ :: second :: _ =>
    cases token with
    | identifier name =>
      have hsecond : second.token.assignOp?.isSome = false := h
      show second.token.assignOp?.map _ = none
      cases hop : second.token.assignOp? with
      | none => rfl
      | some op =>
        rw [hop] at hsecond
        cases hsecond
    | _ => rfl

/-- Lexemes that begin like an expression and open no statement open none with more behind them. -/
theorem opensStatement_eq_false (h : BeginsExpr (ls.map Lexeme.token))
    (plain : Token.opensStatement (ls.map Lexeme.token) = false) (rest : List Lexeme) :
    opensStatement (ls ++ rest) = false := by
  obtain ⟨t, more, heq, hstarts, hmore⟩ := h
  obtain ⟨⟨token, sp⟩, tail, rfl, rfl, rfl⟩ := List.map_eq_cons_iff.mp heq
  cases token with
  | symbol mark =>
    cases mark with
    | leftBrace => cases plain
    | _ => rfl
  | keyword word =>
    cases word with
    | functionWord =>
      cases tail with
      | nil => exact absurd rfl (hmore rfl)
      | cons second tail =>
        obtain ⟨token, sp'⟩ := second
        cases token with
        | identifier name => cases plain
        | _ => rfl
    | elseWord => rfl
    | _ => cases hstarts
  | _ => rfl

end Parse

end Script
