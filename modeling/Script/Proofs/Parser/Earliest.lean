import Script.Proofs.Parser.Follow
import Script.Proofs.Parser.Viable
import Script.Proofs.Sources

/-!
# Errors stand at the earliest place

If the parser fails at a lexeme, then no program begins with the lexemes up to that one, and some
program begins with those before it: the error cannot be reported earlier, and it is reported as
soon as it can be.

Each goal has a filler, the shortest thing that can be read for it, and tokens that may follow it.
The descent is followed function by function, and the induction on the length of the list comes
last, as for `Parse.settles`.
-/

namespace Script

open Routine Parse Stub

namespace Goal

/-- What completes a goal of which nothing has been read. -/
def filler : Goal → List Stub
  | program | chain _ _ | access _ => []
  | braced | properties => [.mark .rightBrace]
  | statement | declarators | expression | level _ | unary => [.name]
  | conditional => .word .ifWord :: .mark .leftParen :: .name :: .mark .rightParen :: emptyBlock
  | items _ closing => [.name, .mark closing]
  | parameters => [.name, .mark .rightParen]

/-- The tokens that end a goal without being part of it.  What ends with a closing mark of its own
may be followed by anything. -/
def follow : Goal → Token → Prop
  | program, t => t = .endOfFile
  | statement, t | conditional, t | declarators, t => t ∈ Token.statementClosers
  | expression, t | level _, t | chain _ _, t | unary, t | access _, t => t ∈ Token.closers
  | braced, _ | items _ _, _ | parameters, _ | properties, _ => True

/-- Lists of expressions are asked for in parentheses and in brackets only. -/
def Bracketed : Goal → Prop
  | items _ closing => closing = .rightParen ∨ closing = .rightBracket
  | _ => True

/-- The goal fails at the first place where it cannot be reached any more, if it fails. -/
def Discerns (goal : Goal) (ls : List Lexeme) : Prop :=
  Parse.Discerns (body goal) goal.filler goal.follow ls

end Goal

namespace Parse

variable {α : Type} {work : Parse α} {ls rest : List Lexeme} {l : Lexeme} {n : Nat}
variable {follow : Token → Prop} {e : Expr}

/-! ## Fillers are read -/

theorem closing_mem_closers {closing : Symbol}
    (h : closing = .rightParen ∨ closing = .rightBracket) : .symbol closing ∈ Token.closers := by
  rcases h with rfl | rfl
  · exact Token.rightParen_mem_closers
  · exact Token.rightBracket_mem_closers

theorem closing_ne_comma {closing : Symbol} (h : closing = .rightParen ∨ closing = .rightBracket) :
    closing ≠ .comma := by
  rcases h with rfl | rfl <;> nofun

/-- An operand is an expression of every level, in front of what closes expressions. -/
theorem reads_level_of_unary (h : Reads (.unary e) ls (l :: rest)) (hl : l.token ∈ Token.closers)
    (level : Level) : Reads (.level level e) ls (l :: rest) := by
  have hchain : ∀ level, Reads (.chain level e e) (l :: rest) (l :: rest) := fun level =>
    .chainEnd ((Token.bounds_of_mem_closers hl 0).2 level (Nat.zero_le _))
  have hmultiplicative : Reads (.level .multiplicative e) ls (l :: rest) := .level h (hchain _)
  have hadditive : Reads (.level .additive e) ls (l :: rest) := .level hmultiplicative (hchain _)
  have hcomparison : Reads (.level .comparison e) ls (l :: rest) := .level hadditive (hchain _)
  cases level with
  | multiplicative => exact hmultiplicative
  | additive => exact hadditive
  | comparison => exact hcomparison
  | logical => exact .level hcomparison (hchain _)

/-- A name is an expression of every kind, in front of what closes expressions. -/
theorem exists_reads_identifier (name : String) (sp : Span) (hl : l.token ∈ Token.closers) :
    ∃ e, Reads (.unary e) (⟨.identifier name, sp⟩ :: l :: rest) (l :: rest) ∧
      (∀ level, Reads (.level level e) (⟨.identifier name, sp⟩ :: l :: rest) (l :: rest)) ∧
      Reads (.expression e) (⟨.identifier name, sp⟩ :: l :: rest) (l :: rest) := by
  obtain ⟨e, he⟩ : ∃ e, Reads (.primary e) (⟨.identifier name, sp⟩ :: l :: rest) (l :: rest) := by
    cases hname : Constant.ofSpelling? name with
    | none => exact ⟨_, .var hname⟩
    | some c => exact ⟨_, .constant hname⟩
  have hunary : Reads (.unary e) (⟨.identifier name, sp⟩ :: l :: rest) (l :: rest) :=
    .accessed he (.accessEnd (Token.bounds_of_mem_closers hl 0).1)
  have hlevel := reads_level_of_unary hunary hl
  exact ⟨e, hunary, hlevel,
    .value (assignment?_of_none (Token.assignOp?_of_mem_closers hl)) (hlevel .logical)⟩

theorem exists_reads_filler (goal : Goal) (hgoal : goal.Bracketed) (hl : goal.follow l.token) :
    ∃ r, Reads (.ofGoal goal r) (lexemes goal.filler ++ l :: rest) (l :: rest) := by
  -- The name of a filler, in front of what closes it.
  have hname : ∀ {m : Lexeme} {rest : List Lexeme}, m.token ∈ Token.closers →
      ∃ e, Reads (.unary e) (lexeme .name :: m :: rest) (m :: rest) ∧
        (∀ level, Reads (.level level e) (lexeme .name :: m :: rest) (m :: rest)) ∧
        Reads (.expression e) (lexeme .name :: m :: rest) (m :: rest) :=
    fun hm => exists_reads_identifier "x" .none hm
  cases goal with
  | program =>
    obtain ⟨token, sp⟩ := l
    cases hl
    exact ⟨[], .programEnd⟩
  | braced => exact ⟨([], .none), .bracedClose⟩
  | statement =>
    obtain ⟨e, -, -, hexpression⟩ := hname (Token.mem_closers_of_mem_statementClosers hl)
    exact ⟨_, .expressionStatement rfl hexpression⟩
  | conditional =>
    have hparen : (lexeme (.mark .rightParen)).token ∈ Token.closers :=
      Token.rightParen_mem_closers
    obtain ⟨e, -, -, hexpression⟩ := hname hparen
    exact ⟨_, .conditional hexpression (.block .bracedClose) (ne_of_mem_of_not_mem hl (by decide))⟩
  | declarators =>
    exact ⟨_, .declaratorsLast (.declaratorPlain rfl (ne_of_mem_of_not_mem hl (by decide)))
      (ne_of_mem_of_not_mem hl (by decide))⟩
  | expression =>
    obtain ⟨e, -, -, hexpression⟩ := hname hl
    exact ⟨e, hexpression⟩
  | level level =>
    obtain ⟨e, -, hlevel, -⟩ := hname hl
    exact ⟨e, hlevel level⟩
  | chain level left =>
    exact ⟨left, .chainEnd ((Token.bounds_of_mem_closers hl 0).2 level (Nat.zero_le _))⟩
  | unary =>
    obtain ⟨e, hunary, -⟩ := hname hl
    exact ⟨e, hunary⟩
  | access operand => exact ⟨operand, .accessEnd (Token.bounds_of_mem_closers hl 0).1⟩
  | items kind closing =>
    have hclosing : (lexeme (.mark closing)).token ∈ Token.closers := closing_mem_closers hgoal
    obtain ⟨e, -, hlevel, hexpression⟩ := hname hclosing
    refine ⟨([e], .none), .itemsLast (closing_ne_comma hgoal) ?_⟩
    cases kind with
    | argument => exact hexpression
    | element => exact hlevel .logical
  | parameters => exact ⟨_, .parametersLast rfl⟩
  | properties => exact ⟨([], .none), .propertiesNone⟩

/-- A function without a name, parameters and statements is an expression. -/
theorem exists_reads_function {sp : Span} (hl : l.token ∈ Token.closers) :
    ∃ e, Reads (.expression e)
      (⟨.keyword .functionWord, sp⟩ :: (lexemes emptyFunction ++ l :: rest)) (l :: rest) := by
  have hstop : ∀ e, Reads (.access e e) (l :: rest) (l :: rest) := fun e =>
    .accessEnd (Token.bounds_of_mem_closers hl 0).1
  exact ⟨_, .value rfl (reads_level_of_unary (.accessed (.namelessFunction
    (.function .parameterListNone rfl (.block .bracedClose))) (hstop _)) hl .logical)⟩

/-- A goal that can be read is reached. -/
theorem comes_of_reads (goal : Goal) {r : goal.Result} (h : Reads (.ofGoal goal r) ls rest) :
    Comes (body goal) ls (.ok r) rest := by
  cases goal <;> exact .of_pays h.paid

theorem completes (goal : Goal) (hgoal : goal.Bracketed) :
    Completes (body goal) goal.filler goal.follow := by
  rintro rest ⟨l, tail, rfl, hl⟩
  obtain ⟨r, hreads⟩ := exists_reads_filler goal hgoal hl
  exact .inl ⟨r, comes_of_reads goal hreads⟩

/-! ## Function by function -/

/-- All goals fail at the earliest place on lists with fewer than `n` lexemes. -/
def DiscernsBelow (n : Nat) : Prop :=
  ∀ (goal : Goal) (ls : List Lexeme), ls.length < n → goal.Ready ls → goal.Bracketed →
    goal.Discerns ls

theorem completes_block : Completes block emptyBlock follow :=
  .of_pays fun _ => (Reads.block Reads.bracedClose).paid

theorem completes_list {kind : Item} {closing : Symbol} :
    Completes (list kind closing) [.mark closing] follow :=
  .of_pays fun _ => Reads.listNone.paid

theorem completes_parameterList : Completes parameterList [.mark .rightParen] follow :=
  .of_pays fun _ => Reads.parameterListNone.paid

theorem completes_function {keyword : Lexeme} :
    Completes (function keyword) emptyFunction follow :=
  .of_pays fun _ =>
    (Reads.function Reads.parameterListNone rfl (.block .bracedClose)).paid keyword.token

theorem completes_primary : Completes primary [.name] follow :=
  .of_pays fun _ => (Reads.var rfl).paid

theorem completes_keyed {key : String} {sp : Span} :
    Completes (properties.keyed key sp) [.mark .colon, .name] (· ∈ Token.closers) :=
  .expect (completes .expression trivial).reach.map

theorem completes_more {first : Property} :
    Completes (properties.more first) [.mark .rightBrace] (fun _ => True) := by
  have hrest := (completes .properties trivial).reach.map (g := fun x => (first :: x.1, x.2))
  exact hrest.of_head fun _ => rfl

theorem completes_condition {word : Keyword} : Completes (condition word)
    [.mark .leftParen, .name, .mark .rightParen] follow := by
  refine .expect ((completes .expression trivial).reach.bind (fun e => .expect .pure) ?_)
  exact fun _ _ => ⟨_, _, rfl, Token.rightParen_mem_closers⟩

section Functions

variable (ih : DiscernsBelow n)
include ih

/-! ### Lists, blocks and functions -/

theorem discerns_block (hn : ls.length ≤ n) :
    Discerns block emptyBlock (fun _ => True) ls := by
  refine .expect completes_block fun sp tail h => ?_
  subst h
  exact (ih .braced tail hn trivial trivial).reach.map

theorem discerns_list {kind : Item} {closing : Symbol}
    (hclosing : closing = .rightParen ∨ closing = .rightBracket) (hn : ls.length < n) :
    Discerns (list kind closing) [.mark closing] (fun _ => True) ls := by
  cases ls with
  | nil => exact .dry nofun
  | cons l tail =>
    obtain ⟨token, sp⟩ := l
    by_cases hmark : token = .symbol closing
    · subst hmark
      refine .single ([], sp) (fun ls => ?_) nofun
      show (if Token.symbol closing = .symbol closing then _ else _ : Parse _) _ = _
      rw [if_pos rfl]
      rfl
    · refine (ih (.items kind closing) _ hn trivial hclosing).reach.of_head nofun (fun ls => ?_)
        completes_list
      show (if token = .symbol closing then _ else _ : Parse _) _ = _
      rw [if_neg hmark]

theorem discerns_parameterList (hn : ls.length < n) :
    Discerns parameterList [.mark .rightParen] (fun _ => True) ls := by
  cases ls with
  | nil => exact .dry nofun
  | cons l tail =>
    obtain ⟨token, sp⟩ := l
    by_cases hmark : token = .symbol .rightParen
    · subst hmark
      exact .single [] (fun _ => rfl) nofun
    · refine (ih .parameters _ hn trivial trivial).reach.of_head nofun (fun ls => ?_)
        completes_parameterList
      show (if token = .symbol .rightParen then _ else _ : Parse _) _ = _
      rw [if_neg hmark]

theorem discerns_function {keyword : Lexeme} (hn : ls.length ≤ n) :
    Discerns (function keyword) emptyFunction (fun _ => True) ls := by
  refine .expect completes_function fun sp tail h => ?_
  subst h
  refine (discerns_parameterList ih hn).bind emptyBlock (fun names mid hmid _ => ?_)
    (fun names => ?_) fun _ _ => ⟨_, _, rfl, trivial⟩
  · cases hrepeat : firstRepeat? [] names with
    | none =>
      have hmid : mid.length ≤ n := by
        rw [List.length_cons] at hn
        omega
      exact (discerns_block ih hmid).map
    | some p => exact .repeats ⟨p.1, p.2, _, .of_done rfl⟩
  · cases hrepeat : firstRepeat? [] names with
    | none => exact completes_block.map
    | some p => exact fun _ _ => .inr ⟨p.1, p.2, _, .of_done rfl⟩

theorem discerns_items {kind : Item} {closing : Symbol} (hn : ls.length ≤ n)
    (hclosing : (Goal.items kind closing).Bracketed)
    (hexpression : Goal.expression.Discerns ls) (hlevel : (Goal.level .logical).Discerns ls) :
    (Goal.items kind closing).Discerns ls := by
  have hitem : Discerns (item kind) [.name] (· ∈ Token.closers) ls := by
    cases kind with
    | argument => exact hexpression.reach
    | element => exact hlevel.reach
  have hproper := closing_ne_comma hclosing
  show Discerns (items kind closing) [.name, .mark closing] (fun _ => True) ls
  refine hitem.bind [.mark closing] (fun first mid _ hmid => ?_)
    (fun first => .separator hproper .pure)
    fun _ _ => ⟨_, _, rfl, closing_mem_closers hclosing⟩
  refine .separator hproper (.separator hproper .pure) [.name, .mark closing]
    (fun sp tail h => ?_) fun _ _ _ => .pure
  subst h
  have htail : tail.length < n := by
    have := hmid nofun
    rw [List.length_cons] at this
    omega
  exact (ih (.items kind closing) tail htail trivial hclosing).reach.map

theorem discerns_parameters (hn : ls.length ≤ n) : Goal.parameters.Discerns ls := by
  have hproper : Symbol.rightParen ≠ .comma := nofun
  show Discerns parameters [.name, .mark .rightParen] (fun _ => True) ls
  refine .bindingName (.bindingName (.separator hproper .pure)) fun name sp tail h => ?_
  subst h
  refine .separator hproper (.separator hproper .pure) [.name, .mark .rightParen]
    (fun sp' tail' h => ?_) fun _ _ _ => .pure
  subst h
  exact (ih .parameters tail' (Nat.lt_of_succ_lt hn) trivial trivial).reach.map

theorem discerns_keyed {key : String} {sp : Span} (hn : ls.length ≤ n) :
    Discerns (properties.keyed key sp) [.mark .colon, .name] (· ∈ Token.closers) ls := by
  refine .expect completes_keyed fun sp' tail h => ?_
  subst h
  exact (ih .expression tail hn trivial trivial).reach.map

theorem discerns_more {first : Property} (hn : ls.length < n) :
    Discerns (properties.more first) [.mark .rightBrace] (fun _ => True) ls := by
  -- Behind a comma and in front of the closing brace the rest is read in the same way.
  have hrest : ∀ ls : List Lexeme, ls.length < n → Discerns
      (reach .properties >>= fun x => pure (first :: x.1, x.2) : Parse (List Property × Span))
      [.mark .rightBrace] (fun _ => True) ls :=
    fun ls hls => (ih .properties ls hls trivial trivial).reach.map
  cases ls with
  | nil => exact .dry nofun
  | cons l tail =>
    obtain ⟨token, sp⟩ := l
    cases token with
    | symbol mark =>
      cases mark with
      | comma => exact (hrest tail (Nat.lt_of_succ_lt hn)).take (fun _ => rfl) nofun
      | rightBrace => exact (hrest _ hn).of_head nofun (fun _ => rfl) completes_more
      | _ =>
        exact .failure (.expected (.commaOr .rightBrace) _ sp) (fun _ => ⟨_, rfl⟩) rfl
          completes_more
    | _ =>
      exact .failure (.expected (.commaOr .rightBrace) _ sp) (fun _ => ⟨_, rfl⟩) rfl completes_more

/-- A key with a value, and then the other entries. -/
theorem discerns_entry {key : String} {sp : Span} (hn : ls.length < n) :
    Discerns (properties.keyed key sp >>= properties.more)
      [.mark .colon, .name, .mark .rightBrace] (fun _ => True) ls := by
  refine (discerns_keyed ih (Nat.le_of_lt hn)).bind [.mark .rightBrace] (fun p mid hmid _ => ?_)
    (fun p => completes_more) fun _ _ => ⟨_, _, rfl, Token.rightBrace_mem_closers⟩
  exact discerns_more ih (Nat.lt_of_le_of_lt hmid hn)

theorem discerns_properties (hn : ls.length ≤ n) : Goal.properties.Discerns ls := by
  have hcompletes := completes .properties trivial
  show Discerns properties [.mark .rightBrace] (fun _ => True) ls
  cases ls with
  | nil => exact .dry nofun
  | cons l tail =>
    obtain ⟨token, sp⟩ := l
    cases token with
    | symbol mark =>
      cases mark with
      | rightBrace => exact .single ([], sp) (fun _ => rfl) nofun
      | _ => exact .failure (.expected .propertyName _ sp) (fun _ => ⟨_, rfl⟩) rfl hcompletes
    | identifier name =>
      -- Only a colon behind the name shows that it is a key.
      have hnamed : Discerns (fun ls => properties (⟨.identifier name, sp⟩ :: ls))
          [.mark .rightBrace] (fun _ => True) tail := by
        cases tail with
        | nil => exact .dry nofun
        | cons l tail =>
          by_cases hcolon : l.token = .symbol .colon
          · exact (discerns_entry ih hn).of_head nofun
              (fun ls => congrFun (if_pos hcolon) (l :: ls)) (completes_more.of_head fun _ => rfl)
          · exact (discerns_more ih hn).of_head nofun
              (fun ls => congrFun (if_neg hcolon) (l :: ls)) (completes_more.of_head fun _ => rfl)
      exact hnamed.take (fun _ => rfl) nofun
    | string key => exact (discerns_entry ih hn).take (fun _ => rfl) nofun
    | _ => exact .failure (.expected .propertyName _ sp) (fun _ => ⟨_, rfl⟩) rfl hcompletes

theorem discerns_functionExpression {keyword : Lexeme} (hn : ls.length ≤ n) :
    Discerns (fun ls => functionExpression (keyword :: ls)) emptyFunction (fun _ => True) ls := by
  cases ls with
  | nil => exact .dry nofun
  | cons l tail =>
    obtain ⟨token, sp⟩ := l
    cases token with
    | identifier name =>
      refine Discerns.of_head (.bindingName (.bindingName completes_function.map) ?_) nofun
        (fun _ => rfl) (completes_function.map.of_head fun _ => rfl)
      intro name sp tail h
      cases h
      exact (discerns_function ih (Nat.le_of_lt hn)).map
    | _ =>
      exact (discerns_function ih hn).map.of_head nofun (fun _ => rfl)
        (completes_function.map.of_head fun _ => rfl)

/-- An expression with its closing mark, and what is done behind it. -/
theorem discerns_enclosed {closing : Symbol} {f : Expr → Lexeme → Parse α} {filler : List Stub}
    (hclosing : .symbol closing ∈ Token.closers) (hn : ls.length < n)
    (hc : ∀ e l, Completes (f e l) filler follow)
    (h : ∀ e l mid, mid.length < n → Discerns (f e l) filler follow mid) :
    Discerns (expression >>= fun e => expectMark closing >>= f e)
      (.name :: .mark closing :: filler) follow ls := by
  refine (ih .expression ls hn trivial trivial).reach.bind (.mark closing :: filler)
    (fun e mid hmid _ => ?_) (fun e => .expect (hc e _)) fun _ _ => ⟨_, _, rfl, hclosing⟩
  refine .expect (.expect (hc e _)) fun sp tail htail => ?_
  subst htail
  rw [List.length_cons] at hmid
  exact h e _ tail (by omega)

/-! ### Expressions -/

theorem discerns_primary (hn : ls.length ≤ n) :
    Discerns primary [.name] (fun _ => True) ls := by
  cases ls with
  | nil => exact .dry nofun
  | cons l tail =>
    obtain ⟨token, sp⟩ := l
    cases token with
    | number value => exact .single (.number value sp) (fun _ => rfl) nofun
    | string value => exact .single (.string value sp) (fun _ => rfl) nofun
    | identifier name =>
      cases hname : Constant.ofSpelling? name with
      | none =>
        refine .single (.var name sp) (fun ls => ?_) nofun
        show (skip >>= fun _ => _ : Parse Expr) (_ :: ls) = _
        rw [skip_bind, hname]
        rfl
      | some constant =>
        refine .single (.constant constant sp) (fun ls => ?_) nofun
        show (skip >>= fun _ => _ : Parse Expr) (_ :: ls) = _
        rw [skip_bind, hname]
        rfl
    | symbol mark =>
      cases mark with
      | leftParen =>
        have hinner : Discerns (expression >>= fun e => expectMark .rightParen >>= fun _ =>
            pure e : Parse Expr) [.name, .mark .rightParen] (fun _ => True) tail :=
          discerns_enclosed ih Token.rightParen_mem_closers hn (fun _ _ => .pure)
            fun _ _ _ _ => .pure
        exact hinner.take (fun _ => rfl) nofun
      | leftBracket => exact (discerns_list ih (.inr rfl) hn).map.take (fun _ => rfl) nofun
      | leftBrace =>
        exact (ih .properties tail hn trivial trivial).reach.map.take (fun _ => rfl) nofun
      | _ => exact .failure (.unexpectedToken _ sp) (fun _ => ⟨_, rfl⟩) rfl completes_primary
    | keyword word =>
      cases word with
      | functionWord =>
        exact (discerns_functionExpression ih (Nat.le_of_lt hn)).take (fun _ => rfl) nofun
      | _ => exact .failure (.unexpectedToken _ sp) (fun _ => ⟨_, rfl⟩) rfl completes_primary
    | endOfFile => exact .failure (.unexpectedEnd sp) (fun _ => ⟨_, rfl⟩) rfl completes_primary
    | _ => exact .failure (.unexpectedToken _ sp) (fun _ => ⟨_, rfl⟩) rfl completes_primary

theorem discerns_member {operand : Expr} {sp : Span} (hn : ls.length ≤ n) :
    Discerns (fun ls => accessStep operand (⟨.symbol .dot, sp⟩ :: ls)) [.name]
      (· ∈ Token.closers) ls := by
  cases ls with
  | nil => exact .dry nofun
  | cons l tail =>
    obtain ⟨token, sp'⟩ := l
    cases token with
    | identifier name =>
      exact (ih (.access _) tail hn trivial trivial).reach.take (fun _ => rfl) nofun
    | _ =>
      exact .failure (.expected .nameAfterDot _ sp') (fun _ => ⟨_, rfl⟩) rfl
        ((completes (.access _) trivial).reach.take fun _ => rfl)

theorem discerns_access {operand : Expr} (hn : ls.length ≤ n) :
    (Goal.access operand).Discerns ls := by
  -- What is accessed may be accessed again.
  have hmore : ∀ e : Expr, ∀ ls : List Lexeme, ls.length < n →
      Discerns (access e) [] (· ∈ Token.closers) ls :=
    fun e ls hls => (ih (.access e) ls hls trivial trivial).reach
  have hcompletes : ∀ e : Expr, Completes (access e) [] (· ∈ Token.closers) :=
    fun e => (completes (.access e) trivial).reach
  show Discerns (accessStep operand) [] (· ∈ Token.closers) ls
  cases ls with
  | nil => exact .dry nofun
  | cons l tail =>
    cases hopens : opensAccess l.token with
    | false =>
      exact .stay operand (opensAccess · = false) (fun _ _ => accessStep_of_stop) hopens
        fun t ht => (Token.bounds_of_mem_closers ht 0).1
    | true =>
      obtain ⟨token, sp⟩ := l
      cases token with
      | symbol mark =>
        cases mark with
        | dot => exact (discerns_member ih (Nat.le_of_lt hn)).take (fun _ => rfl) nofun
        | leftBracket =>
          have hkey := discerns_enclosed ih Token.rightBracket_mem_closers hn
            (f := fun key close => access (.index operand key (operand.span.join close.span)))
            (fun _ _ => hcompletes _) fun _ _ => hmore _
          exact hkey.take (fun _ => rfl) nofun
        | leftParen =>
          have harguments : Discerns (list .argument .rightParen >>= fun x =>
              access (.call operand x.1 (operand.span.join x.2)))
              [.mark .rightParen] (· ∈ Token.closers) tail := by
            refine (discerns_list ih (.inl rfl) hn).bind [] (fun x mid hmid _ => ?_)
              (fun x => hcompletes _) fun _ h => h.imp fun _ _ => trivial
            exact hmore _ mid (Nat.lt_of_le_of_lt hmid hn)
          exact harguments.take (fun _ => rfl) nofun
        | _ => cases hopens
      | _ => cases hopens

theorem discerns_unary (hn : ls.length ≤ n) : Goal.unary.Discerns ls := by
  show Discerns unary [.name] (· ∈ Token.closers) ls
  cases ls with
  | nil => exact .dry nofun
  | cons l tail =>
    cases hsign : l.token.unaryOp? with
    | some op =>
      refine (ih .unary tail hn trivial trivial).reach.map.take (fun _ => unary_of_some hsign) ?_
      intro hend
      rw [hend] at hsign
      cases hsign
    | none =>
      have hplain : Discerns (primary >>= access) [.name] (· ∈ Token.closers) (l :: tail) := by
        refine (discerns_primary ih hn).bind [] (fun e mid _ hmid => ?_)
          (fun e => (completes (.access e) trivial).reach) fun _ h => h.imp fun _ _ => trivial
        have hmid : mid.length < n := Nat.lt_of_lt_of_le (hmid nofun) hn
        exact (ih (.access e) mid hmid trivial trivial).reach
      exact hplain.of_head nofun (fun _ => unary_of_none hsign) (completes .unary trivial)

omit ih in
theorem discerns_operand {level : Level}
    (htighter : ∀ tighter, level.tighter? = some tighter → (Goal.level tighter).Discerns ls)
    (hunary : Goal.unary.Discerns ls) :
    Discerns (operand level) [.name] (· ∈ Token.closers) ls := by
  cases level with
  | logical => exact (htighter .comparison rfl).reach
  | comparison => exact (htighter .additive rfl).reach
  | additive => exact (htighter .multiplicative rfl).reach
  | multiplicative => exact hunary.reach

theorem discerns_level {level : Level} (hn : ls.length ≤ n)
    (htighter : ∀ tighter, level.tighter? = some tighter → (Goal.level tighter).Discerns ls)
    (hunary : Goal.unary.Discerns ls) : (Goal.level level).Discerns ls := by
  show Discerns (operand level >>= chain level) [.name] (· ∈ Token.closers) ls
  refine (discerns_operand htighter hunary).bind [] (fun e mid _ hmid => ?_)
    (fun e => (completes (.chain level e) trivial).reach) fun _ => id
  have hmid : mid.length < n := Nat.lt_of_lt_of_le (hmid nofun) hn
  exact (ih (.chain level e) mid hmid trivial trivial).reach

theorem discerns_chain {level : Level} {left : Expr} (hn : ls.length ≤ n) :
    (Goal.chain level left).Discerns ls := by
  show Discerns (chainStep level left) [] (· ∈ Token.closers) ls
  cases ls with
  | nil => exact .dry nofun
  | cons l tail =>
    cases hop : l.token.connective? level with
    | none =>
      refine .stay left (fun t => t.connective? level = none) (fun l ls hl => ?_) hop fun t ht => ?_
      · exact chainStep_of_none hl
      · exact (Token.bounds_of_mem_closers ht 0).2 level (Nat.zero_le _)
    | some op =>
      have hright : Discerns (operand level >>= fun right =>
          reach (.chain level (op.join left right)) : Parse Expr) [.name] (· ∈ Token.closers)
          tail := by
        have hoperand : Discerns (operand level) [.name] (· ∈ Token.closers) tail :=
          discerns_operand (fun tighter _ => ih (.level tighter) tail hn trivial trivial)
            (ih .unary tail hn trivial trivial)
        refine hoperand.bind [] (fun e mid hmid _ => ?_)
          (fun e => (completes (.chain level _) trivial).reach) fun _ => id
        exact (ih (.chain level _) mid (Nat.lt_of_le_of_lt hmid hn) trivial trivial).reach
      refine hright.take (fun ls => chainStep_of_some hop) ?_
      intro hend
      rw [hend] at hop
      cases hop

theorem discerns_expression (hn : ls.length ≤ n) (hlevel : (Goal.level .logical).Discerns ls) :
    Goal.expression.Discerns ls := by
  show Discerns assignment [.name] (· ∈ Token.closers) ls
  rcases ls with - | ⟨⟨token, sp⟩, tail⟩
  · exact .dry nofun
  cases token with
  | identifier name =>
    rcases tail with - | ⟨m, tail⟩
    · exact .dry (List.forall_mem_singleton.mpr nofun)
    cases hop : m.token.assignOp? with
    | some op =>
      have hproper : m.token ≠ .endOfFile := by
        intro hend
        rw [hend] at hop
        cases hop
      have hvalue : Discerns (fun ls => assignment (⟨.identifier name, sp⟩ :: ls)) [.name]
          (· ∈ Token.closers) (m :: tail) :=
        (ih .expression tail (Nat.lt_of_succ_lt hn) trivial trivial).reach.map.take
          (fun _ => assignment_of_some (assignment?_of_some hop)) hproper
      exact hvalue.take (fun _ => rfl) nofun
    | none =>
      refine hlevel.reach.of_pair [] nofun
        (fun _ => assignment_of_none (assignment?_of_none hop)) (fun l ls hl => ?_) ?_ ?_
      · exact assignment_of_none (assignment?_of_none (Token.assignOp?_of_mem_closers hl))
      · have hend : (lexeme (.mark .semicolon)).token ∈ Token.closers := by decide
        obtain ⟨e, -, hreads, -⟩ := exists_reads_identifier name sp hend
        exact ⟨[_], e, _, (comes_of_reads (.level .logical) (hreads .logical)).reach⟩
      · rintro rest ⟨l, tail, rfl, hl⟩
        obtain ⟨e, -, -, hreads⟩ := exists_reads_identifier name sp hl
        exact .inl ⟨e, comes_of_reads .expression hreads⟩
  | _ => exact hlevel.reach.of_head nofun (fun _ => rfl) (completes .expression trivial)

/-! ### Statements -/

theorem discerns_initial {sp : Span} (hn : ls.length ≤ n) :
    Discerns (declarators.initial sp) [] (· ∈ Token.closers) ls := by
  refine .optional [.name] nofun (fun t ht => ne_of_mem_of_not_mem ht (by decide))
    fun sp' tail h => ?_
  subst h
  exact (ih .expression tail hn trivial trivial).reach

theorem discerns_declarators (hn : ls.length ≤ n) : Goal.declarators.Discerns ls := by
  show Discerns declarators [.name] (· ∈ Token.statementClosers) ls
  have hclosers : ∀ t ∈ Token.statementClosers, t ≠ .symbol .comma :=
    fun t ht => ne_of_mem_of_not_mem ht (by decide)
  refine .bindingName (completes .declarators trivial) fun name sp tail h => ?_
  subst h
  refine (discerns_initial ih (Nat.le_of_lt hn)).bind [] (fun value mid hmid _ => ?_)
    (fun value => .optional hclosers)
    fun _ h => h.imp fun _ => Token.mem_closers_of_mem_statementClosers
  refine .optional [.name] nofun hclosers fun sp' tail' h => ?_
  subst h
  have htail : tail.length < n := hn
  rw [List.length_cons] at hmid
  exact (ih .declarators tail' (by omega) trivial trivial).reach.map

theorem discerns_condition {word : Keyword} (hn : ls.length ≤ n) :
    Discerns (condition word) [.mark .leftParen, .name, .mark .rightParen] (fun _ => True) ls := by
  refine .expect completes_condition fun sp tail h => ?_
  subst h
  exact discerns_enclosed ih Token.rightParen_mem_closers hn (fun _ _ => .pure) fun _ _ _ _ => .pure

theorem discerns_loop {sp : Span} {tail : List Lexeme} (hn : tail.length < n) :
    Discerns loop [.name] (· ∈ Token.statementClosers) (⟨.keyword .whileWord, sp⟩ :: tail) := by
  refine .advance _ ((discerns_condition ih (Nat.le_of_lt hn)).bind emptyBlock
    (fun e mid hmid _ => ?_) (fun e => completes_block.map) fun _ _ => ⟨_, _, rfl, trivial⟩) nofun
  exact (discerns_block ih (by omega)).map.narrow fun _ _ => trivial

/-- What stands behind `else`. -/
theorem discerns_alternate {g : Conditional → Conditional} {g' : Block → Conditional}
    (hn : ls.length < n) :
    Discerns (peek >>= fun l => if l.token = .keyword .ifWord then
        reach .conditional >>= fun c => pure (g c) else block >>= fun b => pure (g' b))
      emptyBlock (· ∈ Token.statementClosers) ls := by
  cases ls with
  | nil => exact .dry nofun
  | cons l tail =>
    obtain ⟨token, sp⟩ := l
    by_cases hif : token = .keyword .ifWord
    · subst hif
      exact (ih .conditional _ hn ⟨sp, tail, rfl⟩ trivial).reach.map.of_head nofun (fun _ => rfl)
        (completes_block.map.of_head fun _ => rfl)
    · have hblock := (discerns_block ih (Nat.le_of_lt hn)).map (g := g')
      exact (hblock.narrow fun _ _ => trivial).of_head nofun
        (fun ls => congrFun (if_neg hif) (_ :: ls)) (completes_block.map.of_head fun _ => rfl)

theorem discerns_conditional (hn : ls.length ≤ n) (ready : Goal.conditional.Ready ls) :
    Goal.conditional.Discerns ls := by
  obtain ⟨sp, tail, rfl⟩ := ready
  have htail : tail.length < n := hn
  have hclosers : ∀ t ∈ Token.statementClosers, t ≠ .keyword .elseWord :=
    fun t ht => ne_of_mem_of_not_mem ht (by decide)
  refine .advance _ ((discerns_condition ih (Nat.le_of_lt htail)).bind emptyBlock
    (fun e mid hmid _ => ?_) (fun e => ?_) fun _ _ => ⟨_, _, rfl, trivial⟩) nofun
  · refine (discerns_block ih (by omega)).bind [] (fun b mid' hmid' _ => ?_)
      (fun b => .optional hclosers) fun _ h => h.imp fun _ _ => trivial
    refine .optional emptyBlock nofun hclosers fun sp' tail' h => ?_
    subst h
    rw [List.length_cons] at hmid'
    exact discerns_alternate ih (by omega)
  · have hblock : Completes block emptyBlock (fun _ => True) := completes_block
    exact hblock.bind (fun b => .optional hclosers) fun _ h => h.imp fun _ _ => trivial

/-- A name behind `function` makes it a declaration, even if it is no name that may be declared. -/
theorem discerns_functionDeclaration (name : String) (sp sp' : Span) {tail : List Lexeme}
    (hn : tail.length ≤ n) :
    Discerns (fun ls => statementBody (⟨.keyword .functionWord, sp⟩ :: ls)) (.name :: emptyFunction)
      (· ∈ Token.statementClosers) (⟨.identifier name, sp'⟩ :: tail) := by
  refine Discerns.of_head (.bindingName (.bindingName completes_function.map) ?_) nofun
    (fun _ => rfl) (completes_function.map.take fun _ => bindingName_bind_free _ rfl)
  intro name sp tail h
  cases h
  exact (discerns_function ih hn).map.narrow fun _ _ => trivial

omit ih in
/-- Without a name behind it `function` begins an expression. -/
theorem statementBody_of_nameless {sp : Span} (hl : ∀ name, l.token ≠ .identifier name) :
    statementBody (⟨.keyword .functionWord, sp⟩ :: l :: ls) =
      (reach .expression >>= fun e => pure (.expr e) : Parse Stmt)
        (⟨.keyword .functionWord, sp⟩ :: l :: ls) := by
  refine Phrase.statementBody_eq ?_
  obtain ⟨token, sp'⟩ := l
  cases token with
  | identifier name => exact absurd rfl (hl name)
  | _ => rfl

theorem discerns_functionStatement {sp : Span} {tail : List Lexeme} (hn : tail.length < n)
    (hplain : Discerns (reach .expression >>= fun e => pure (.expr e) : Parse Stmt) [.name]
      (· ∈ Token.statementClosers) (⟨.keyword .functionWord, sp⟩ :: tail)) :
    Discerns statementBody [.name] (· ∈ Token.statementClosers)
      (⟨.keyword .functionWord, sp⟩ :: tail) := by
  rcases tail with - | ⟨⟨token, sp'⟩, tail⟩
  · exact .dry (List.forall_mem_singleton.mpr nofun)
  by_cases hname : ∃ name, token = .identifier name
  · obtain ⟨name, rfl⟩ := hname
    have hdeclaration := discerns_functionDeclaration ih name sp sp'
      (Nat.le_of_lt (Nat.lt_of_succ_lt hn))
    exact hdeclaration.take (fun _ => rfl) nofun
  · refine hplain.of_pair emptyFunction nofun
      (fun ls => statementBody_of_nameless fun name he => hname ⟨name, he⟩)
      (fun m ls hm => statementBody_of_nameless fun name => ?_) ?_ ?_
    · exact ne_of_mem_of_not_mem hm (by simp [Token.statementClosers])
    · have hend : (lexeme (.mark .semicolon)).token ∈ Token.closers := by decide
      obtain ⟨e, hreads⟩ := exists_reads_function hend
      exact ⟨_, _, [_], (comes_of_reads .expression hreads).reach.bind (.of_done rfl)⟩
    · rintro rest ⟨l, tail, rfl, hl⟩
      obtain ⟨e, hreads⟩ := exists_reads_function (Token.mem_closers_of_mem_statementClosers hl)
      exact .inl ⟨_, comes_of_reads .statement (.expressionStatement rfl hreads)⟩

theorem discerns_statement (hn : ls.length ≤ n) (hexpression : Goal.expression.Discerns ls)
    (hconditional : Goal.conditional.Ready ls → Goal.conditional.Discerns ls) :
    Goal.statement.Discerns ls := by
  have hcompletes := completes .statement trivial
  show Discerns statementBody [.name] (· ∈ Token.statementClosers) ls
  cases ls with
  | nil => exact .dry nofun
  | cons l tail =>
    obtain ⟨token, sp⟩ := l
    have hplain : Discerns (reach .expression >>= fun e => pure (.expr e) : Parse Stmt) [.name]
        (· ∈ Token.statementClosers) (⟨token, sp⟩ :: tail) :=
      hexpression.reach.map.narrow fun _ => Token.mem_closers_of_mem_statementClosers
    cases token with
    | keyword word =>
      cases word with
      | letWord | varWord =>
        exact .take (ih .declarators tail hn trivial trivial).reach.map (fun _ => rfl) nofun
      | functionWord => exact discerns_functionStatement ih hn hplain
      | ifWord =>
        exact (hconditional ⟨sp, tail, rfl⟩).reach.map.of_head nofun (fun _ => rfl) hcompletes
      | whileWord => exact (discerns_loop ih hn).of_head nofun (fun _ => rfl) hcompletes
      | _ => exact hplain.of_head nofun (fun _ => rfl) hcompletes
    | symbol mark =>
      cases mark with
      | leftBrace =>
        exact ((discerns_block ih hn).map.narrow fun _ _ => trivial).of_head nofun (fun _ => rfl)
          hcompletes
      | _ => exact hplain.of_head nofun (fun _ => rfl) hcompletes
    | _ => exact hplain.of_head nofun (fun _ => rfl) hcompletes

theorem discerns_braced (hn : ls.length ≤ n) (hstatement : Goal.statement.Discerns ls) :
    Goal.braced.Discerns ls := by
  show Discerns braced [.mark .rightBrace] (fun _ => True) ls
  cases ls with
  | nil => exact .dry nofun
  | cons l tail =>
    obtain ⟨token, sp⟩ := l
    by_cases hsemicolon : token = .symbol .semicolon
    · subst hsemicolon
      exact Discerns.take (ih .braced tail hn trivial trivial) (fun _ => rfl) nofun
    by_cases hbrace : token = .symbol .rightBrace
    · subst hbrace
      exact .single ([], sp) (fun _ => rfl) nofun
    by_cases hend : token = .endOfFile
    · subst hend
      exact .failure (.expected (.mark .rightBrace) .endOfFile sp) (fun _ => ⟨_, rfl⟩) rfl
        (completes .braced trivial)
    have hfirst : Discerns (reach .statement >>= fun first => reach .braced >>= fun more =>
        pure (first :: more.1, more.2) : Parse (List Stmt × Span)) [.name, .mark .rightBrace]
        (fun _ => True) (⟨token, sp⟩ :: tail) := by
      refine hstatement.reach.bind [.mark .rightBrace] (fun s mid _ hmid => ?_)
        (fun s => (completes .braced trivial).reach.map)
        fun _ _ => ⟨_, _, rfl, Token.rightBrace_mem_statementClosers⟩
      have hmid : mid.length < n := Nat.lt_of_lt_of_le (hmid nofun) hn
      exact (ih .braced mid hmid trivial trivial).reach.map
    exact hfirst.of_head nofun (fun _ => Phrase.braced_eq hsemicolon hbrace hend)
      (completes .braced trivial)

theorem discerns_program (hn : ls.length ≤ n) (hstatement : Goal.statement.Discerns ls) :
    Goal.program.Discerns ls := by
  show Discerns program [] (· = .endOfFile) ls
  cases ls with
  | nil => exact .dry nofun
  | cons l tail =>
    obtain ⟨token, sp⟩ := l
    by_cases hsemicolon : token = .symbol .semicolon
    · subst hsemicolon
      exact Discerns.take (ih .program tail hn trivial trivial) (fun _ => rfl) nofun
    by_cases hend : token = .endOfFile
    · subst hend
      refine .stay [] (· = .endOfFile) (fun l ls hl => ?_) rfl fun _ => id
      obtain ⟨token, sp⟩ := l
      cases hl
      rfl
    have hfirst : Discerns (reach .statement >>= fun first => reach .program >>= fun more =>
        pure (first :: more) : Parse (List Stmt)) [.name] (· = .endOfFile)
        (⟨token, sp⟩ :: tail) := by
      refine hstatement.reach.bind [] (fun s mid _ hmid => ?_)
        (fun s => (completes .program trivial).reach.map) fun rest h => h.imp ?_
      · have hmid : mid.length < n := Nat.lt_of_lt_of_le (hmid nofun) hn
        exact (ih .program mid hmid trivial trivial).reach.map
      · rintro t rfl
        exact Token.endOfFile_mem_statementClosers
    exact hfirst.of_head nofun (fun _ => Phrase.program_eq hsemicolon hend)
      (completes .program trivial)

end Functions

/-! ## Whole lists -/

/-- **Every goal fails at the first place where it cannot be reached any more.**  By induction on
the length of the list, as for `settles`. -/
theorem discerns (goal : Goal) (ls : List Lexeme) (ready : goal.Ready ls)
    (hgoal : goal.Bracketed) : goal.Discerns ls := by
  induction hn : ls.length using Nat.strongRecOn generalizing goal ls with
  | ind n ih =>
    have ih : DiscernsBelow n :=
      fun goal ls hls ready hgoal => ih ls.length hls goal ls ready hgoal rfl
    have hn : ls.length ≤ n := Nat.le_of_eq hn
    have hunary : Goal.unary.Discerns ls := discerns_unary ih hn
    have hmultiplicative : (Goal.level .multiplicative).Discerns ls :=
      discerns_level ih hn nofun hunary
    have hadditive : (Goal.level .additive).Discerns ls :=
      discerns_level ih hn (by rintro l ⟨⟩; exact hmultiplicative) hunary
    have hcomparison : (Goal.level .comparison).Discerns ls :=
      discerns_level ih hn (by rintro l ⟨⟩; exact hadditive) hunary
    have hlogical : (Goal.level .logical).Discerns ls :=
      discerns_level ih hn (by rintro l ⟨⟩; exact hcomparison) hunary
    have hexpression : Goal.expression.Discerns ls := discerns_expression ih hn hlogical
    have hstatement : Goal.statement.Discerns ls :=
      discerns_statement ih hn hexpression (discerns_conditional ih hn)
    cases goal with
    | program => exact discerns_program ih hn hstatement
    | braced => exact discerns_braced ih hn hstatement
    | statement => exact hstatement
    | conditional => exact discerns_conditional ih hn ready
    | declarators => exact discerns_declarators ih hn
    | expression => exact hexpression
    | level l =>
      cases l with
      | logical => exact hlogical
      | comparison => exact hcomparison
      | additive => exact hadditive
      | multiplicative => exact hmultiplicative
    | chain l left => exact discerns_chain ih hn
    | unary => exact hunary
    | access operand => exact discerns_access ih hn
    | items kind closing => exact discerns_items ih hn hgoal hexpression hlogical
    | parameters => exact discerns_parameters ih hn
    | properties => exact discerns_properties ih hn

theorem run_of_rejects {e : ParseError} (h : Rejects program ls e) : run ls = .error e := by
  obtain ⟨rest, k, hk⟩ := h
  exact run_of_ends hk

theorem run_of_finishes (h : Finishes program ls rest) :
    (∃ stmts, run ls = .ok stmts) ∨
      ∃ name span, run ls = .error (.duplicateParameter name span) := by
  rcases h with ⟨stmts, k, hk⟩ | ⟨name, span, h⟩
  · exact .inl ⟨stmts, run_of_ends hk⟩
  · exact .inr ⟨name, span, run_of_rejects h⟩

/-- An error among lexemes that are no comments, unless it is a repeated parameter: it comes with a
lexeme that is to blame for it whatever is behind, and with a filler that would have done in its
place. -/
theorem run_error_earliest {e : ParseError} (hend : ∃ x ∈ ls, x.token = .endOfFile)
    (hfails : run ls = .error e) (hother : ∀ name span, e ≠ .duplicateParameter name span) :
    ∃ front l rest, ls = front ++ l :: rest ∧ e.span = l.span ∧
      (∀ rest', run (front ++ l :: rest') = .error e) ∧
      ∃ more : List Stub, ∀ sp,
        (∃ stmts, run (front ++ lexemes more ++ [⟨.endOfFile, sp⟩]) = .ok stmts) ∨
          ∃ name span, run (front ++ lexemes more ++ [⟨.endOfFile, sp⟩]) =
            .error (.duplicateParameter name span) := by
  rcases discerns .program ls trivial trivial with ⟨stmts, front, rest, rfl, -, -, steady⟩ |
    ⟨e', front, l, rest, rfl, span, steady, more, -, hviable⟩ | ⟨name, span, hrepeats⟩ | endless
  · obtain ⟨k, hk⟩ := steady rest (.inr rfl)
    cases (run_of_ends hk).symm.trans hfails
  · have hrejects : ∀ rest', run (front ++ l :: rest') = .error e' := fun rest' =>
      run_of_rejects (steady rest')
    cases (hrejects rest).symm.trans hfails
    refine ⟨front, l, rest, rfl, span, hrejects, more, fun sp => ?_⟩
    have hfinishes := hviable [⟨.endOfFile, sp⟩] ⟨_, _, rfl, rfl⟩
    rw [List.append_assoc]
    exact run_of_finishes hfinishes
  · cases (run_of_rejects hrepeats).symm.trans hfails
    exact absurd rfl (hother name span)
  · obtain ⟨x, hx, hend⟩ := hend
    exact absurd hend (endless x hx)

end Parse

namespace Program

variable {lexemes front : List Lexeme} {sp : Span} {e : ParseError}

theorem filter_append_of_plain (h : ∀ x ∈ front, x.token.isComment = false) (rest : List Lexeme) :
    (front ++ rest).filter (fun lexeme => !lexeme.token.isComment) =
      front ++ rest.filter fun lexeme => !lexeme.token.isComment := by
  rw [List.filter_append, List.filter_eq_self.mpr fun x hx => by rw [h x hx]; rfl]

/-- **An error stands at the earliest place.**  If a list of lexemes that ends with the end of the
file cannot be read, then the error points at a lexeme such that no list that begins in the same way
up to this lexeme can be read either, and some list that begins with the lexemes before it can.
Only parameters that repeat one another are an exception, for they are found when the list of
parameters is over. -/
theorem parse_error_earliest
    (hlexemes : ∀ l ∈ lexemes, l.token ≠ .endOfFile ∧ l.token.isComment = false)
    (hfails : parse (lexemes ++ [⟨.endOfFile, sp⟩]) = .error e)
    (hother : ∀ name span, e ≠ .duplicateParameter name span) :
    ∃ front l rest, lexemes ++ [⟨.endOfFile, sp⟩] = front ++ l :: rest ∧ e.span = l.span ∧
      (∀ rest', parse (front ++ l :: rest') = .error e) ∧
      ∃ more : List Lexeme, (∀ x ∈ more, x.token ≠ .endOfFile ∧ x.token.isComment = false) ∧
        ∀ sp', (∃ program, parse (front ++ more ++ [⟨.endOfFile, sp'⟩]) = .ok program) ∨
          ∃ name span, parse (front ++ more ++ [⟨.endOfFile, sp'⟩]) =
            .error (.duplicateParameter name span) := by
  have hplain : ∀ l ∈ lexemes ++ [⟨.endOfFile, sp⟩], l.token.isComment = false :=
    List.forall_mem_append.mpr ⟨fun l hl => (hlexemes l hl).2, List.forall_mem_singleton.mpr rfl⟩
  have hself := List.filter_eq_self.mpr fun l hl => congrArg (!·) (hplain l hl)
  rw [parse_eq_error_iff, hself] at hfails
  obtain ⟨front, l, rest, eq, span, hrejects, more, hfinishes⟩ :=
    run_error_earliest ⟨_, List.mem_append_right _ List.mem_cons_self, rfl⟩ hfails hother
  have hfront : ∀ x ∈ front, x.token.isComment = false := fun x hx =>
    hplain x (eq ▸ List.mem_append_left _ hx)
  have hmore : ∀ x ∈ Stub.lexemes more, x.token ≠ .endOfFile ∧ x.token.isComment = false :=
    List.forall_mem_map.mpr fun p _ => p.token_lexeme
  refine ⟨front, l, rest, eq, span, fun rest' => ?_, Stub.lexemes more, hmore, fun sp' => ?_⟩
  · have hl : l.token.isComment = false := hplain l (by simp [eq])
    rw [parse_eq_error_iff, filter_append_of_plain hfront,
      List.filter_cons_of_pos (by rw [hl]; rfl)]
    exact hrejects _
  · have hall : ∀ x ∈ front ++ Stub.lexemes more, x.token.isComment = false :=
      List.forall_mem_append.mpr ⟨hfront, fun x hx => (hmore x hx).2⟩
    have hsame := filter_append_of_plain hall [⟨.endOfFile, sp'⟩]
    rcases hfinishes sp' with ⟨stmts, hrun⟩ | ⟨name, span, hrun⟩
    · have hrun := (congrArg Parse.run hsame).trans hrun
      exact .inl ⟨⟨stmts, _, _⟩, parse_eq_ok_iff.mpr ⟨hrun, rfl, rfl⟩⟩
    · exact .inr ⟨name, span, parse_eq_error_iff.mpr ((congrArg Parse.run hsame).trans hrun)⟩

/-- A comma before the closing bracket, inside a call inside a loop.  The bracket is at fault, and
up to it the program could have gone on. -/
theorem parse_error_earliest_brackets :
    let lexemes : List Lexeme := ([.keyword .whileWord, .symbol .leftParen, .identifier "x",
      .symbol .rightParen, .symbol .leftBrace, .identifier "f", .symbol .leftParen,
      .symbol .leftBracket, .identifier "a", .symbol .comma, .symbol .rightBracket,
      .symbol .rightParen, .symbol .rightBrace] : List Token).zipIdx.map fun x =>
        ⟨x.1, ⟨x.2, 0, x.2⟩, ⟨x.2 + 1, 0, x.2 + 1⟩⟩
    let ending : Lexeme := ⟨.endOfFile, ⟨13, 0, 13⟩, ⟨13, 0, 13⟩⟩
    let e : ParseError := .unexpectedToken (.symbol .rightBracket) ⟨⟨10, 0, 10⟩, ⟨11, 0, 11⟩⟩
    parse (lexemes ++ [ending]) = .error e ∧
      ∃ front l rest, lexemes ++ [ending] = front ++ l :: rest ∧ e.span = l.span ∧
        (∀ rest', parse (front ++ l :: rest') = .error e) ∧
        ∃ more : List Lexeme, (∀ x ∈ more, x.token ≠ .endOfFile ∧ x.token.isComment = false) ∧
          ∀ sp', (∃ program, parse (front ++ more ++ [⟨.endOfFile, sp'⟩]) = .ok program) ∨
            ∃ name span, parse (front ++ more ++ [⟨.endOfFile, sp'⟩]) =
              .error (.duplicateParameter name span) :=
  ⟨rfl, parse_error_earliest (by decide) rfl nofun⟩

end Program

end Script
