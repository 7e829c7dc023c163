import Script.Proofs.Parser.Bare
import Script.Proofs.Parser.Follow

/-!
# What the grammar yields can be read

The converse of soundness, for tokens with a semicolon between any two statements.  If the tokens of
some lexemes are a way to write a tree down, then the tree is read from these lexemes again, with
other spans: whatever is behind them, as long as the grammar may have put it there
(`Yields.recovers`).

For two ranks the reading is open at its end.  An operand is read on its own, and only then comes
what the operators or accesses behind it make of it.  So `Form.Recovers` speaks of an operand as of
something that is still to be extended: any reading of the rest that starts with the operand gives a
reading of the whole.  That is how a chain of operators comes to lean to the left.
-/

namespace Script

open Token

/-- The form is read from the lexemes, whatever may follow them, up to the places of its parts. -/
def Form.Recovers : Form → List Lexeme → Prop
  | expr .primary e, ls => ∃ e', e'.bare = e.bare ∧ ∀ rest, Reads (.primary e') (ls ++ rest) rest
  | expr .access e, ls => ∃ e', e'.bare = e.bare ∧ ∀ r rest rest',
      Reads (.access e' r) rest rest' → Reads (.unary r) (ls ++ rest) rest'
  | expr .sign e, ls => ∃ e', e'.bare = e.bare ∧ ∀ l rest, l.token.Bounds 4 →
      Reads (.unary e') (ls ++ l :: rest) (l :: rest)
  | expr (.level lvl) e, ls => ∃ e', e'.bare = e.bare ∧ ∀ r l rest rest',
      l.token.Bounds (lvl.depth + 1) → Reads (.chain lvl e' r) (l :: rest) rest' →
      Reads (.level lvl r) (ls ++ l :: rest) rest'
  | expr .assignment e, ls => ∃ e', e'.bare = e.bare ∧ ∀ l rest, l.token ∈ closers →
      Reads (.expression e') (ls ++ l :: rest) (l :: rest)
  | list r es, ls => ∀ kind closing, Item.rank kind = r → symbol closing ∈ closers →
      closing ≠ .comma → ∃ es', bareExprs es' = bareExprs es ∧ ∀ sp rest,
        Reads (.list kind closing es' sp) (ls ++ ⟨symbol closing, sp⟩ :: rest) rest
  | items r es, ls => ∀ kind closing, Item.rank kind = r → symbol closing ∈ closers →
      closing ≠ .comma → ∃ es', bareExprs es' = bareExprs es ∧ ∀ sp rest,
        Reads (.items kind closing es' sp) (ls ++ ⟨symbol closing, sp⟩ :: rest) rest
  | properties ps, ls => ∃ ps', bareProperties ps' = bareProperties ps ∧ ∀ sp rest,
      Reads (.properties ps' sp) (ls ++ ⟨symbol .rightBrace, sp⟩ :: rest) rest
  | property p, ls => ∃ p', p'.bare = p.bare ∧ ∀ l rest, l.token ∈ closers →
      Reads (.property p') (ls ++ l :: rest) (l :: rest)
  | function f, ls => ∀ sp, ∃ f', f'.bare = f.bare ∧
    ∀ rest, Reads (.function sp f') (ls ++ rest) rest
  | block b, ls => ∃ b', b'.bare = b.bare ∧ ∀ rest, Reads (.block b') (ls ++ rest) rest
  | statements ss, ls => ∃ ss', bareStmts ss' = bareStmts ss ∧
      (∀ sp rest, Reads (.braced ss' sp) (ls ++ ⟨symbol .rightBrace, sp⟩ :: rest) rest) ∧
      ∀ sp rest, Reads (.program ss') (ls ++ ⟨endOfFile, sp⟩ :: rest) (⟨endOfFile, sp⟩ :: rest)
  | statement s, ls => ∃ s', s'.bare = s.bare ∧ ∀ l rest, l.token ∈ statementClosers →
      Reads (.statement s') (ls ++ l :: rest) (l :: rest)
  | conditional c, ls => ∃ c', c'.bare = c.bare ∧ ∀ l rest, l.token ∈ statementClosers →
      Reads (.conditional c') (ls ++ l :: rest) (l :: rest)
  | declarators ds, ls => ∃ ds', bareDeclarators ds' = bareDeclarators ds ∧ ∀ l rest,
      l.token ∈ statementClosers → Reads (.declarators ds') (ls ++ l :: rest) (l :: rest)
  | declarator d, ls => ∃ d', d'.bare = d.bare ∧ ∀ l rest, l.token ∈ closers →
      Reads (.declarator d') (ls ++ l :: rest) (l :: rest)

namespace Form

variable {ls ms : List Lexeme} {e left right key : Expr} {es : List Expr} {f : Function}
variable {sp sp' sp₁ sp₂ sp₃ : Span} {name text : String}

/-! ## Primary expressions -/

theorem recovers_number {value : Number} :
    (expr .primary (.number value sp)).Recovers [⟨number value, sp'⟩] :=
  ⟨.number value sp', rfl, fun _ => .number⟩

theorem recovers_string : (expr .primary (.string text sp)).Recovers [⟨string text, sp'⟩] :=
  ⟨.string text sp', rfl, fun _ => .string⟩

/-- A constant is written as a name, and the name is read as the constant. -/
theorem recovers_constant {c : Constant} :
    (expr .primary (.constant c sp)).Recovers [⟨identifier c.spelling, sp'⟩] := by
  refine ⟨.constant c sp', rfl, fun rest => .constant ?_⟩
  cases c <;> rfl

/-- A name that is no constant is read as a variable. -/
theorem recovers_var (free : Free name) :
    (expr .primary (.var name sp)).Recovers [⟨identifier name, sp'⟩] :=
  ⟨.var name sp', rfl, fun _ => .var free⟩

/-- Parentheses leave no trace in the tree. -/
theorem recovers_parenthesized (h : (expr .assignment e).Recovers ls) :
    (expr .primary e).Recovers
      (⟨symbol .leftParen, sp⟩ :: ls ++ [⟨symbol .rightParen, sp'⟩]) := by
  obtain ⟨e', he, hreads⟩ := h
  refine ⟨e', he, fun rest => ?_⟩
  rw [List.append_assoc]
  exact .parenthesized (hreads _ rest rightParen_mem_closers)

/-- Elements are read up to the bracket, as logical expressions. -/
theorem recovers_array (h : (list (.level .logical) es).Recovers ls) :
    (expr .primary (.array es sp)).Recovers
      (⟨symbol .leftBracket, sp₁⟩ :: ls ++ [⟨symbol .rightBracket, sp₂⟩]) := by
  obtain ⟨es', hes, hreads⟩ := h .element .rightBracket rfl rightBracket_mem_closers nofun
  refine ⟨.array es' (sp₁.join sp₂), by simp only [Expr.bare, hes], fun rest => ?_⟩
  rw [List.append_assoc]
  exact .array (hreads sp₂ rest)

theorem recovers_object {ps : List Property} (h : (properties ps).Recovers ls) :
    (expr .primary (.object ps sp)).Recovers
      (⟨symbol .leftBrace, sp₁⟩ :: ls ++ [⟨symbol .rightBrace, sp₂⟩]) := by
  obtain ⟨ps', hps, hreads⟩ := h
  refine ⟨.object ps' (sp₁.join sp₂), by simp only [Expr.bare, hps], fun rest => ?_⟩
  rw [List.append_assoc]
  exact .object (hreads sp₂ rest)

theorem recovers_namedFunction (free : Free name) (h : (function f).Recovers ls) :
    (expr .primary (.function (some name) f)).Recovers
      (⟨keyword .functionWord, sp⟩ :: ⟨identifier name, sp'⟩ :: ls) := by
  obtain ⟨f', hf, hreads⟩ := h sp
  exact ⟨.function (some name) f', by simp only [Expr.bare, hf],
    fun rest => .namedFunction free (hreads rest)⟩

theorem recovers_namelessFunction (h : (function f).Recovers ls) :
    (expr .primary (.function none f)).Recovers (⟨keyword .functionWord, sp⟩ :: ls) := by
  obtain ⟨f', hf, hreads⟩ := h sp
  exact ⟨.function none f', by simp only [Expr.bare, hf],
    fun rest => .namelessFunction (hreads rest)⟩

/-! ## Accesses and calls -/

/-- A primary expression is extended by the accesses behind it. -/
theorem recovers_ofPrimary (h : (expr .primary e).Recovers ls) : (expr .access e).Recovers ls := by
  obtain ⟨e', he, hreads⟩ := h
  exact ⟨e', he, fun r rest rest' hmore => .accessed (hreads rest) hmore⟩

/-- An access extends what it stands behind, and may be extended itself. -/
theorem recovers_member (h : (expr .access e).Recovers ls) :
    (expr .access (.member e name sp)).Recovers
      (ls ++ [⟨symbol .dot, sp₁⟩, ⟨identifier name, sp₂⟩]) := by
  obtain ⟨e', he, hreads⟩ := h
  refine ⟨.member e' name (e'.span.join sp₂), by simp only [Expr.bare, he], ?_⟩
  intro r rest rest' hmore
  rw [List.append_assoc]
  exact hreads r _ rest' (.member hmore)

theorem recovers_index (h : (expr .access e).Recovers ls)
    (hkey : (expr .assignment key).Recovers ms) :
    (expr .access (.index e key sp)).Recovers
      (ls ++ ⟨symbol .leftBracket, sp₁⟩ :: ms ++ [⟨symbol .rightBracket, sp₂⟩]) := by
  obtain ⟨e', he, hreads⟩ := h
  obtain ⟨key', hkey', hinner⟩ := hkey
  refine ⟨.index e' key' (e'.span.join sp₂), by simp only [Expr.bare, he, hkey'], ?_⟩
  intro r rest rest' hmore
  rw [List.append_assoc, List.append_assoc]
  exact hreads r _ rest' (.index (hinner _ rest rightBracket_mem_closers) hmore)

theorem recovers_call (h : (expr .access e).Recovers ls)
    (harguments : (list .assignment es).Recovers ms) :
    (expr .access (.call e es sp)).Recovers
      (ls ++ ⟨symbol .leftParen, sp₁⟩ :: ms ++ [⟨symbol .rightParen, sp₂⟩]) := by
  obtain ⟨e', he, hreads⟩ := h
  obtain ⟨es', hes, hlist⟩ := harguments .argument .rightParen rfl rightParen_mem_closers nofun
  refine ⟨.call e' es' (e'.span.join sp₂), by simp only [Expr.bare, he, hes], ?_⟩
  intro r rest rest' hmore
  rw [List.append_assoc, List.append_assoc]
  exact hreads r _ rest' (.call (hlist sp₂ rest) hmore)

/-! ## Operators -/

/-- An expression ends its accesses in front of a token that begins none. -/
theorem recovers_ofAccess (h : (expr .access e).Recovers ls) : (expr .sign e).Recovers ls := by
  obtain ⟨e', he, hreads⟩ := h
  exact ⟨e', he, fun l rest hl => hreads e' _ _ (.accessEnd hl.1)⟩

theorem recovers_sign {op : UnaryOp} (h : (expr .sign e).Recovers ls) :
    (expr .sign (.unary op e sp)).Recovers (⟨symbol op.symbol, sp'⟩ :: ls) := by
  obtain ⟨e', he, hreads⟩ := h
  exact ⟨.unary op e' (sp'.join e'.span), by simp only [Expr.bare, he],
    fun l rest hl => .sign (hreads l rest hl)⟩

/-- At the end of its level an expression is all that is read. -/
theorem Recovers.level (lvl : Level) (h : (expr (.level lvl) e).Recovers ls) :
    ∃ e', e'.bare = e.bare ∧ ∀ l rest, l.token.Bounds lvl.depth →
      Reads (.level lvl e') (ls ++ l :: rest) (l :: rest) := by
  obtain ⟨e', he, hreads⟩ := h
  refine ⟨e', he, fun l rest hl => ?_⟩
  exact hreads e' l rest _ (hl.mono (Nat.le_succ _)) (.chainEnd (hl.2 lvl (Nat.le_refl _)))

/-- An operand is an expression of the next tighter level, which nothing tighter goes on with. -/
theorem Recovers.operand {lvl : Level} (h : (expr (.operand lvl) e).Recovers ls) :
    ∃ e', e'.bare = e.bare ∧ ∀ l rest, l.token.Bounds (lvl.depth + 1) →
      Reads (.operand lvl e') (ls ++ l :: rest) (l :: rest) := by
  cases lvl with
  | logical => exact Recovers.level .comparison h
  | comparison => exact Recovers.level .additive h
  | additive => exact Recovers.level .multiplicative h
  | multiplicative => exact h

/-- A first operand is extended by the operators behind it. -/
theorem recovers_ofOperand {lvl : Level} (h : (expr (.operand lvl) e).Recovers ls) :
    (expr (.level lvl) e).Recovers ls := by
  obtain ⟨e', he, hreads⟩ := h.operand
  exact ⟨e', he, fun r l rest rest' hl hmore => .level (hreads l rest hl) hmore⟩

/-- The left side is read first and is then extended by the operator: the chain leans to the left.
-/
theorem recovers_connective {op : Connective} (hleft : (expr (.level op.level) left).Recovers ls)
    (hright : (expr (.operand op.level) right).Recovers ms) :
    (expr (.level op.level) (op.node left right sp)).Recovers
      (ls ++ ⟨symbol op.symbol, sp'⟩ :: ms) := by
  obtain ⟨left', hl, hfirst⟩ := hleft
  obtain ⟨right', hr, hsecond⟩ := hright.operand
  refine ⟨op.join left' right', ?_, ?_⟩
  · cases op <;> simp only [Connective.join, Connective.node, Expr.bare, hl, hr]
  · intro r l rest rest' hbound hmore
    rw [List.append_assoc]
    refine hfirst r _ _ rest' (bounds_connective op) ?_
    exact .chainOperator rfl (hsecond l rest hbound) hmore

/-- An expression that does not open like an assignment is not read as one. -/
theorem recovers_ofLogical (h : (expr (.level .logical) e).Recovers ls)
    (hplain : ∀ t, t.assignOp? = none → ∀ more,
      opensAssignment (ls.map Lexeme.token ++ t :: more) = false) :
    (expr .assignment e).Recovers ls := by
  obtain ⟨e', he, hreads⟩ := Recovers.level .logical h
  refine ⟨e', he, fun l rest hl => .value ?_ (hreads l rest (bounds_of_mem_closers hl _))⟩
  apply Parse.assignment?_eq_none
  rw [List.map_append, List.map_cons]
  exact hplain l.token (assignOp?_of_mem_closers hl) _

theorem recovers_assignment {op : AssignOp} (h : (expr .assignment e).Recovers ls) :
    (expr .assignment (.assign name op e sp)).Recovers
      (⟨identifier name, sp₁⟩ :: ⟨symbol op.symbol, sp₂⟩ :: ls) := by
  obtain ⟨e', he, hreads⟩ := h
  exact ⟨.assign name op e' (sp₁.join e'.span), by simp only [Expr.bare, he],
    fun l rest hl => .assignment (hreads l rest hl)⟩

/-! ## Lists -/

section Lists

variable {rank : Rank} {p : Property} {ps : List Property}

/-- An empty list ends with the mark that closes it. -/
theorem recovers_listNone : (list rank []).Recovers [] :=
  fun _ _ _ _ _ => ⟨[], rfl, fun _ _ => .listNone⟩

/-- A list that begins like an expression does not begin with the closing mark. -/
theorem recovers_listSome (hfront : BeginsExpr (ls.map Lexeme.token))
    (h : (items rank es).Recovers ls) : (list rank es).Recovers ls := by
  intro kind closing hkind hclosing hcomma
  obtain ⟨es', hes, hreads⟩ := h kind closing hkind hclosing hcomma
  refine ⟨es', hes, fun sp rest => ?_⟩
  obtain ⟨t, more, heq, hstarts, -⟩ := hfront
  obtain ⟨l, tail, rfl, rfl, -⟩ := List.map_eq_cons_iff.mp heq
  refine .listSome (fun hl => ?_) (hreads sp rest)
  have hall : ∀ t ∈ closers, t.startsExpr = false := by decide
  rw [hl, hall _ hclosing] at hstarts
  cases hstarts

/-- An item of a list is read up to what stands behind it. -/
theorem Recovers.item {kind : Item} (h : (expr kind.rank e).Recovers ls) :
    ∃ e', e'.bare = e.bare ∧ ∀ l rest, l.token ∈ closers →
      Reads (.item kind e') (ls ++ l :: rest) (l :: rest) := by
  cases kind with
  | argument => exact h
  | element =>
    obtain ⟨e', he, hreads⟩ := Recovers.level .logical h
    exact ⟨e', he, fun l rest hl => hreads l rest (bounds_of_mem_closers hl _)⟩

theorem recovers_itemsLast (h : (expr rank e).Recovers ls) : (items rank [e]).Recovers ls := by
  intro kind closing hkind hclosing hcomma
  subst hkind
  obtain ⟨e', he, hreads⟩ := h.item
  exact ⟨[e'], by simp only [bareExprs, he],
    fun sp rest => .itemsLast hcomma (hreads ⟨symbol closing, sp⟩ rest hclosing)⟩

/-- The comma bounds the item in front of it. -/
theorem recovers_itemsMore (h : (expr rank e).Recovers ls) (hmore : (items rank es).Recovers ms) :
    (items rank (e :: es)).Recovers (ls ++ ⟨symbol .comma, sp⟩ :: ms) := by
  intro kind closing hkind hclosing hcomma
  obtain ⟨es', hes, hrest⟩ := hmore kind closing hkind hclosing hcomma
  subst hkind
  obtain ⟨e', he, hreads⟩ := h.item
  refine ⟨e' :: es', by simp only [bareExprs, he, hes], fun sp' rest => ?_⟩
  rw [List.append_assoc]
  exact .itemsMore (hreads _ _ comma_mem_closers) (hrest sp' rest)

theorem recovers_propertiesNone : (properties []).Recovers [] :=
  ⟨[], rfl, fun _ _ => .propertiesNone⟩

theorem recovers_propertiesLast (h : (property p).Recovers ls) :
    (properties [p]).Recovers ls := by
  obtain ⟨p', hp, hreads⟩ := h
  exact ⟨[p'], by simp only [bareProperties, hp],
    fun sp rest => .propertiesLast (hreads _ rest rightBrace_mem_closers)⟩

theorem recovers_propertiesMore (h : (property p).Recovers ls)
    (hmore : (properties ps).Recovers ms) :
    (properties (p :: ps)).Recovers (ls ++ ⟨symbol .comma, sp⟩ :: ms) := by
  obtain ⟨p', hp, hreads⟩ := h
  obtain ⟨ps', hps, hrest⟩ := hmore
  refine ⟨p' :: ps', by simp only [bareProperties, hp, hps], fun sp' rest => ?_⟩
  rw [List.append_assoc]
  exact .propertiesMore (hreads _ _ comma_mem_closers) (hrest sp' rest)

theorem recovers_nameProperty (h : (expr .assignment e).Recovers ls) :
    (property (.keyed name e sp)).Recovers
      (⟨identifier name, sp₁⟩ :: ⟨symbol .colon, sp₂⟩ :: ls) := by
  obtain ⟨e', he, hreads⟩ := h
  exact ⟨.keyed name e' (sp₁.join e'.span), by simp only [Property.bare, he],
    fun l rest hl => .nameProperty (hreads l rest hl)⟩

theorem recovers_stringProperty (h : (expr .assignment e).Recovers ls) :
    (property (.keyed text e sp)).Recovers
      (⟨string text, sp₁⟩ :: ⟨symbol .colon, sp₂⟩ :: ls) := by
  obtain ⟨e', he, hreads⟩ := h
  exact ⟨.keyed text e' (sp₁.join e'.span), by simp only [Property.bare, he],
    fun l rest hl => .stringProperty (hreads l rest hl)⟩

/-- What may stand behind a property is not a colon. -/
theorem recovers_shorthand :
    (property (.shorthand name sp)).Recovers [⟨identifier name, sp'⟩] := by
  refine ⟨.shorthand name sp', rfl, fun l rest hl => .shorthand fun hcolon => ?_⟩
  rw [hcolon] at hl
  exact absurd hl (by decide)

end Lists

/-! ## Functions and sequences of statements -/

section Sequences

variable {ps : List String} {b : Block} {body : List Stmt} {s : Stmt}

/-- Parameters are read with their places, of which the tree keeps none. -/
theorem reads_parameters (h : ls.map Lexeme.token = names ps) (hne : ps ≠ [])
    (free : ∀ name ∈ ps, Free name) : ∃ names, names.map Prod.fst = ps ∧ ∀ sp rest,
      Reads (.parameters names) (ls ++ ⟨symbol .rightParen, sp⟩ :: rest) rest := by
  induction ps generalizing ls with
  | nil => exact absurd rfl hne
  | cons x ps ih =>
    obtain ⟨hx, hps⟩ := List.forall_mem_cons.mp free
    cases ps with
    | nil =>
      obtain ⟨⟨token, sp₁⟩, tail, rfl, rfl, htail⟩ := List.map_eq_cons_iff.mp h
      obtain rfl := List.map_eq_nil_iff.mp htail
      exact ⟨[(x, sp₁)], rfl, fun sp rest => .parametersLast hx⟩
    | cons y ps =>
      rw [names_cons_cons] at h
      obtain ⟨⟨token, sp₁⟩, tail, rfl, rfl, htail⟩ := List.map_eq_cons_iff.mp h
      obtain ⟨⟨token, sp₂⟩, tail, rfl, rfl, hmore⟩ := List.map_eq_cons_iff.mp htail
      obtain ⟨names, hnames, hreads⟩ := ih hmore (List.cons_ne_nil _ _) hps
      exact ⟨(x, sp₁) :: names, by rw [List.map_cons, hnames],
        fun sp rest => .parametersMore hx (hreads sp rest)⟩

theorem reads_parameterList (h : ls.map Lexeme.token = names ps)
    (free : ∀ name ∈ ps, Free name) : ∃ names, names.map Prod.fst = ps ∧ ∀ sp rest,
      Reads (.parameterList names) (ls ++ ⟨symbol .rightParen, sp⟩ :: rest) rest := by
  by_cases hne : ps = []
  · subst hne
    obtain rfl := List.map_eq_nil_iff.mp h
    exact ⟨[], rfl, fun sp rest => .parameterListNone⟩
  · obtain ⟨names, hnames, hreads⟩ := reads_parameters h hne free
    exact ⟨names, hnames, fun sp rest => .parameterListSome (hreads sp rest)⟩

/-- The span of a function begins with its keyword, wherever that stands. -/
theorem recovers_function (hps : ls.map Lexeme.token = names ps) (free : ∀ name ∈ ps, Free name)
    (distinct : ps.Nodup) (h : (block ⟨body, sp₁⟩).Recovers ms) :
    (function ⟨ps, body, sp₂⟩).Recovers
      (⟨symbol .leftParen, sp⟩ :: ls ++ ⟨symbol .rightParen, sp'⟩ :: ms) := by
  intro keyword
  obtain ⟨names, hnames, hlist⟩ := reads_parameterList hps free
  obtain ⟨⟨body', sp₃⟩, hb, hblock⟩ := h
  refine ⟨⟨names.map Prod.fst, body', keyword.join sp₃⟩, ?_, fun rest => ?_⟩
  · rw [Function.bare, Function.bare, hnames, (Block.mk.inj hb).1]
  · rw [List.append_assoc]
    refine .function (hlist sp' _) ?_ (hblock rest)
    rw [Parse.firstRepeat?_nil_eq_none, hnames]
    exact distinct

/-- A block closes its statements, whatever they end with. -/
theorem recovers_block (h : (statements body).Recovers ls) :
    (block ⟨body, sp⟩).Recovers
      (⟨symbol .leftBrace, sp₁⟩ :: ls ++ [⟨symbol .rightBrace, sp₂⟩]) := by
  obtain ⟨body', hbody, hbraced, -⟩ := h
  refine ⟨⟨body', sp₁.join sp₂⟩, by rw [Block.bare, Block.bare, hbody], fun rest => ?_⟩
  rw [List.append_assoc]
  exact .block (hbraced sp₂ rest)

theorem recovers_statementsNone : (statements []).Recovers [] :=
  ⟨[], rfl, fun _ _ => .bracedClose, fun _ _ => .programEnd⟩

/-- Semicolons in front of a statement are passed over. -/
theorem recovers_semicolon (h : (statements body).Recovers ls) :
    (statements body).Recovers (⟨symbol .semicolon, sp⟩ :: ls) := by
  obtain ⟨body', hbody, hbraced, hprogram⟩ := h
  exact ⟨body', hbody, fun sp' rest => .bracedSemicolon (hbraced sp' rest),
    fun sp' rest => .programSemicolon (hprogram sp' rest)⟩

/-- Between two statements there is a semicolon, and behind the last one what closes the sequence.
-/
theorem recovers_statementsSome (h : (statement s).Recovers ls)
    (hbody : (statements body).Recovers ms)
    (hfront : ∃ l tail, ls = l :: tail ∧ l.token ∉ statementClosers)
    (hapart : ms = [] ∨ ∃ sp tail, ms = ⟨symbol .semicolon, sp⟩ :: tail) :
    (statements (s :: body)).Recovers (ls ++ ms) := by
  obtain ⟨s', hs, hreads⟩ := h
  obtain ⟨body', hbody', hbraced, hprogram⟩ := hbody
  obtain ⟨l, tail, rfl, hl⟩ := hfront
  have hsemicolon : l.token ≠ symbol .semicolon :=
    fun he => hl (he ▸ semicolon_mem_statementClosers)
  have hbrace : l.token ≠ symbol .rightBrace := fun he => hl (he ▸ rightBrace_mem_statementClosers)
  have hending : l.token ≠ endOfFile := fun he => hl (he ▸ endOfFile_mem_statementClosers)
  have hstatement : ∀ c rest, c.token ∈ statementClosers →
      Reads (.statement s') ((l :: tail) ++ (ms ++ c :: rest)) (ms ++ c :: rest) := by
    intro c rest hc
    rcases hapart with rfl | ⟨sp, tail', rfl⟩
    · exact hreads c rest hc
    · exact hreads _ _ semicolon_mem_statementClosers
  refine ⟨s' :: body', by simp only [bareStmts, hs, hbody'], fun sp rest => ?_, fun sp rest => ?_⟩
  · rw [List.append_assoc]
    exact .bracedStatement hsemicolon hbrace hending
      (hstatement _ rest rightBrace_mem_statementClosers) (hbraced sp rest)
  · rw [List.append_assoc]
    exact .programStatement hsemicolon hending
      (hstatement _ rest endOfFile_mem_statementClosers) (hprogram sp rest)

end Sequences

/-! ## Statements -/

section Statements

variable {kind : DeclarationKind} {d : Declarator} {ds : List Declarator} {b b' : Block}
variable {c : Conditional} {us : List Lexeme}

theorem recovers_declaration (h : (declarators ds).Recovers ls) :
    (statement (.declaration kind ds sp)).Recovers (⟨keyword kind.word, sp'⟩ :: ls) := by
  obtain ⟨ds', hds, hreads⟩ := h
  exact ⟨.declaration kind ds' (Parse.declarationSpan sp' ds'), by simp only [Stmt.bare, hds],
    fun l rest hl => .declaration (hreads l rest hl)⟩

theorem recovers_functionDeclaration (free : Free name) (h : (function f).Recovers ls) :
    (statement (.function name f)).Recovers
      (⟨keyword .functionWord, sp⟩ :: ⟨identifier name, sp'⟩ :: ls) := by
  obtain ⟨f', hf, hreads⟩ := h sp
  exact ⟨.function name f', by simp only [Stmt.bare, hf],
    fun l rest _ => .functionDeclaration free (hreads _)⟩

theorem recovers_conditionalStatement (h : (conditional c).Recovers ls) :
    (statement (.conditional c)).Recovers ls := by
  obtain ⟨c', hc, hreads⟩ := h
  exact ⟨.conditional c', by simp only [Stmt.bare, hc],
    fun l rest hl => .conditionalStatement (hreads l rest hl)⟩

theorem recovers_loop (he : (expr .assignment e).Recovers ls) (hb : (block b).Recovers ms) :
    (statement (.loop e b sp)).Recovers (⟨keyword .whileWord, sp₁⟩ :: ⟨symbol .leftParen, sp₂⟩ ::
      ls ++ ⟨symbol .rightParen, sp₃⟩ :: ms) := by
  obtain ⟨e', he', hcondition⟩ := he
  obtain ⟨b', hb', hbody⟩ := hb
  refine ⟨.loop e' b' (sp₁.join b'.span), by simp only [Stmt.bare, he', hb'],
    fun l rest _ => ?_⟩
  rw [List.append_assoc]
  exact .loop (hcondition _ _ rightParen_mem_closers) (hbody _)

theorem recovers_blockStatement (h : (block b).Recovers ls) :
    (statement (.block b)).Recovers ls := by
  obtain ⟨b', hb, hreads⟩ := h
  exact ⟨.block b', by simp only [Stmt.bare, hb], fun l rest _ => .blockStatement (hreads _)⟩

/-- An expression that opens like no other statement is read as one. -/
theorem recovers_expressionStatement (hfront : BeginsExpr (ls.map Lexeme.token))
    (plain : opensStatement (ls.map Lexeme.token) = false)
    (h : (expr .assignment e).Recovers ls) : (statement (.expr e)).Recovers ls := by
  obtain ⟨e', he, hreads⟩ := h
  exact ⟨.expr e', by simp only [Stmt.bare, he], fun l rest hl =>
    .expressionStatement (Parse.opensStatement_eq_false hfront plain _)
      (hreads l rest (mem_closers_of_mem_statementClosers hl))⟩

/-- What may stand behind a statement is not `else`. -/
theorem recovers_conditional (he : (expr .assignment e).Recovers ls)
    (hb : (block b).Recovers ms) :
    (conditional ⟨e, b, .absent, sp⟩).Recovers (⟨keyword .ifWord, sp₁⟩ ::
      ⟨symbol .leftParen, sp₂⟩ :: ls ++ ⟨symbol .rightParen, sp₃⟩ :: ms) := by
  obtain ⟨e', he', hcondition⟩ := he
  obtain ⟨b', hb', hconsequent⟩ := hb
  refine ⟨⟨e', b', .absent, sp₁.join b'.span⟩,
    by simp only [Conditional.bare, Alternate.bare, he', hb'], fun l rest hl => ?_⟩
  rw [List.append_assoc]
  refine .conditional (hcondition _ _ rightParen_mem_closers) (hconsequent _) fun helse => ?_
  rw [helse] at hl
  exact absurd hl (by decide)

/-- A block behind `else` is told from a conditional by its brace. -/
theorem recovers_conditionalElse (he : (expr .assignment e).Recovers ls)
    (hb : (block b).Recovers ms) (hb' : (block b').Recovers us)
    (hfront : ∃ sp tail, us = ⟨symbol .leftBrace, sp⟩ :: tail) :
    (conditional ⟨e, b, .block b', sp⟩).Recovers (⟨keyword .ifWord, sp₁⟩ ::
      ⟨symbol .leftParen, sp₂⟩ :: ls ++ ⟨symbol .rightParen, sp₃⟩ :: ms ++
        ⟨keyword .elseWord, sp'⟩ :: us) := by
  obtain ⟨e', he', hcondition⟩ := he
  obtain ⟨b₁, hb₁, hconsequent⟩ := hb
  obtain ⟨b₂, hb₂, halternate⟩ := hb'
  obtain ⟨sp₄, tail, rfl⟩ := hfront
  refine ⟨⟨e', b₁, .block b₂, (sp₁.join b₁.span).join b₂.span⟩,
    by simp only [Conditional.bare, Alternate.bare, he', hb₁, hb₂], fun l rest _ => ?_⟩
  rw [List.append_assoc, List.append_assoc]
  exact .conditionalElse (hcondition _ _ rightParen_mem_closers) (hconsequent _) nofun
    (halternate _)

theorem recovers_conditionalElseIf (he : (expr .assignment e).Recovers ls)
    (hb : (block b).Recovers ms) (hc : (conditional c).Recovers us)
    (hfront : ∃ sp tail, us = ⟨keyword .ifWord, sp⟩ :: tail) :
    (conditional ⟨e, b, .conditional c, sp⟩).Recovers (⟨keyword .ifWord, sp₁⟩ ::
      ⟨symbol .leftParen, sp₂⟩ :: ls ++ ⟨symbol .rightParen, sp₃⟩ :: ms ++
        ⟨keyword .elseWord, sp'⟩ :: us) := by
  obtain ⟨e', he', hcondition⟩ := he
  obtain ⟨b', hb', hconsequent⟩ := hb
  obtain ⟨c', hc', hnested⟩ := hc
  obtain ⟨sp₄, tail, rfl⟩ := hfront
  refine ⟨⟨e', b', .conditional c', (sp₁.join b'.span).join c'.span⟩,
    by simp only [Conditional.bare, Alternate.bare, he', hb', hc'], fun l rest hl => ?_⟩
  rw [List.append_assoc, List.append_assoc]
  exact .conditionalElseIf (hcondition _ _ rightParen_mem_closers) (hconsequent _)
    (hnested l rest hl)

/-- What may stand behind a statement is not a comma. -/
theorem recovers_declaratorsLast (h : (declarator d).Recovers ls) :
    (declarators [d]).Recovers ls := by
  obtain ⟨d', hd, hreads⟩ := h
  refine ⟨[d'], by simp only [bareDeclarators, hd], fun l rest hl => ?_⟩
  refine .declaratorsLast (hreads l rest (mem_closers_of_mem_statementClosers hl)) fun hcomma => ?_
  rw [hcomma] at hl
  exact absurd hl (by decide)

theorem recovers_declaratorsMore (h : (declarator d).Recovers ls)
    (hmore : (declarators ds).Recovers ms) :
    (declarators (d :: ds)).Recovers (ls ++ ⟨symbol .comma, sp⟩ :: ms) := by
  obtain ⟨d', hd, hreads⟩ := h
  obtain ⟨ds', hds, hrest⟩ := hmore
  refine ⟨d' :: ds', by simp only [bareDeclarators, hd, hds], fun l rest hl => ?_⟩
  rw [List.append_assoc]
  exact .declaratorsMore (hreads _ _ comma_mem_closers) (hrest l rest hl)

theorem recovers_declaratorValue (free : Free name) (h : (expr .assignment e).Recovers ls) :
    (declarator ⟨name, e, sp⟩).Recovers
      (⟨identifier name, sp₁⟩ :: ⟨symbol .equals, sp₂⟩ :: ls) := by
  obtain ⟨e', he, hreads⟩ := h
  exact ⟨⟨name, e', sp₁.join e'.span⟩, by simp only [Declarator.bare, he],
    fun l rest hl => .declaratorValue free (hreads l rest hl)⟩

/-- What may stand behind a declarator is no equals sign, so its value is `undefined`. -/
theorem recovers_declaratorPlain (free : Free name) :
    (declarator ⟨name, .constant .undefined sp, sp'⟩).Recovers [⟨identifier name, sp₁⟩] := by
  refine ⟨⟨name, .constant .undefined sp₁, sp₁.join sp₁⟩, rfl, fun l rest hl => ?_⟩
  refine .declaratorPlain free fun hequals => ?_
  rw [hequals] at hl
  exact absurd hl (by decide)

end Statements

end Form

/-! ## All forms -/

/-- Behind a statement there is a semicolon, or nothing. -/
theorem Yields.statements_apart {body : List Stmt} {ls : List Lexeme}
    (h : Yields 1 (.statements body) (ls.map Lexeme.token))
    (apart : body ≠ [] → List.replicate 1 (symbol .semicolon) <+: ls.map Lexeme.token) :
    ls = [] ∨ ∃ sp tail, ls = ⟨symbol .semicolon, sp⟩ :: tail := by
  cases ls with
  | nil => exact .inl rfl
  | cons l tail =>
    obtain ⟨token, sp⟩ := l
    refine .inr ⟨sp, tail, ?_⟩
    by_cases hbody : body = []
    · subst hbody
      cases h
      rfl
    · obtain ⟨more, hmore⟩ := apart hbody
      cases hmore
      rfl

open Form in
/-- **What the grammar yields can be read.** -/
theorem Yields.recovers {f : Form} {ts : List Token} (h : Yields 1 f ts) (hnamed : f.WellNamed)
    {ls : List Lexeme} (hls : ls.map Lexeme.token = ts) : f.Recovers ls := by
  induction h generalizing ls with
  | number =>
    obtain ⟨sp, rfl⟩ := Lexeme.map_token_eq_singleton hls
    exact recovers_number
  | string =>
    obtain ⟨sp, rfl⟩ := Lexeme.map_token_eq_singleton hls
    exact recovers_string
  | constant =>
    obtain ⟨sp, rfl⟩ := Lexeme.map_token_eq_singleton hls
    exact recovers_constant
  | var =>
    obtain ⟨sp, rfl⟩ := Lexeme.map_token_eq_singleton hls
    exact recovers_var hnamed
  | parenthesized _ ih =>
    obtain ⟨sp, ms, sp', rfl, hms⟩ := Lexeme.map_token_eq_bracketed hls
    exact recovers_parenthesized (ih hnamed hms)
  | array _ ih =>
    obtain ⟨sp, ms, sp', rfl, hms⟩ := Lexeme.map_token_eq_bracketed hls
    exact recovers_array (ih hnamed hms)
  | object _ ih =>
    obtain ⟨sp, ms, sp', rfl, hms⟩ := Lexeme.map_token_eq_bracketed hls
    exact recovers_object (ih hnamed hms)
  | namedFunction _ ih =>
    obtain ⟨sp, tail, rfl, htail⟩ := Lexeme.map_token_eq_cons hls
    obtain ⟨sp', ms, rfl, hms⟩ := Lexeme.map_token_eq_cons htail
    exact recovers_namedFunction (hnamed.1 _ rfl) (ih hnamed.2 hms)
  | namelessFunction _ ih =>
    obtain ⟨sp, ms, rfl, hms⟩ := Lexeme.map_token_eq_cons hls
    exact recovers_namelessFunction (ih hnamed.2 hms)
  | ofPrimary _ ih => exact recovers_ofPrimary (ih hnamed hls)
  | member _ ih =>
    obtain ⟨ms, sp, tail, rfl, hms, htail⟩ := Lexeme.map_token_eq_append_cons hls
    obtain ⟨sp', rfl⟩ := Lexeme.map_token_eq_singleton htail
    exact recovers_member (ih hnamed hms)
  | index _ _ ih₁ ih₂ =>
    rw [List.append_assoc] at hls
    obtain ⟨ms, rest, rfl, hms, hrest⟩ := List.map_eq_append_iff.mp hls
    obtain ⟨sp, us, sp', rfl, hus⟩ := Lexeme.map_token_eq_bracketed hrest
    rw [← List.append_assoc]
    exact recovers_index (ih₁ hnamed.1 hms) (ih₂ hnamed.2 hus)
  | call _ _ ih₁ ih₂ =>
    rw [List.append_assoc] at hls
    obtain ⟨ms, rest, rfl, hms, hrest⟩ := List.map_eq_append_iff.mp hls
    obtain ⟨sp, us, sp', rfl, hus⟩ := Lexeme.map_token_eq_bracketed hrest
    rw [← List.append_assoc]
    exact recovers_call (ih₁ hnamed.1 hms) (ih₂ hnamed.2 hus)
  | ofAccess _ ih => exact recovers_ofAccess (ih hnamed hls)
  | sign _ ih =>
    obtain ⟨sp, ms, rfl, hms⟩ := Lexeme.map_token_eq_cons hls
    exact recovers_sign (ih hnamed hms)
  | ofOperand _ ih => exact recovers_ofOperand (ih hnamed hls)
  | connective op _ _ ih₁ ih₂ =>
    obtain ⟨hleft, hright⟩ := op.node_wellNamed.mp hnamed
    obtain ⟨ms, sp, us, rfl, hms, hus⟩ := Lexeme.map_token_eq_append_cons hls
    exact recovers_connective (ih₁ hleft hms) (ih₂ hright hus)
  | ofLogical h ih =>
    subst hls
    exact recovers_ofLogical (ih hnamed rfl) fun t ht more => h.opensAssignment nofun ht more
  | assignment _ ih =>
    obtain ⟨sp, tail, rfl, htail⟩ := Lexeme.map_token_eq_cons hls
    obtain ⟨sp', ms, rfl, hms⟩ := Lexeme.map_token_eq_cons htail
    exact recovers_assignment (ih hnamed hms)
  | listNone =>
    obtain rfl := List.map_eq_nil_iff.mp hls
    exact recovers_listNone
  | listSome h ih =>
    subst hls
    exact recovers_listSome h.items_beginsExpr (ih hnamed rfl)
  | itemsLast _ ih => exact recovers_itemsLast (ih hnamed.1 hls)
  | itemsMore _ _ ih₁ ih₂ =>
    obtain ⟨ms, sp, us, rfl, hms, hus⟩ := Lexeme.map_token_eq_append_cons hls
    exact recovers_itemsMore (ih₁ hnamed.1 hms) (ih₂ hnamed.2 hus)
  | propertiesNone =>
    obtain rfl := List.map_eq_nil_iff.mp hls
    exact recovers_propertiesNone
  | propertiesLast _ ih => exact recovers_propertiesLast (ih hnamed.1 hls)
  | propertiesMore _ _ ih₁ ih₂ =>
    obtain ⟨ms, sp, us, rfl, hms, hus⟩ := Lexeme.map_token_eq_append_cons hls
    exact recovers_propertiesMore (ih₁ hnamed.1 hms) (ih₂ hnamed.2 hus)
  | nameProperty _ ih =>
    obtain ⟨sp, tail, rfl, htail⟩ := Lexeme.map_token_eq_cons hls
    obtain ⟨sp', ms, rfl, hms⟩ := Lexeme.map_token_eq_cons htail
    exact recovers_nameProperty (ih hnamed hms)
  | stringProperty _ ih =>
    obtain ⟨sp, tail, rfl, htail⟩ := Lexeme.map_token_eq_cons hls
    obtain ⟨sp', ms, rfl, hms⟩ := Lexeme.map_token_eq_cons htail
    exact recovers_stringProperty (ih hnamed hms)
  | shorthand =>
    obtain ⟨sp, rfl⟩ := Lexeme.map_token_eq_singleton hls
    exact recovers_shorthand
  | function _ ih =>
    obtain ⟨free, distinct, hbody⟩ := hnamed
    obtain ⟨sp, tail, rfl, htail⟩ := Lexeme.map_token_eq_cons hls
    obtain ⟨ms, sp', us, rfl, hms, hus⟩ := Lexeme.map_token_eq_append_cons htail
    exact recovers_function hms free distinct (ih hbody hus)
  | block _ ih =>
    obtain ⟨sp, ms, sp', rfl, hms⟩ := Lexeme.map_token_eq_bracketed hls
    exact recovers_block (ih hnamed hms)
  | statementsNone =>
    obtain rfl := List.map_eq_nil_iff.mp hls
    exact recovers_statementsNone
  | semicolon _ ih =>
    obtain ⟨sp, ms, rfl, hms⟩ := Lexeme.map_token_eq_cons hls
    exact recovers_semicolon (ih hnamed hms)
  | statementsSome first more apart ih₁ ih₂ =>
    obtain ⟨ms, us, rfl, rfl, rfl⟩ := List.map_eq_append_iff.mp hls
    refine recovers_statementsSome (ih₁ hnamed.1 rfl) (ih₂ hnamed.2 rfl) ?_
      (more.statements_apart apart)
    obtain ⟨t, tokens, heq, ht⟩ := first.statement_front
    obtain ⟨sp, tail, rfl, -⟩ := Lexeme.map_token_eq_cons heq
    exact ⟨_, tail, rfl, ht⟩
  | declaration _ ih =>
    obtain ⟨sp, ms, rfl, hms⟩ := Lexeme.map_token_eq_cons hls
    exact recovers_declaration (ih hnamed.2 hms)
  | functionDeclaration _ ih =>
    obtain ⟨sp, tail, rfl, htail⟩ := Lexeme.map_token_eq_cons hls
    obtain ⟨sp', ms, rfl, hms⟩ := Lexeme.map_token_eq_cons htail
    exact recovers_functionDeclaration hnamed.1 (ih hnamed.2 hms)
  | conditionalStatement _ ih => exact recovers_conditionalStatement (ih hnamed hls)
  | loop _ _ ih₁ ih₂ =>
    obtain ⟨sp₁, sp₂, ms, sp₃, us, rfl, hms, hus⟩ := Lexeme.map_token_eq_condition hls
    exact recovers_loop (ih₁ hnamed.1 hms) (ih₂ hnamed.2 hus)
  | blockStatement _ ih => exact recovers_blockStatement (ih hnamed hls)
  | expressionStatement plain h ih =>
    subst hls
    exact recovers_expressionStatement h.beginsExpr plain (ih hnamed rfl)
  | conditional _ _ ih₁ ih₂ =>
    obtain ⟨sp₁, sp₂, ms, sp₃, us, rfl, hms, hus⟩ := Lexeme.map_token_eq_condition hls
    exact recovers_conditional (ih₁ hnamed.1 hms) (ih₂ hnamed.2.1 hus)
  | conditionalElse _ _ hb ih₁ ih₂ ih₃ =>
    obtain ⟨front, sp', vs, rfl, hfront, hvs⟩ := Lexeme.map_token_eq_append_cons hls
    obtain ⟨sp₁, sp₂, ms, sp₃, us, rfl, hms, hus⟩ := Lexeme.map_token_eq_condition hfront
    refine recovers_conditionalElse (ih₁ hnamed.1 hms) (ih₂ hnamed.2.1 hus)
      (ih₃ hnamed.2.2 hvs) ?_
    cases hb
    obtain ⟨sp, tail, rfl, -⟩ := Lexeme.map_token_eq_cons hvs
    exact ⟨sp, tail, rfl⟩
  | conditionalElseIf _ _ hc ih₁ ih₂ ih₃ =>
    obtain ⟨front, sp', vs, rfl, hfront, hvs⟩ := Lexeme.map_token_eq_append_cons hls
    obtain ⟨sp₁, sp₂, ms, sp₃, us, rfl, hms, hus⟩ := Lexeme.map_token_eq_condition hfront
    refine recovers_conditionalElseIf (ih₁ hnamed.1 hms) (ih₂ hnamed.2.1 hus)
      (ih₃ hnamed.2.2 hvs) ?_
    cases hc <;>
    · obtain ⟨sp, tail, rfl, -⟩ := Lexeme.map_token_eq_cons hvs
      exact ⟨sp, tail, rfl⟩
  | declaratorsLast _ ih => exact recovers_declaratorsLast (ih hnamed.1 hls)
  | declaratorsMore _ _ ih₁ ih₂ =>
    obtain ⟨ms, sp, us, rfl, hms, hus⟩ := Lexeme.map_token_eq_append_cons hls
    exact recovers_declaratorsMore (ih₁ hnamed.1 hms) (ih₂ hnamed.2 hus)
  | declaratorValue _ ih =>
    obtain ⟨sp, tail, rfl, htail⟩ := Lexeme.map_token_eq_cons hls
    obtain ⟨sp', ms, rfl, hms⟩ := Lexeme.map_token_eq_cons htail
    exact recovers_declaratorValue hnamed.1 (ih hnamed.2 hms)
  | declaratorPlain =>
    obtain ⟨sp, rfl⟩ := Lexeme.map_token_eq_singleton hls
    exact recovers_declaratorPlain hnamed.1

end Script
