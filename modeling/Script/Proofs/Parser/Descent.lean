import Script.Proofs.Parser.Reading
import Script.Proofs.Routine

/-!
# The parser reads what it yields

If the parser reaches a goal, the goal's phrase is read from the lexemes that were there before
(`reads_of_resolve`).  The descent is followed function by function: each lemma takes one function
of the parser apart, given that the goals it asks for are answered faithfully, and the induction on
the depth comes last.

Only one goal is asked for with something known to be in front: the parser does not look again at
the `if` of a conditional that it has just seen (`Goal.Ready`).
-/

namespace Script

/-- What the parser has seen in front when it asks for a goal. -/
def Goal.Ready : Goal → List Lexeme → Prop
  | .conditional, ls => ∃ sp tail, ls = ⟨.keyword .ifWord, sp⟩ :: tail
  | _, _ => True

namespace Parse

variable {reply : (goal : Goal) → List Lexeme →
  Option (Except ParseError goal.Result × List Lexeme)}
variable {α : Type} {a : α} {ls rest : List Lexeme}

/-! ## Single lexemes -/

/-- What has been looked at is still there. -/
theorem peek_bind_ok {f : Lexeme → Parse α}
    (h : ((peek >>= f) ls).answer reply = some (.ok a, rest)) :
    ∃ l tail, ls = l :: tail ∧ (f l (l :: tail)).answer reply = some (.ok a, rest) := by
  cases ls with
  | nil => cases h
  | cons l tail => exact ⟨l, tail, rfl, h⟩

theorem advance_bind_ok {f : Lexeme → Parse α}
    (h : ((advance >>= f) ls).answer reply = some (.ok a, rest)) :
    ∃ l tail, ls = l :: tail ∧ (f l tail).answer reply = some (.ok a, rest) := by
  cases ls with
  | nil => cases h
  | cons l tail => exact ⟨l, tail, rfl, h⟩

/-- A mark that was expected has been there. -/
theorem expect_bind_ok {mark : Symbol} {expectation : Expectation} {f : Lexeme → Parse α}
    (h : ((expect mark expectation >>= f) ls).answer reply = some (.ok a, rest)) :
    ∃ sp tail, ls = ⟨.symbol mark, sp⟩ :: tail ∧
      (f ⟨.symbol mark, sp⟩ tail).answer reply = some (.ok a, rest) := by
  obtain ⟨l, mid, hexpect, hnext⟩ := Action.answer_bind_ok h
  obtain ⟨⟨token, sp⟩, tail, rfl, htoken⟩ := peek_bind_ok hexpect
  split at htoken
  · next heq =>
    cases heq
    cases htoken
    exact ⟨sp, _, rfl, hnext⟩
  · cases htoken

/-- A name that is bound is not that of a constant. -/
theorem bindingName_bind_ok {f : String × Span → Parse α}
    (h : ((bindingName >>= f) ls).answer reply = some (.ok a, rest)) :
    ∃ name sp tail, ls = ⟨.identifier name, sp⟩ :: tail ∧ Constant.ofSpelling? name = none ∧
      (f (name, sp) tail).answer reply = some (.ok a, rest) := by
  obtain ⟨x, mid, hname, hnext⟩ := Action.answer_bind_ok h
  obtain ⟨⟨token, sp⟩, tail, rfl, htoken⟩ := peek_bind_ok hname
  dsimp only at htoken
  split at htoken
  · next name =>
    cases hc : Constant.ofSpelling? name with
    | some c => simp only [hc] at htoken; cases htoken
    | none =>
      simp only [hc] at htoken
      cases htoken
      exact ⟨name, sp, _, rfl, hc, hnext⟩
  · cases htoken

/-- What stands behind an item is a comma or the closing mark, and the comma is looked for first. -/
theorem separator_bind_ok {closing : Symbol} {f : Option Span → Parse α}
    (h : ((separator closing >>= f) ls).answer reply = some (.ok a, rest)) :
    (∃ sp tail, ls = ⟨.symbol .comma, sp⟩ :: tail ∧
      (f none tail).answer reply = some (.ok a, rest)) ∨
    ∃ sp tail, closing ≠ .comma ∧ ls = ⟨.symbol closing, sp⟩ :: tail ∧
      (f (some sp) tail).answer reply = some (.ok a, rest) := by
  obtain ⟨x, mid, hsep, hnext⟩ := Action.answer_bind_ok h
  obtain ⟨⟨token, sp⟩, tail, rfl, htoken⟩ := advance_bind_ok hsep
  dsimp only at htoken
  split at htoken
  · next heq =>
    subst heq
    cases htoken
    exact .inl ⟨sp, _, rfl, hnext⟩
  split at htoken
  · next hne heq =>
    subst heq
    cases htoken
    exact .inr ⟨sp, _, fun hc => hne (by rw [hc]), rfl, hnext⟩
  · cases htoken

/-! ## Goals -/

/-- The replies to the goals that are asked for read what they yield. -/
def Faithful
    (reply : (goal : Goal) → List Lexeme → Option (Except ParseError goal.Result × List Lexeme)) :
    Prop :=
  ∀ goal ls r rest, goal.Ready ls → reply goal ls = some (.ok r, rest) →
    Reads (.ofGoal goal r) ls rest

variable (hf : Faithful reply)
include hf

/-- A goal that was asked for has been read, and the work goes on behind it. -/
theorem reach_bind_ok (goal : Goal) {f : goal.Result → Parse α} (ready : goal.Ready ls)
    (h : ((reach goal >>= f) ls).answer reply = some (.ok a, rest)) :
    ∃ r mid, Reads (.ofGoal goal r) ls mid ∧ (f r mid).answer reply = some (.ok a, rest) := by
  obtain ⟨r, mid, hgoal, hnext⟩ := Action.answer_bind_ok h
  exact ⟨r, mid, hf goal ls r mid ready hgoal, hnext⟩

/-- The operands of a level are of the next tighter one. -/
theorem operand_bind_ok {l : Level} {f : Expr → Parse α}
    (h : ((operand l >>= f) ls).answer reply = some (.ok a, rest)) :
    ∃ e mid, Reads (.operand l e) ls mid ∧ (f e mid).answer reply = some (.ok a, rest) := by
  cases l with
  | logical => exact reach_bind_ok hf (.level .comparison) trivial h
  | comparison => exact reach_bind_ok hf (.level .additive) trivial h
  | additive => exact reach_bind_ok hf (.level .multiplicative) trivial h
  | multiplicative => exact reach_bind_ok hf .unary trivial h

/-- Arguments may be assignments, elements may not. -/
theorem item_bind_ok {kind : Item} {f : Expr → Parse α}
    (h : ((item kind >>= f) ls).answer reply = some (.ok a, rest)) :
    ∃ e mid, Reads (.item kind e) ls mid ∧ (f e mid).answer reply = some (.ok a, rest) := by
  cases kind with
  | argument => exact reach_bind_ok hf .expression trivial h
  | element => exact reach_bind_ok hf (.level .logical) trivial h

/-- A condition has been read between its parentheses. -/
theorem condition_bind_ok {word : Keyword} {f : Expr → Parse α}
    (h : ((condition word >>= f) ls).answer reply = some (.ok a, rest)) :
    ∃ e sp₁ sp₂ tail mid, ls = ⟨.symbol .leftParen, sp₁⟩ :: tail ∧
      Reads (.expression e) tail (⟨.symbol .rightParen, sp₂⟩ :: mid) ∧
      (f e mid).answer reply = some (.ok a, rest) := by
  obtain ⟨e, s, hcondition, hnext⟩ := Action.answer_bind_ok h
  obtain ⟨sp₁, tail, rfl, hinner⟩ := expect_bind_ok hcondition
  obtain ⟨e', mid, he, hclose⟩ := reach_bind_ok hf .expression trivial hinner
  obtain ⟨sp₂, mid', rfl, hdone⟩ := expect_bind_ok hclose
  cases hdone
  exact ⟨_, sp₁, sp₂, tail, _, rfl, he, hnext⟩

/-! ## Lists -/

/-- Behind an item, a comma asks for more items. -/
theorem items_ok {kind : Item} {closing : Symbol} {x : List Expr × Span}
    (h : (items kind closing ls).answer reply = some (.ok x, rest)) :
    Reads (.items kind closing x.1 x.2) ls rest := by
  obtain ⟨e, mid, he, hsep⟩ := item_bind_ok hf h
  rcases separator_bind_ok hsep with ⟨sp, tail, rfl, hmore⟩ | ⟨sp, tail, hne, rfl, hdone⟩
  · obtain ⟨r, s, hr, hdone⟩ := reach_bind_ok hf (.items kind closing) trivial hmore
    cases hdone
    exact .itemsMore he hr
  · cases hdone
    exact .itemsLast hne he

/-- A list is empty if the closing mark comes first. -/
theorem list_ok {kind : Item} {closing : Symbol} {x : List Expr × Span}
    (h : (list kind closing ls).answer reply = some (.ok x, rest)) :
    Reads (.list kind closing x.1 x.2) ls rest := by
  obtain ⟨⟨token, sp⟩, tail, rfl, hrest⟩ := peek_bind_ok h
  split at hrest
  · next heq =>
    cases heq
    cases hrest
    exact .listNone
  · next hne => exact .listSome hne (hf (.items kind closing) _ _ _ trivial hrest)

theorem list_bind_ok {kind : Item} {closing : Symbol} {f : List Expr × Span → Parse α}
    (h : ((list kind closing >>= f) ls).answer reply = some (.ok a, rest)) :
    ∃ es close mid, Reads (.list kind closing es close) ls mid ∧
      (f (es, close) mid).answer reply = some (.ok a, rest) := by
  obtain ⟨x, mid, hlist, hnext⟩ := Action.answer_bind_ok h
  exact ⟨x.1, x.2, mid, list_ok hf hlist, hnext⟩

theorem parameters_ok {names : List (String × Span)}
    (h : (parameters ls).answer reply = some (.ok names, rest)) :
    Reads (.parameters names) ls rest := by
  obtain ⟨name, sp, tail, rfl, free, hsep⟩ := bindingName_bind_ok h
  rcases separator_bind_ok hsep with ⟨sp', tail, rfl, hmore⟩ | ⟨sp', tail, -, rfl, hdone⟩
  · obtain ⟨r, s, hr, hdone⟩ := reach_bind_ok hf .parameters trivial hmore
    cases hdone
    exact .parametersMore free hr
  · cases hdone
    exact .parametersLast free

theorem parameterList_ok {names : List (String × Span)}
    (h : (parameterList ls).answer reply = some (.ok names, rest)) :
    Reads (.parameterList names) ls rest := by
  obtain ⟨⟨token, sp⟩, tail, rfl, hrest⟩ := peek_bind_ok h
  split at hrest
  · next heq =>
    cases heq
    cases hrest
    exact .parameterListNone
  · exact .parameterListSome (hf .parameters _ _ _ trivial hrest)

/-! ## Blocks and functions -/

omit hf in
/-- Semicolons in front of a block's statements are passed over one by one. -/
theorem reads_braced_of_dropWhile {body : List Stmt} {close : Span}
    (h : Reads (.braced body close) (ls.dropWhile fun l => l.token = .symbol .semicolon) rest) :
    Reads (.braced body close) ls rest := by
  induction ls with
  | nil => exact h
  | cons l ls ih =>
    obtain ⟨token, sp⟩ := l
    by_cases hs : token = .symbol .semicolon
    · subst hs
      exact .bracedSemicolon (ih h)
    · simpa [hs] using h

omit hf in
/-- Semicolons in front of a program's statements are passed over one by one. -/
theorem reads_program_of_dropWhile {body : List Stmt}
    (h : Reads (.program body) (ls.dropWhile fun l => l.token = .symbol .semicolon) rest) :
    Reads (.program body) ls rest := by
  induction ls with
  | nil => exact h
  | cons l ls ih =>
    obtain ⟨token, sp⟩ := l
    by_cases hs : token = .symbol .semicolon
    · subst hs
      exact .programSemicolon (ih h)
    · simpa [hs] using h

omit hf in
/-- The lexeme behind all semicolons is none. -/
theorem ne_semicolon_of_dropWhile {l : Lexeme} {tail : List Lexeme}
    (h : (ls.dropWhile fun l => l.token = .symbol .semicolon) = l :: tail) :
    l.token ≠ .symbol .semicolon := by
  have hhead := List.head?_dropWhile_not (fun l : Lexeme => l.token = .symbol .semicolon) ls
  rw [h] at hhead
  simpa using hhead

/-- Behind all semicolons stands the closing brace or a statement. -/
theorem braced_ok {x : List Stmt × Span} (h : (braced ls).answer reply = some (.ok x, rest)) :
    Reads (.braced x.1 x.2) ls rest := by
  apply reads_braced_of_dropWhile
  obtain ⟨⟨token, sp⟩, tail, hls, hrest⟩ := peek_bind_ok
    (show ((peek >>= _) (ls.dropWhile fun l => l.token = .symbol .semicolon)).answer _ = _ from h)
  have hsemi := ne_semicolon_of_dropWhile hls
  rw [hls]
  dsimp only at hrest
  split at hrest
  · cases hrest
    exact .bracedClose
  · cases hrest
  · next hbrace hend =>
    obtain ⟨s, mid, hs, hmore⟩ := reach_bind_ok hf .statement trivial hrest
    obtain ⟨r, mid', hr, hdone⟩ := reach_bind_ok hf .braced trivial hmore
    cases hdone
    exact .bracedStatement hsemi hbrace hend hs hr

theorem block_bind_ok {f : Block → Parse α}
    (h : ((block >>= f) ls).answer reply = some (.ok a, rest)) :
    ∃ b mid, Reads (.block b) ls mid ∧ (f b mid).answer reply = some (.ok a, rest) := by
  obtain ⟨b, mid, hblock, hnext⟩ := Action.answer_bind_ok h
  obtain ⟨sp, tail, rfl, hbody⟩ := expect_bind_ok hblock
  obtain ⟨x, mid', hx, hdone⟩ := reach_bind_ok hf .braced trivial hbody
  cases hdone
  exact ⟨_, _, .block hx, hnext⟩

/-- A function has been read only if no two of its parameters have the same name. -/
theorem function_bind_ok {keyword : Lexeme} {f : Function → Parse α}
    (h : ((function keyword >>= f) ls).answer reply = some (.ok a, rest)) :
    ∃ g mid, Reads (.function keyword.span g) ls mid ∧
      (f g mid).answer reply = some (.ok a, rest) := by
  obtain ⟨g, mid, hfunction, hnext⟩ := Action.answer_bind_ok h
  obtain ⟨sp, tail, rfl, hnames⟩ := expect_bind_ok hfunction
  obtain ⟨names, mid', hparameters, hbody⟩ := Action.answer_bind_ok hnames
  cases hdistinct : firstRepeat? [] names with
  | some x => simp only [hdistinct] at hbody; cases hbody
  | none =>
    simp only [hdistinct] at hbody
    obtain ⟨b, mid'', hb, hdone⟩ := block_bind_ok hf hbody
    cases hdone
    exact ⟨_, _, .function (parameterList_ok hf hparameters) hdistinct hb, hnext⟩

/-- A name behind the keyword is kept. -/
theorem functionExpression_ok {sp : Span} {e : Expr}
    (h : (functionExpression (⟨.keyword .functionWord, sp⟩ :: ls)).answer reply =
      some (.ok e, rest)) : Reads (.primary e) (⟨.keyword .functionWord, sp⟩ :: ls) rest := by
  obtain ⟨⟨token, sp'⟩, tail, rfl, hname⟩ :=
    peek_bind_ok (show ((peek >>= _) _).answer _ = _ from h)
  dsimp only at hname
  split at hname
  · obtain ⟨name, sp'', tail', heq, free, hbody⟩ := bindingName_bind_ok hname
    obtain ⟨g, mid, hg, hdone⟩ := function_bind_ok hf hbody
    cases heq
    cases hdone
    exact .namedFunction free hg
  · obtain ⟨g, mid, hg, hdone⟩ := function_bind_ok hf hname
    cases hdone
    exact .namelessFunction hg

theorem functionDeclaration_ok {sp : Span} {s : Stmt}
    (h : (functionDeclaration (⟨.keyword .functionWord, sp⟩ :: ls)).answer reply =
      some (.ok s, rest)) : Reads (.statement s) (⟨.keyword .functionWord, sp⟩ :: ls) rest := by
  obtain ⟨name, sp', tail, rfl, free, hbody⟩ :=
    bindingName_bind_ok (show ((bindingName >>= _) _).answer _ = _ from h)
  obtain ⟨g, mid, hg, hdone⟩ := function_bind_ok hf hbody
  cases hdone
  exact .functionDeclaration free hg

/-! ## Expressions -/

omit hf in
/-- Only the mark of an operator is taken for it. -/
theorem eq_symbol_of_assignOp? {token : Token} {op : AssignOp} (h : token.assignOp? = some op) :
    token = .symbol op.symbol := by
  cases token with
  | symbol mark => cases mark <;> cases h <;> rfl
  | _ => cases h

omit hf in
theorem eq_symbol_of_connective? {token : Token} {l : Level} {op : Connective}
    (h : token.connective? l = some op) : op.level = l ∧ token = .symbol op.symbol := by
  cases token with
  | symbol mark =>
    obtain ⟨hop, hlevel⟩ := Option.filter_eq_some_iff.mp h
    refine ⟨of_decide_eq_true hlevel, ?_⟩
    cases mark <;> cases hop <;> rfl
  | _ => cases h

omit hf in
theorem eq_symbol_of_unaryOp? {token : Token} {op : UnaryOp} (h : token.unaryOp? = some op) :
    token = .symbol op.symbol := by
  cases token with
  | symbol mark => cases mark <;> cases h <;> rfl
  | _ => cases h

/-- Two lexemes decide whether an expression is an assignment. -/
theorem assignment_ok {e : Expr} (h : (assignment ls).answer reply = some (.ok e, rest)) :
    Reads (.expression e) ls rest := by
  cases hassign : assignment? ls with
  | none =>
    rw [assignment_of_none hassign] at h
    exact .value hassign (hf (.level .logical) _ _ _ trivial h)
  | some x =>
    obtain ⟨name, sp, op, tail⟩ := x
    rw [assignment_of_some hassign] at h
    obtain ⟨⟨token, sp'⟩, rfl, hop⟩ := exists_of_assignment? hassign
    cases eq_symbol_of_assignOp? hop
    obtain ⟨value, mid, hvalue, hdone⟩ := reach_bind_ok hf .expression trivial h
    cases hdone
    exact .assignment hvalue

/-- An operator of this level asks for its right operand, any other lexeme ends the chain. -/
theorem chainStep_ok {l : Level} {left e : Expr}
    (h : (chainStep l left ls).answer reply = some (.ok e, rest)) :
    Reads (.chain l left e) ls rest := by
  cases hop : ls.head?.bind fun lexeme => lexeme.token.connective? l with
  | none =>
    rw [chainStep_of_none hop] at h
    cases h
    exact .chainEnd hop
  | some op =>
    rw [chainStep_of_some hop] at h
    obtain ⟨⟨token, sp⟩, hhead, htoken⟩ := Option.bind_eq_some_iff.mp hop
    obtain ⟨tail, rfl⟩ := List.head?_eq_some_iff.mp hhead
    obtain ⟨hlevel, rfl⟩ := eq_symbol_of_connective? htoken
    rw [skip_bind] at h
    obtain ⟨right, mid, hright, hmore⟩ := operand_bind_ok hf h
    exact .chainOperator hlevel hright (hf (.chain l (op.join left right)) _ _ _ trivial hmore)

theorem property_bind_ok {key : String} {sp : Span} {f : Property → Parse α}
    (h : ((properties.keyed key sp >>= f) ls).answer reply = some (.ok a, rest)) :
    ∃ e sp' tail mid, ls = ⟨.symbol .colon, sp'⟩ :: tail ∧ Reads (.expression e) tail mid ∧
      (f (.keyed key e (sp.join e.span)) mid).answer reply = some (.ok a, rest) := by
  obtain ⟨p, mid, hkeyed, hnext⟩ := Action.answer_bind_ok h
  obtain ⟨sp', tail, rfl, hvalue⟩ := expect_bind_ok hkeyed
  obtain ⟨e, mid', he, hdone⟩ := reach_bind_ok hf .expression trivial hvalue
  cases hdone
  exact ⟨e, sp', tail, _, rfl, he, hnext⟩

omit hf in
/-- A closing brace in front ends the entries of an object literal. -/
theorem reads_properties_brace {ps : List Property} {sp close : Span}
    (h : Reads (.properties ps close) (⟨.symbol .rightBrace, sp⟩ :: ls) rest) :
    ps = [] ∧ close = sp ∧ rest = ls := by
  cases h with
  | propertiesNone => exact ⟨rfl, rfl, rfl⟩
  | propertiesLast hp => cases hp
  | propertiesMore hp _ => cases hp

/-- Behind an entry stands a comma, or the closing brace is read as the end of the entries. -/
theorem more_ok {p : Property} {mid : List Lexeme} {x : List Property × Span}
    (hp : Reads (.property p) ls mid)
    (h : (properties.more p mid).answer reply = some (.ok x, rest)) :
    Reads (.properties x.1 x.2) ls rest := by
  obtain ⟨⟨token, sp⟩, tail, rfl, hrest⟩ := peek_bind_ok h
  dsimp only at hrest
  split at hrest
  · obtain ⟨r, mid', hr, hdone⟩ := reach_bind_ok hf .properties trivial
      (show ((reach .properties >>= _) tail).answer _ = _ from hrest)
    cases hdone
    exact .propertiesMore hp hr
  · obtain ⟨r, mid', hr, hdone⟩ := reach_bind_ok hf .properties trivial hrest
    cases hdone
    obtain ⟨hps, rfl, rfl⟩ := reads_properties_brace hr
    rw [hps]
    exact .propertiesLast hp
  · cases hrest

/-- A name without a colon behind it is a shorthand. -/
theorem properties_ok {x : List Property × Span}
    (h : (properties ls).answer reply = some (.ok x, rest)) :
    Reads (.properties x.1 x.2) ls rest := by
  obtain ⟨⟨token, sp⟩, tail, rfl, hrest⟩ := advance_bind_ok h
  dsimp only at hrest
  split at hrest
  · cases hrest
    exact .propertiesNone
  · next name =>
    obtain ⟨⟨token', sp'⟩, tail', rfl, hcolon⟩ := peek_bind_ok hrest
    split at hcolon
    · obtain ⟨e, sp'', tail'', mid, heq, he, hmore⟩ := property_bind_ok hf hcolon
      cases heq
      exact more_ok hf (.nameProperty he) hmore
    · next hne => exact more_ok hf (.shorthand hne) hcolon
  · next key =>
    obtain ⟨e, sp', tail', mid, rfl, he, hmore⟩ := property_bind_ok hf hrest
    exact more_ok hf (.stringProperty he) hmore
  · cases hrest

theorem primary_ok {e : Expr} (h : (primary ls).answer reply = some (.ok e, rest)) :
    Reads (.primary e) ls rest := by
  obtain ⟨⟨token, sp⟩, tail, rfl, hrest⟩ := peek_bind_ok h
  dsimp only at hrest
  split at hrest
  · cases hrest
    exact .number
  · cases hrest
    exact .string
  · next name =>
    rw [skip_bind] at hrest
    cases hname : Constant.ofSpelling? name with
    | some c =>
      rw [hname] at hrest
      cases hrest
      exact .constant hname
    | none =>
      rw [hname] at hrest
      cases hrest
      exact .var hname
  · obtain ⟨e', mid, he, hclose⟩ := reach_bind_ok hf .expression trivial
      (show ((reach .expression >>= _) tail).answer _ = _ from hrest)
    obtain ⟨sp', mid', rfl, hdone⟩ := expect_bind_ok hclose
    cases hdone
    exact .parenthesized he
  · obtain ⟨es, close, mid, hes, hdone⟩ := list_bind_ok hf
      (show ((list .element .rightBracket >>= _) tail).answer _ = _ from hrest)
    cases hdone
    exact .array hes
  · obtain ⟨x, mid, hx, hdone⟩ := reach_bind_ok hf .properties trivial
      (show ((reach .properties >>= _) tail).answer _ = _ from hrest)
    cases hdone
    exact .object hx
  · exact functionExpression_ok hf hrest
  · cases hrest
  · cases hrest

/-- A sign is read first; without one, a primary expression and its accesses. -/
theorem unary_ok {e : Expr} (h : (unary ls).answer reply = some (.ok e, rest)) :
    Reads (.unary e) ls rest := by
  obtain ⟨⟨token, sp⟩, tail, rfl, hrest⟩ := peek_bind_ok h
  cases hop : token.unaryOp? with
  | some op =>
    simp only [hop] at hrest
    cases eq_symbol_of_unaryOp? hop
    obtain ⟨e', mid, he, hdone⟩ := reach_bind_ok hf .unary trivial
      (show ((reach .unary >>= _) tail).answer _ = _ from hrest)
    cases hdone
    exact .sign he
  | none =>
    simp only [hop] at hrest
    obtain ⟨e', mid, hprimary, hmore⟩ := Action.answer_bind_ok hrest
    exact .accessed (primary_ok hf hprimary) (hf (.access e') _ _ _ trivial hmore)

/-- A dot, a bracket or a parenthesis goes on with an access, any other lexeme ends it. -/
theorem accessStep_ok {e e' : Expr} (h : (accessStep e ls).answer reply = some (.ok e', rest)) :
    Reads (.access e e') ls rest := by
  obtain ⟨⟨token, sp⟩, tail, rfl, hrest⟩ := peek_bind_ok h
  dsimp only at hrest
  split at hrest
  · obtain ⟨⟨token', sp'⟩, tail', rfl, hname⟩ := advance_bind_ok
      (show ((advance >>= _) tail).answer _ = _ from hrest)
    dsimp only at hname
    split at hname
    · next name => exact .member (hf (.access _) _ _ _ trivial hname)
    · cases hname
  · obtain ⟨key, mid, hkey, hclose⟩ := reach_bind_ok hf .expression trivial
      (show ((reach .expression >>= _) tail).answer _ = _ from hrest)
    obtain ⟨sp', mid', rfl, hmore⟩ := expect_bind_ok hclose
    exact .index hkey (hf (.access _) _ _ _ trivial hmore)
  · obtain ⟨es, close, mid, hes, hmore⟩ := list_bind_ok hf
      (show ((list .argument .rightParen >>= _) tail).answer _ = _ from hrest)
    exact .call hes (hf (.access _) _ _ _ trivial hmore)
  · next hdot hbracket hparen =>
    cases hrest
    refine .accessEnd ?_
    dsimp only
    unfold opensAccess
    split
    · exact absurd rfl hdot
    · exact absurd rfl hbracket
    · exact absurd rfl hparen
    · rfl

/-! ## Statements -/

/-- A declarator without a value has the value `undefined`. -/
theorem initial_ok {name : String} {sp : Span} {value : Expr}
    (free : Constant.ofSpelling? name = none)
    (h : (declarators.initial sp ls).answer reply = some (.ok value, rest)) :
    Reads (.declarator ⟨name, value, sp.join value.span⟩) (⟨.identifier name, sp⟩ :: ls) rest := by
  obtain ⟨⟨token, sp'⟩, tail, rfl, hrest⟩ := peek_bind_ok h
  split at hrest
  · next heq =>
    cases heq
    exact .declaratorValue free (hf .expression _ _ _ trivial hrest)
  · next hne =>
    cases hrest
    exact .declaratorPlain free hne

theorem declarators_ok {ds : List Declarator}
    (h : (declarators ls).answer reply = some (.ok ds, rest)) :
    Reads (.declarators ds) ls rest := by
  obtain ⟨name, sp, tail, rfl, free, hvalue⟩ := bindingName_bind_ok h
  obtain ⟨value, mid, hinitial, hnext⟩ := Action.answer_bind_ok hvalue
  have hd := initial_ok hf free hinitial
  obtain ⟨⟨token, sp'⟩, tail', rfl, hrest⟩ := peek_bind_ok hnext
  split at hrest
  · next heq =>
    cases heq
    obtain ⟨r, mid', hr, hdone⟩ := reach_bind_ok hf .declarators trivial
      (show ((reach .declarators >>= _) tail').answer _ = _ from hrest)
    cases hdone
    exact .declaratorsMore hd hr
  · next hne =>
    cases hrest
    exact .declaratorsLast hd hne

theorem declaration_ok (kind : DeclarationKind) {sp : Span} {s : Stmt}
    (h : (declaration kind (⟨.keyword kind.word, sp⟩ :: ls)).answer reply = some (.ok s, rest)) :
    Reads (.statement s) (⟨.keyword kind.word, sp⟩ :: ls) rest := by
  obtain ⟨ds, mid, hds, hdone⟩ := reach_bind_ok hf .declarators trivial
    (show ((reach .declarators >>= _) ls).answer _ = _ from h)
  cases hdone
  exact .declaration hds

/-- Behind `else`, the keyword `if` is seen and not taken. -/
theorem conditional_ok {sp : Span} {c : Conditional}
    (h : (conditional (⟨.keyword .ifWord, sp⟩ :: ls)).answer reply = some (.ok c, rest)) :
    Reads (.conditional c) (⟨.keyword .ifWord, sp⟩ :: ls) rest := by
  obtain ⟨e, sp₁, sp₂, tail, mid, rfl, he, hblock⟩ := condition_bind_ok hf
    (show ((condition .ifWord >>= _) ls).answer _ = _ from h)
  obtain ⟨b, mid', hb, helse⟩ := block_bind_ok hf hblock
  obtain ⟨⟨token, sp₃⟩, ms, rfl, hrest⟩ := peek_bind_ok helse
  split at hrest
  · next heq =>
    cases heq
    obtain ⟨⟨token', sp₄⟩, ms', rfl, hif⟩ := peek_bind_ok
      (show ((peek >>= _) ms).answer _ = _ from hrest)
    split at hif
    · next heq =>
      cases heq
      obtain ⟨c', mid'', hc, hdone⟩ := reach_bind_ok hf .conditional ⟨_, _, rfl⟩ hif
      cases hdone
      exact .conditionalElseIf he hb hc
    · next hne =>
      obtain ⟨b', mid'', hb', hdone⟩ := block_bind_ok hf hif
      cases hdone
      exact .conditionalElse he hb hne hb'
  · next hne =>
    cases hrest
    exact .conditional he hb hne

theorem loop_ok {sp : Span} {s : Stmt}
    (h : (loop (⟨.keyword .whileWord, sp⟩ :: ls)).answer reply = some (.ok s, rest)) :
    Reads (.statement s) (⟨.keyword .whileWord, sp⟩ :: ls) rest := by
  obtain ⟨e, sp₁, sp₂, tail, mid, rfl, he, hblock⟩ := condition_bind_ok hf
    (show ((condition .whileWord >>= _) ls).answer _ = _ from h)
  obtain ⟨b, mid', hb, hdone⟩ := block_bind_ok hf hblock
  cases hdone
  exact .loop he hb

theorem expressionStatement_ok {s : Stmt} (plain : opensStatement ls = false)
    (h : ((expression >>= fun e => pure (.expr e) : Parse Stmt) ls).answer reply =
      some (.ok s, rest)) : Reads (.statement s) ls rest := by
  obtain ⟨e, mid, he, hdone⟩ := reach_bind_ok hf .expression trivial h
  cases hdone
  exact .expressionStatement plain he

omit hf in
/-- The keyword opens a statement only if a name is behind it. -/
theorem opensStatement_function {sp : Span}
    (h : ¬ nameIsSecond (⟨.keyword .functionWord, sp⟩ :: ls)) :
    opensStatement (⟨.keyword .functionWord, sp⟩ :: ls) = false := by
  cases ls with
  | nil => rfl
  | cons l tail =>
    obtain ⟨token, sp'⟩ := l
    cases token with
    | identifier name => exact absurd rfl h
    | _ => rfl

/-- The first lexeme decides what kind of statement it is, and for functions the second. -/
theorem statementBody_ok {s : Stmt} (h : (statementBody ls).answer reply = some (.ok s, rest)) :
    Reads (.statement s) ls rest := by
  obtain ⟨⟨token, sp⟩, tail, rfl, hrest⟩ := peek_bind_ok h
  dsimp only at hrest
  split at hrest
  · exact declaration_ok hf .letKind hrest
  · exact declaration_ok hf .varKind hrest
  · replace hrest : ((if nameIsSecond (⟨.keyword .functionWord, sp⟩ :: tail) then
      functionDeclaration else expression >>= fun e => pure (.expr e) : Parse Stmt)
        (⟨.keyword .functionWord, sp⟩ :: tail)).answer reply = some (.ok s, rest) := hrest
    split at hrest
    · exact functionDeclaration_ok hf hrest
    · next hsecond =>
      exact expressionStatement_ok hf (opensStatement_function hsecond) hrest
  · obtain ⟨c, mid, hc, hdone⟩ := reach_bind_ok hf .conditional ⟨_, _, rfl⟩ hrest
    cases hdone
    exact .conditionalStatement hc
  · exact loop_ok hf hrest
  · obtain ⟨b, mid, hb, hdone⟩ := block_bind_ok hf hrest
    cases hdone
    exact .blockStatement hb
  · next hlet hvar hfunction hif hwhile hbrace =>
    refine expressionStatement_ok hf ?_ hrest
    unfold opensStatement
    split
    all_goals simp_all

theorem program_ok {body : List Stmt} (h : (program ls).answer reply = some (.ok body, rest)) :
    Reads (.program body) ls rest := by
  apply reads_program_of_dropWhile
  unfold program at h
  rw [skipSemicolons_bind, Action.get_bind] at h
  cases hls : ls.dropWhile fun l => l.token = .symbol .semicolon with
  | nil =>
    rw [hls] at h
    cases h
    exact .programDry
  | cons l tail =>
    have hsemi := ne_semicolon_of_dropWhile hls
    rw [hls] at h
    obtain ⟨token, sp⟩ := l
    cases token with
    | endOfFile =>
      cases h
      exact .programEnd
    | _ =>
      obtain ⟨s, mid, hs, hmore⟩ := reach_bind_ok hf .statement trivial h
      obtain ⟨r, mid', hr, hdone⟩ := reach_bind_ok hf .program trivial hmore
      cases hdone
      exact .programStatement hsemi nofun hs hr

omit hf in
/-- **What a goal yields has been read.**  By induction on the depth: the functions of the parser
are faithful if the goals that they ask for are. -/
theorem reads_of_resolve {depth : Nat} {goal : Goal} {r : goal.Result} (ready : goal.Ready ls)
    (h : Routine.resolve body depth goal ls = some (.ok r, rest)) :
    Reads (.ofGoal goal r) ls rest := by
  induction depth generalizing goal ls rest with
  | zero => cases h
  | succ depth ih =>
    have hf : Faithful (Routine.resolve body depth) := fun goal ls r rest => ih
    change (body goal ls).answer _ = _ at h
    cases goal with
    | program => exact program_ok hf h
    | braced => exact braced_ok hf h
    | statement => exact statementBody_ok hf h
    | conditional =>
      obtain ⟨sp, tail, rfl⟩ := ready
      exact conditional_ok hf h
    | declarators => exact declarators_ok hf h
    | expression => exact assignment_ok hf h
    | level l =>
      obtain ⟨left, mid, hleft, hmore⟩ := operand_bind_ok hf h
      exact .level hleft (hf (.chain l left) _ _ _ trivial hmore)
    | chain l left => exact chainStep_ok hf h
    | unary => exact unary_ok hf h
    | access operand => exact accessStep_ok hf h
    | items kind closing => exact items_ok hf h
    | parameters => exact parameters_ok hf h
    | properties => exact properties_ok hf h

omit hf in
/-- A list of lexemes that is read as a program has been read as one. -/
theorem reads_of_run {body : List Stmt} (h : run ls = .ok body) :
    ∃ rest, Reads (.program body) ls rest := by
  unfold run at h
  split at h
  · next outcome mid hperform =>
    subst h
    obtain ⟨depth, hdepth⟩ := Routine.perform_eq_some_iff.mp ⟨_, hperform⟩
    exact ⟨mid, reads_of_resolve (show Goal.Ready .program ls from trivial) hdepth⟩
  · cases h

end Parse

end Script
