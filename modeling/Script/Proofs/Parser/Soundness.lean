import Script.Proofs.Parser.Descent

/-!
# The parser keeps to the grammar

What the parser reads is a way to write down what it yields.  Each phrase of a reading stands for a
form of the grammar, or for a form with something missing: an operand that still takes operators
behind it, a list without its opening bracket (`Phrase.Means`).  A reading takes tokens that mean
its phrase and leaves all others as they are (`Reads.means`), and a program ends only where the file
does.
-/

namespace Script

open Token

/-- The tokens are a way to write the form down, and its names may stand where they stand. -/
structure Form.Written (f : Form) (ts : List Token) : Prop where
  yields : Yields 0 f ts
  named : f.WellNamed

/-- The tokens are a way to write the form down, with one mark more behind it. -/
def Form.WrittenBefore (f : Form) (mark : Symbol) (ts : List Token) : Prop :=
  ∃ us, ts = us ++ [symbol mark] ∧ f.Written us

/-- What the tokens that are taken for a phrase must be. -/
def Phrase.Means : Phrase → List Token → Prop
  | program body, ts => (Form.statements body).Written ts
  | braced body _, ts => (Form.statements body).WrittenBefore .rightBrace ts
  | block b, ts => (Form.block b).Written ts
  | statement s, ts => (Form.statement s).Written ts
  | conditional c, ts => (Form.conditional c).Written ts
  | declarators ds, ts => (Form.declarators ds).Written ts
  | declarator d, ts => (Form.declarator d).Written ts
  | function _ f, ts => (Form.function f).Written ts
  | parameterList names, ts | parameters names, ts =>
    ts = Token.names (names.map Prod.fst) ++ [symbol .rightParen] ∧ ∀ x ∈ names, Free x.1
  | expression e, ts => (Form.expr .assignment e).Written ts
  | level l e, ts => (Form.expr (.level l) e).Written ts
  | chain l left e, ts => ∀ us, (Form.expr (.level l) left).Written us →
      (Form.expr (.level l) e).Written (us ++ ts)
  | unary e, ts => (Form.expr .sign e).Written ts
  | primary e, ts => (Form.expr .primary e).Written ts
  | access left e, ts => ∀ us, (Form.expr .access left).Written us →
      (Form.expr .access e).Written (us ++ ts)
  | list kind closing es _, ts => (Form.list kind.rank es).WrittenBefore closing ts
  | items kind closing es _, ts => (Form.items kind.rank es).WrittenBefore closing ts
  | properties ps _, ts => (Form.properties ps).WrittenBefore .rightBrace ts
  | property p, ts => (Form.property p).Written ts

theorem Constant.eq_spelling_of_ofSpelling? {name : String} {c : Constant}
    (h : ofSpelling? name = some c) : name = c.spelling := by
  unfold ofSpelling? at h
  split at h <;> cases h <;> rfl

theorem Connective.join_eq_node (op : Connective) (left right : Expr) :
    op.join left right = op.node left right (left.span.join right.span) := by
  cases op <;> rfl

/-- Where the lookahead finds no statement, the tokens that are taken do not begin one. -/
theorem Parse.opensStatement_tokens {ls : List Lexeme} {ts us : List Token}
    (h : Parse.opensStatement ls = false) (heq : ls.map Lexeme.token = ts ++ us) :
    Token.opensStatement ts = false := by
  cases hts : Token.opensStatement ts with
  | false => rfl
  | true =>
    exfalso
    unfold Token.opensStatement at hts
    split at hts
    · rw [List.cons_append] at heq
      obtain ⟨⟨token, sp⟩, tail, rfl, rfl, -⟩ := List.map_eq_cons_iff.mp heq
      cases h
    · rw [List.cons_append, List.cons_append] at heq
      obtain ⟨⟨token, sp⟩, tail, rfl, rfl, htail⟩ := List.map_eq_cons_iff.mp heq
      obtain ⟨⟨token, sp'⟩, tail, rfl, rfl, -⟩ := List.map_eq_cons_iff.mp htail
      cases h
    · cases hts

/-! ## Readings -/

theorem Phrase.written_of_operand {l : Level} {e : Expr} {ts : List Token}
    (h : (Phrase.operand l e).Means ts) : (Form.expr (.level l) e).Written ts := by
  cases l <;> exact ⟨.ofOperand h.yields, h.named⟩

theorem Phrase.written_connective {op : Connective} {left right : Expr} {ts us : List Token}
    (hl : (Form.expr (.level op.level) left).Written ts)
    (hr : (Phrase.operand op.level right).Means us) :
    (Form.expr (.level op.level) (op.join left right)).Written (ts ++ symbol op.symbol :: us) := by
  have hright : (Form.expr (.operand op.level) right).Written us := by
    generalize op.level = l at hr
    cases l <;> exact hr
  rw [op.join_eq_node]
  exact ⟨.connective op hl.yields hright.yields, op.node_wellNamed.mpr ⟨hl.named, hright.named⟩⟩

theorem Phrase.written_item {kind : Item} {e : Expr} {ts : List Token}
    (h : (Phrase.item kind e).Means ts) : (Form.expr kind.rank e).Written ts := by
  cases kind <;> exact h

open Phrase in
/-- **What is taken means the phrase.**  The tokens in front of a reading are those that it takes,
followed by those that it leaves. -/
theorem Reads.means {phrase : Phrase} {ls rest : List Lexeme} (h : Reads phrase ls rest) :
    ∃ ts, ls.map Lexeme.token = ts ++ rest.map Lexeme.token ∧ phrase.Means ts := by
  induction h with
  | programSemicolon _ ih =>
    obtain ⟨ts, hts, hbody⟩ := ih
    exact ⟨_ :: ts, by simp [hts], .semicolon hbody.yields, hbody.named⟩
  | programDry => exact ⟨[], rfl, .statementsNone, trivial⟩
  | programEnd => exact ⟨[], rfl, .statementsNone, trivial⟩
  | programStatement _ _ _ _ ih₁ ih₂ =>
    obtain ⟨ts, hts, hs⟩ := ih₁
    obtain ⟨us, hus, hbody⟩ := ih₂
    exact ⟨ts ++ us, by simp [hts, hus],
      .statementsSome hs.yields hbody.yields fun _ => List.nil_prefix, hs.named, hbody.named⟩
  | bracedSemicolon _ ih =>
    obtain ⟨_, hts, us, rfl, hbody⟩ := ih
    exact ⟨_ :: us ++ _, by simp [hts], _, rfl, .semicolon hbody.yields, hbody.named⟩
  | bracedClose => exact ⟨[_], rfl, [], rfl, .statementsNone, trivial⟩
  | bracedStatement _ _ _ _ _ ih₁ ih₂ =>
    obtain ⟨ts, hts, hs⟩ := ih₁
    obtain ⟨_, hus, us, rfl, hbody⟩ := ih₂
    exact ⟨ts ++ us ++ _, by simp [hts, hus], _, rfl,
      .statementsSome hs.yields hbody.yields fun _ => List.nil_prefix, hs.named, hbody.named⟩
  | block _ ih =>
    obtain ⟨_, hts, us, rfl, hbody⟩ := ih
    exact ⟨_ :: us ++ _, by simp [hts], .block hbody.yields, hbody.named⟩
  | declaration _ ih =>
    obtain ⟨ts, hts, hds⟩ := ih
    exact ⟨_ :: ts, by simp [hts], .declaration hds.yields, hds.yields.declarators_ne_nil,
      hds.named⟩
  | functionDeclaration free _ ih =>
    obtain ⟨ts, hts, hf⟩ := ih
    exact ⟨_ :: _ :: ts, by simp [hts], .functionDeclaration hf.yields, free, hf.named⟩
  | conditionalStatement _ ih =>
    obtain ⟨ts, hts, hc⟩ := ih
    exact ⟨ts, hts, .conditionalStatement hc.yields, hc.named⟩
  | loop _ _ ih₁ ih₂ =>
    obtain ⟨ts, hts, he⟩ := ih₁
    obtain ⟨us, hus, hb⟩ := ih₂
    exact ⟨_ :: _ :: ts ++ _ :: us, by simp [hts, hus], .loop he.yields hb.yields, he.named,
      hb.named⟩
  | blockStatement _ ih =>
    obtain ⟨ts, hts, hb⟩ := ih
    exact ⟨ts, hts, .blockStatement hb.yields, hb.named⟩
  | expressionStatement plain _ ih =>
    obtain ⟨ts, hts, he⟩ := ih
    exact ⟨ts, hts, .expressionStatement (Parse.opensStatement_tokens plain hts) he.yields,
      he.named⟩
  | conditional _ _ _ ih₁ ih₂ =>
    obtain ⟨ts, hts, he⟩ := ih₁
    obtain ⟨us, hus, hb⟩ := ih₂
    exact ⟨_ :: _ :: ts ++ _ :: us, by simp [hts, hus], .conditional he.yields hb.yields,
      he.named, hb.named, trivial⟩
  | conditionalElse _ _ _ _ ih₁ ih₂ ih₃ =>
    obtain ⟨ts, hts, he⟩ := ih₁
    obtain ⟨us, hus, hb⟩ := ih₂
    obtain ⟨vs, hvs, hb'⟩ := ih₃
    rw [List.map_cons] at hvs
    exact ⟨_ :: _ :: ts ++ _ :: us ++ _ :: vs, by simp [hts, hus, hvs],
      .conditionalElse he.yields hb.yields hb'.yields, he.named, hb.named, hb'.named⟩
  | conditionalElseIf _ _ _ ih₁ ih₂ ih₃ =>
    obtain ⟨ts, hts, he⟩ := ih₁
    obtain ⟨us, hus, hb⟩ := ih₂
    obtain ⟨vs, hvs, hc⟩ := ih₃
    rw [List.map_cons] at hvs
    exact ⟨_ :: _ :: ts ++ _ :: us ++ _ :: vs, by simp [hts, hus, hvs],
      .conditionalElseIf he.yields hb.yields hc.yields, he.named, hb.named, hc.named⟩
  | declaratorsLast _ _ ih =>
    obtain ⟨ts, hts, hd⟩ := ih
    exact ⟨ts, hts, .declaratorsLast hd.yields, hd.named, trivial⟩
  | declaratorsMore _ _ ih₁ ih₂ =>
    obtain ⟨ts, hts, hd⟩ := ih₁
    obtain ⟨us, hus, hds⟩ := ih₂
    exact ⟨ts ++ _ :: us, by simp [hts, hus], .declaratorsMore hd.yields hds.yields,
      hd.named, hds.named⟩
  | declaratorValue free _ ih =>
    obtain ⟨ts, hts, he⟩ := ih
    exact ⟨_ :: _ :: ts, by simp [hts], .declaratorValue he.yields, free, he.named⟩
  | declaratorPlain free _ => exact ⟨[_], rfl, .declaratorPlain, free, trivial⟩
  | @function _ b _ _ _ _ _ _ distinct _ ih₁ ih₂ =>
    obtain ⟨body, sp⟩ := b
    obtain ⟨_, hts, rfl, hfree⟩ := ih₁
    obtain ⟨us, hus, hb⟩ := ih₂
    refine ⟨_ :: _ ++ _ :: us, by simp [hts, hus], .function hb.yields, ?_,
      Parse.firstRepeat?_nil_eq_none.mp distinct, hb.named⟩
    intro name hname
    obtain ⟨x, hx, rfl⟩ := List.mem_map.mp hname
    exact hfree x hx
  | parameterListNone => exact ⟨[_], rfl, rfl, nofun⟩
  | parameterListSome _ ih => exact ih
  | parametersLast free =>
    exact ⟨[_, _], rfl, rfl, fun x hx => by rw [List.mem_singleton.mp hx]; exact free⟩
  | @parametersMore name _ _ _ _ _ free h ih =>
    obtain ⟨ts, hts, heq, hfree⟩ := ih
    refine ⟨identifier name :: symbol .comma :: ts, by simp [hts], ?_,
      List.forall_mem_cons.mpr ⟨free, hfree⟩⟩
    rw [heq]
    cases h <;> rfl
  | assignment _ ih =>
    obtain ⟨ts, hts, he⟩ := ih
    exact ⟨_ :: _ :: ts, by simp [hts], .assignment he.yields, he.named⟩
  | value _ _ ih =>
    obtain ⟨ts, hts, he⟩ := ih
    exact ⟨ts, hts, .ofLogical he.yields, he.named⟩
  | level _ _ ih₁ ih₂ =>
    obtain ⟨ts, hts, he⟩ := ih₁
    obtain ⟨us, hus, hmore⟩ := ih₂
    exact ⟨ts ++ us, by simp [hts, hus], hmore ts (written_of_operand he)⟩
  | chainEnd _ => exact ⟨[], rfl, fun us hus => by rw [List.append_nil]; exact hus⟩
  | @chainOperator _ _ _ _ _ _ _ _ op same _ _ ih₁ ih₂ =>
    subst same
    obtain ⟨ts, hts, hright⟩ := ih₁
    obtain ⟨us, hus, hmore⟩ := ih₂
    refine ⟨symbol op.symbol :: ts ++ us, by simp [hts, hus], fun vs hvs => ?_⟩
    have hnode := hmore _ (written_connective hvs hright)
    rwa [List.append_assoc] at hnode
  | sign _ ih =>
    obtain ⟨ts, hts, he⟩ := ih
    exact ⟨_ :: ts, by simp [hts], .sign he.yields, he.named⟩
  | accessed _ _ ih₁ ih₂ =>
    obtain ⟨ts, hts, he⟩ := ih₁
    obtain ⟨us, hus, hmore⟩ := ih₂
    have hwritten := hmore ts ⟨.ofPrimary he.yields, he.named⟩
    exact ⟨ts ++ us, by simp [hts, hus], .ofAccess hwritten.yields, hwritten.named⟩
  | number => exact ⟨[_], rfl, .number, trivial⟩
  | string => exact ⟨[_], rfl, .string, trivial⟩
  | constant h =>
    obtain rfl := Constant.eq_spelling_of_ofSpelling? h
    exact ⟨[_], rfl, .constant, trivial⟩
  | var h => exact ⟨[_], rfl, .var, h⟩
  | parenthesized _ ih =>
    obtain ⟨ts, hts, he⟩ := ih
    exact ⟨_ :: ts ++ [_], by simp [hts], .parenthesized he.yields, he.named⟩
  | array _ ih =>
    obtain ⟨_, hts, us, rfl, hes⟩ := ih
    exact ⟨_ :: us ++ _, by simp [hts], .array hes.yields, hes.named⟩
  | object _ ih =>
    obtain ⟨_, hts, us, rfl, hps⟩ := ih
    exact ⟨_ :: us ++ _, by simp [hts], .object hps.yields, hps.named⟩
  | namedFunction free _ ih =>
    obtain ⟨ts, hts, hf⟩ := ih
    exact ⟨_ :: _ :: ts, by simp [hts], .namedFunction hf.yields,
      fun n hn => by rw [← Option.mem_some.mp hn]; exact free, hf.named⟩
  | namelessFunction _ ih =>
    obtain ⟨ts, hts, hf⟩ := ih
    exact ⟨_ :: ts, by simp [hts], .namelessFunction hf.yields, nofun, hf.named⟩
  | accessEnd _ => exact ⟨[], rfl, fun us hus => by rw [List.append_nil]; exact hus⟩
  | @member _ _ name _ _ _ _ _ ih =>
    obtain ⟨ts, hts, hmore⟩ := ih
    refine ⟨symbol .dot :: identifier name :: ts, by simp [hts], fun us hus => ?_⟩
    have hwritten := hmore _ ⟨.member hus.yields, hus.named⟩
    rwa [List.append_assoc] at hwritten
  | index _ _ ih₁ ih₂ =>
    obtain ⟨ts, hts, hkey⟩ := ih₁
    obtain ⟨us, hus, hmore⟩ := ih₂
    refine ⟨symbol .leftBracket :: ts ++ symbol .rightBracket :: us, by simp [hts, hus],
      fun vs hvs => ?_⟩
    have hwritten := hmore _ ⟨.index hvs.yields hkey.yields, hvs.named, hkey.named⟩
    simpa using hwritten
  | call _ _ ih₁ ih₂ =>
    obtain ⟨_, hts, ts, rfl, hes⟩ := ih₁
    obtain ⟨us, hus, hmore⟩ := ih₂
    refine ⟨symbol .leftParen :: ts ++ symbol .rightParen :: us, by simp [hts, hus],
      fun vs hvs => ?_⟩
    have hwritten := hmore _ ⟨.call hvs.yields hes.yields, hvs.named, hes.named⟩
    simpa using hwritten
  | listNone => exact ⟨[_], rfl, [], rfl, .listNone, trivial⟩
  | listSome _ _ ih =>
    obtain ⟨ts, hts, us, rfl, hes⟩ := ih
    exact ⟨_, hts, us, rfl, .listSome hes.yields, hes.named⟩
  | itemsLast _ _ ih =>
    obtain ⟨ts, hts, he⟩ := ih
    have he := written_item he
    exact ⟨ts ++ [_], by simp [hts], ts, rfl, .itemsLast he.yields, he.named, trivial⟩
  | itemsMore _ _ ih₁ ih₂ =>
    obtain ⟨ts, hts, he⟩ := ih₁
    obtain ⟨_, hus, us, rfl, hes⟩ := ih₂
    have he := written_item he
    exact ⟨ts ++ _ :: us ++ _, by simp [hts, hus], _, rfl, .itemsMore he.yields hes.yields,
      he.named, hes.named⟩
  | propertiesNone => exact ⟨[_], rfl, [], rfl, .propertiesNone, trivial⟩
  | propertiesLast _ ih =>
    obtain ⟨ts, hts, hp⟩ := ih
    exact ⟨ts ++ [_], by simp [hts], ts, rfl, .propertiesLast hp.yields, hp.named, trivial⟩
  | propertiesMore _ _ ih₁ ih₂ =>
    obtain ⟨ts, hts, hp⟩ := ih₁
    obtain ⟨_, hus, us, rfl, hps⟩ := ih₂
    exact ⟨ts ++ _ :: us ++ _, by simp [hts, hus], _, rfl, .propertiesMore hp.yields hps.yields,
      hp.named, hps.named⟩
  | nameProperty _ ih =>
    obtain ⟨ts, hts, he⟩ := ih
    exact ⟨_ :: _ :: ts, by simp [hts], .nameProperty he.yields, he.named⟩
  | stringProperty _ ih =>
    obtain ⟨ts, hts, he⟩ := ih
    exact ⟨_ :: _ :: ts, by simp [hts], .stringProperty he.yields, he.named⟩
  | shorthand _ => exact ⟨[_], rfl, .shorthand, trivial⟩

/-! ## Programs -/

/-- No form of the grammar holds the end of the file. -/
theorem Yields.endOfFile_notMem {least : Nat} {f : Form} {ts : List Token} (h : Yields least f ts) :
    endOfFile ∉ ts := by
  have hnames (ps : List String) : endOfFile ∉ Token.names ps := by
    induction ps with
    | nil => nofun
    | cons x ps ih =>
      cases ps with
      | nil => simp [Token.names]
      | cons y ps =>
        rw [Token.names_cons_cons]
        simp [ih]
  induction h <;> simp_all

/-- The statements of a program are read from the lexemes that are no comments. -/
theorem Program.run_of_parse {lexemes : List Lexeme} {program : Program}
    (h : Program.parse lexemes = .ok program) :
    Parse.run (lexemes.filter fun lexeme => !lexeme.token.isComment) = .ok program.body ∧
      program.comments = lexemes.filterMap Comment.ofLexeme? := by
  unfold Program.parse at h
  cases hrun : Parse.run (lexemes.filter fun lexeme => !lexeme.token.isComment) with
  | error e =>
    rw [hrun] at h
    cases h
  | ok body =>
    rw [hrun] at h
    cases h
    exact ⟨rfl, rfl⟩

end Script
