import Script.Proofs.Parser.Effort
import Script.Proofs.Parser.Moved
import Script.Proofs.Parser.Soundness
import Script.Proofs.Sources

/-!
# Programs behind one another

Where the parser meets the end of a file, it may as well meet a semicolon: no rule takes either of
them, and none looks for one and not for the other, except that a program goes on behind a
semicolon.  So a program with a semicolon and another program behind it is read as the statements of
both (`Reads.program_append`), and for sources the same holds of a source, a line with a semicolon,
and another source (`Program.ofSource_joined`).
-/

namespace Script

/-- The second list is the first one up to the end of the file, and goes on from there with a
semicolon and whatever is behind it. -/
inductive Resumes (semicolon : Span) (more : List Lexeme) : List Lexeme → List Lexeme → Prop
  | ending {sp : Span} {ls : List Lexeme} :
      Resumes semicolon more (⟨.endOfFile, sp⟩ :: ls) (⟨.symbol .semicolon, semicolon⟩ :: more)
  | cons {l : Lexeme} {ls ls' : List Lexeme} (plain : l.token ≠ .endOfFile)
      (h : Resumes semicolon more ls ls') : Resumes semicolon more (l :: ls) (l :: ls')

namespace Resumes

variable {semicolon : Span} {more ls ls' : List Lexeme} {l : Lexeme}

/-- A lexeme other than the end of the file stays in front. -/
theorem inside (h : Resumes semicolon more (l :: ls) ls') (hl : l.token ≠ .endOfFile) :
    ∃ rest, ls' = l :: rest ∧ Resumes semicolon more ls rest := by
  cases h with
  | ending => exact absurd rfl hl
  | cons _ h => exact ⟨_, rfl, h⟩

theorem inside_two {l₁ l₂ : Lexeme} (h : Resumes semicolon more (l₁ :: l₂ :: ls) ls')
    (hl₁ : l₁.token ≠ .endOfFile) (hl₂ : l₂.token ≠ .endOfFile) :
    ∃ rest, ls' = l₁ :: l₂ :: rest ∧ Resumes semicolon more ls rest := by
  obtain ⟨_, rfl, htail⟩ := h.inside hl₁
  obtain ⟨rest, rfl, hrest⟩ := htail.inside hl₂
  exact ⟨rest, rfl, hrest⟩

/-- A token that is not in front is not there afterwards either, unless it is a semicolon. -/
theorem front (h : Resumes semicolon more (l :: ls) ls') :
    ∃ l' rest, ls' = l' :: rest ∧ ∀ t, t ≠ .symbol .semicolon → l.token ≠ t → l'.token ≠ t := by
  cases h with
  | ending => exact ⟨_, _, rfl, fun t ht _ heq => ht heq.symm⟩
  | cons _ h => exact ⟨_, _, rfl, fun t _ hl => hl⟩

theorem of_append {tokens tail : List Lexeme} {sp : Span}
    (h : ∀ l ∈ tokens, l.token ≠ .endOfFile) :
    Resumes semicolon more (tokens ++ ⟨.endOfFile, sp⟩ :: tail)
      (tokens ++ ⟨.symbol .semicolon, semicolon⟩ :: more) := by
  induction tokens with
  | nil => exact .ending
  | cons l tokens ih =>
    obtain ⟨hl, htokens⟩ := List.forall_mem_cons.mp h
    exact .cons hl (ih htokens)

open Parse

theorem opensStatement_eq (h : Resumes semicolon more ls ls') :
    opensStatement ls' = opensStatement ls := by
  cases h with
  | ending => rfl
  | @cons l ls ls' _ h =>
    cases h with
    | ending =>
      obtain ⟨token, span⟩ := l
      cases token with
      | keyword word => cases word <;> rfl
      | symbol mark => cases mark <;> rfl
      | _ => rfl
    | @cons l' ls ls' _ _ =>
      obtain ⟨token, span⟩ := l
      obtain ⟨token', span'⟩ := l'
      cases token with
      | keyword word =>
        cases word with
        | functionWord => cases token' <;> rfl
        | _ => rfl
      | symbol mark => cases mark <;> rfl
      | _ => rfl

theorem assignment?_eq_none (h : Resumes semicolon more ls ls') (hls : assignment? ls = none) :
    assignment? ls' = none := by
  cases h with
  | ending => rfl
  | @cons l ls ls' _ h =>
    obtain ⟨token, span⟩ := l
    cases token with
    | identifier name =>
      cases h with
      | ending => rfl
      | @cons l' ls ls' _ _ =>
        have hop : l'.token.assignOp? = none := Option.map_eq_none_iff.mp hls
        exact Option.map_eq_none_iff.mpr hop
    | _ => rfl

/-- What does not go on with a chain of operators does not do so afterwards. -/
theorem connective?_eq_none {level : Level} (h : Resumes semicolon more ls ls')
    (hls : (ls.head?.bind fun lexeme => lexeme.token.connective? level) = none) :
    (ls'.head?.bind fun lexeme => lexeme.token.connective? level) = none := by
  cases h with
  | ending => rfl
  | cons _ _ => exact hls

end Resumes

/-! ## Phrases in front of the end -/

/-- Everything but a whole program. -/
def Phrase.Partial : Phrase → Prop
  | program _ => False
  | _ => True

theorem Phrase.partial_operand (l : Level) (e : Expr) : (Phrase.operand l e).Partial := by
  unfold operand
  split <;> trivial

theorem Phrase.partial_item (kind : Item) (e : Expr) : (Phrase.item kind e).Partial := by
  cases kind <;> trivial

/-- No list begins at the end of the file. -/
theorem Reads.items_front {kind : Item} {closing : Symbol} {es : List Expr} {close : Span}
    {l : Lexeme} {ls rest : List Lexeme}
    (h : Reads (.items kind closing es close) (l :: ls) rest) : l.token ≠ .endOfFile := by
  intro hl
  obtain ⟨ts, hts, us, rfl, hes⟩ := h.means
  rw [List.map_cons, hl] at hts
  cases us with
  | nil => cases hts
  | cons t us =>
    have ht : t = .endOfFile := (List.cons.inj hts).1.symm
    exact hes.yields.endOfFile_notMem (ht ▸ List.mem_cons_self)

section

variable {semicolon : Span} {more : List Lexeme}

/-- **What is read before the end of a file is read before a semicolon.** -/
theorem Reads.resumes {phrase : Phrase} {ls rest : List Lexeme} (h : Reads phrase ls rest)
    (hpart : phrase.Partial) {ls' : List Lexeme} (hls : Resumes semicolon more ls ls') :
    ∃ rest', Resumes semicolon more rest rest' ∧ Reads phrase ls' rest' := by
  induction h generalizing ls' with
  | programSemicolon | programDry | programEnd | programStatement => exact hpart.elim
  | bracedSemicolon _ ih =>
    obtain ⟨_, rfl, htail⟩ := hls.inside nofun
    obtain ⟨rest', hrest, hbody⟩ := ih trivial htail
    exact ⟨rest', hrest, .bracedSemicolon hbody⟩
  | bracedClose =>
    obtain ⟨_, rfl, htail⟩ := hls.inside nofun
    exact ⟨_, htail, .bracedClose⟩
  | bracedStatement semicolon brace ending _ _ ih₁ ih₂ =>
    obtain ⟨mid, hmid, hfirst⟩ := ih₁ trivial hls
    obtain ⟨_, rfl, -⟩ := hls.inside ending
    obtain ⟨rest', hrest, hmore⟩ := ih₂ trivial hmid
    exact ⟨rest', hrest, .bracedStatement semicolon brace ending hfirst hmore⟩
  | block _ ih =>
    obtain ⟨_, rfl, htail⟩ := hls.inside nofun
    obtain ⟨rest', hrest, hbody⟩ := ih trivial htail
    exact ⟨rest', hrest, .block hbody⟩
  | declaration _ ih =>
    obtain ⟨_, rfl, htail⟩ := hls.inside nofun
    obtain ⟨rest', hrest, hds⟩ := ih trivial htail
    exact ⟨rest', hrest, .declaration hds⟩
  | functionDeclaration free _ ih =>
    obtain ⟨_, rfl, htail⟩ := hls.inside_two nofun nofun
    obtain ⟨rest', hrest, hf⟩ := ih trivial htail
    exact ⟨rest', hrest, .functionDeclaration free hf⟩
  | conditionalStatement _ ih =>
    obtain ⟨rest', hrest, hc⟩ := ih trivial hls
    exact ⟨rest', hrest, .conditionalStatement hc⟩
  | loop _ _ ih₁ ih₂ =>
    obtain ⟨_, rfl, htail⟩ := hls.inside_two nofun nofun
    obtain ⟨_, hmid, he⟩ := ih₁ trivial htail
    obtain ⟨_, rfl, hmid₁⟩ := hmid.inside nofun
    obtain ⟨rest', hrest, hb⟩ := ih₂ trivial hmid₁
    exact ⟨rest', hrest, .loop he hb⟩
  | blockStatement _ ih =>
    obtain ⟨rest', hrest, hb⟩ := ih trivial hls
    exact ⟨rest', hrest, .blockStatement hb⟩
  | expressionStatement plain _ ih =>
    obtain ⟨rest', hrest, he⟩ := ih trivial hls
    exact ⟨rest', hrest, .expressionStatement (hls.opensStatement_eq.trans plain) he⟩
  | conditional _ _ alone ih₁ ih₂ =>
    obtain ⟨_, rfl, htail⟩ := hls.inside_two nofun nofun
    obtain ⟨_, hmid, he⟩ := ih₁ trivial htail
    obtain ⟨_, rfl, hmid₁⟩ := hmid.inside nofun
    obtain ⟨rest', hrest, hb⟩ := ih₂ trivial hmid₁
    obtain ⟨l', _, rfl, hl⟩ := hrest.front
    exact ⟨_, hrest, .conditional he hb (hl _ nofun alone)⟩
  | conditionalElse _ _ plain _ ih₁ ih₂ ih₃ =>
    obtain ⟨_, rfl, htail⟩ := hls.inside_two nofun nofun
    obtain ⟨_, hmid, he⟩ := ih₁ trivial htail
    obtain ⟨_, rfl, hmid₁⟩ := hmid.inside nofun
    obtain ⟨_, hms, hb⟩ := ih₂ trivial hmid₁
    obtain ⟨_, rfl, hms₁⟩ := hms.inside nofun
    obtain ⟨rest', hrest, hb'⟩ := ih₃ trivial hms₁
    obtain ⟨l', _, rfl, hl⟩ := hms₁.front
    exact ⟨rest', hrest, .conditionalElse he hb (hl _ nofun plain) hb'⟩
  | conditionalElseIf _ _ _ ih₁ ih₂ ih₃ =>
    obtain ⟨_, rfl, htail⟩ := hls.inside_two nofun nofun
    obtain ⟨_, hmid, he⟩ := ih₁ trivial htail
    obtain ⟨_, rfl, hmid₁⟩ := hmid.inside nofun
    obtain ⟨_, hms, hb⟩ := ih₂ trivial hmid₁
    obtain ⟨_, rfl, hms₁⟩ := hms.inside nofun
    obtain ⟨rest', hrest, hc⟩ := ih₃ trivial hms₁
    obtain ⟨_, rfl, -⟩ := hms₁.inside nofun
    exact ⟨rest', hrest, .conditionalElseIf he hb hc⟩
  | declaratorsLast _ last ih =>
    obtain ⟨rest', hrest, hd⟩ := ih trivial hls
    obtain ⟨l', _, rfl, hl⟩ := hrest.front
    exact ⟨_, hrest, .declaratorsLast hd (hl _ nofun last)⟩
  | declaratorsMore _ _ ih₁ ih₂ =>
    obtain ⟨_, hmid, hd⟩ := ih₁ trivial hls
    obtain ⟨_, rfl, hmid₁⟩ := hmid.inside nofun
    obtain ⟨rest', hrest, hds⟩ := ih₂ trivial hmid₁
    exact ⟨rest', hrest, .declaratorsMore hd hds⟩
  | declaratorValue free _ ih =>
    obtain ⟨_, rfl, htail⟩ := hls.inside_two nofun nofun
    obtain ⟨rest', hrest, he⟩ := ih trivial htail
    exact ⟨rest', hrest, .declaratorValue free he⟩
  | declaratorPlain free plain =>
    obtain ⟨_, rfl, htail⟩ := hls.inside nofun
    obtain ⟨l', _, rfl, hl⟩ := htail.front
    exact ⟨_, htail, .declaratorPlain free (hl _ nofun plain)⟩
  | function _ distinct _ ih₁ ih₂ =>
    obtain ⟨_, rfl, htail⟩ := hls.inside nofun
    obtain ⟨_, hmid, hnames⟩ := ih₁ trivial htail
    obtain ⟨rest', hrest, hb⟩ := ih₂ trivial hmid
    exact ⟨rest', hrest, .function hnames distinct hb⟩
  | parameterListNone =>
    obtain ⟨_, rfl, htail⟩ := hls.inside nofun
    exact ⟨_, htail, .parameterListNone⟩
  | parameterListSome _ ih =>
    obtain ⟨rest', hrest, hnames⟩ := ih trivial hls
    exact ⟨rest', hrest, .parameterListSome hnames⟩
  | parametersLast free =>
    obtain ⟨_, rfl, htail⟩ := hls.inside_two nofun nofun
    exact ⟨_, htail, .parametersLast free⟩
  | parametersMore free _ ih =>
    obtain ⟨_, rfl, htail⟩ := hls.inside_two nofun nofun
    obtain ⟨rest', hrest, hnames⟩ := ih trivial htail
    exact ⟨rest', hrest, .parametersMore free hnames⟩
  | assignment _ ih =>
    obtain ⟨_, rfl, htail⟩ := hls.inside_two nofun nofun
    obtain ⟨rest', hrest, he⟩ := ih trivial htail
    exact ⟨rest', hrest, .assignment he⟩
  | value plain _ ih =>
    obtain ⟨rest', hrest, he⟩ := ih trivial hls
    exact ⟨rest', hrest, .value (hls.assignment?_eq_none plain) he⟩
  | level _ _ ih₁ ih₂ =>
    obtain ⟨mid, hmid, hfirst⟩ := ih₁ (Phrase.partial_operand _ _) hls
    obtain ⟨rest', hrest, hmore⟩ := ih₂ trivial hmid
    exact ⟨rest', hrest, .level hfirst hmore⟩
  | chainEnd stop => exact ⟨_, hls, .chainEnd (hls.connective?_eq_none stop)⟩
  | chainOperator same _ _ ih₁ ih₂ =>
    obtain ⟨_, rfl, htail⟩ := hls.inside nofun
    obtain ⟨mid, hmid, hright⟩ := ih₁ (Phrase.partial_operand _ _) htail
    obtain ⟨rest', hrest, hmore⟩ := ih₂ trivial hmid
    exact ⟨rest', hrest, .chainOperator same hright hmore⟩
  | sign _ ih =>
    obtain ⟨_, rfl, htail⟩ := hls.inside nofun
    obtain ⟨rest', hrest, he⟩ := ih trivial htail
    exact ⟨rest', hrest, .sign he⟩
  | accessed _ _ ih₁ ih₂ =>
    obtain ⟨mid, hmid, hfirst⟩ := ih₁ trivial hls
    obtain ⟨rest', hrest, hmore⟩ := ih₂ trivial hmid
    exact ⟨rest', hrest, .accessed hfirst hmore⟩
  | number =>
    obtain ⟨_, rfl, htail⟩ := hls.inside nofun
    exact ⟨_, htail, .number⟩
  | string =>
    obtain ⟨_, rfl, htail⟩ := hls.inside nofun
    exact ⟨_, htail, .string⟩
  | constant h =>
    obtain ⟨_, rfl, htail⟩ := hls.inside nofun
    exact ⟨_, htail, .constant h⟩
  | var h =>
    obtain ⟨_, rfl, htail⟩ := hls.inside nofun
    exact ⟨_, htail, .var h⟩
  | parenthesized _ ih =>
    obtain ⟨_, rfl, htail⟩ := hls.inside nofun
    obtain ⟨_, hrest, he⟩ := ih trivial htail
    obtain ⟨rest', rfl, hrest₁⟩ := hrest.inside nofun
    exact ⟨rest', hrest₁, .parenthesized he⟩
  | array _ ih =>
    obtain ⟨_, rfl, htail⟩ := hls.inside nofun
    obtain ⟨rest', hrest, hes⟩ := ih trivial htail
    exact ⟨rest', hrest, .array hes⟩
  | object _ ih =>
    obtain ⟨_, rfl, htail⟩ := hls.inside nofun
    obtain ⟨rest', hrest, hps⟩ := ih trivial htail
    exact ⟨rest', hrest, .object hps⟩
  | namedFunction free _ ih =>
    obtain ⟨_, rfl, htail⟩ := hls.inside_two nofun nofun
    obtain ⟨rest', hrest, hf⟩ := ih trivial htail
    exact ⟨rest', hrest, .namedFunction free hf⟩
  | namelessFunction _ ih =>
    obtain ⟨_, rfl, htail⟩ := hls.inside nofun
    obtain ⟨rest', hrest, hf⟩ := ih trivial htail
    exact ⟨rest', hrest, .namelessFunction hf⟩
  | accessEnd stop =>
    cases hls with
    | ending => exact ⟨_, .ending, .accessEnd rfl⟩
    | cons plain hls => exact ⟨_, .cons plain hls, .accessEnd stop⟩
  | member _ ih =>
    obtain ⟨_, rfl, htail⟩ := hls.inside_two nofun nofun
    obtain ⟨rest', hrest, he⟩ := ih trivial htail
    exact ⟨rest', hrest, .member he⟩
  | index _ _ ih₁ ih₂ =>
    obtain ⟨_, rfl, htail⟩ := hls.inside nofun
    obtain ⟨_, hmid, hkey⟩ := ih₁ trivial htail
    obtain ⟨_, rfl, hmid₁⟩ := hmid.inside nofun
    obtain ⟨rest', hrest, he⟩ := ih₂ trivial hmid₁
    exact ⟨rest', hrest, .index hkey he⟩
  | call _ _ ih₁ ih₂ =>
    obtain ⟨_, rfl, htail⟩ := hls.inside nofun
    obtain ⟨mid, hmid, hes⟩ := ih₁ trivial htail
    obtain ⟨rest', hrest, he⟩ := ih₂ trivial hmid
    exact ⟨rest', hrest, .call hes he⟩
  | listNone =>
    obtain ⟨_, rfl, htail⟩ := hls.inside nofun
    exact ⟨_, htail, .listNone⟩
  | listSome nonempty h ih =>
    obtain ⟨rest', hrest, hes⟩ := ih trivial hls
    obtain ⟨_, rfl, -⟩ := hls.inside h.items_front
    exact ⟨rest', hrest, .listSome nonempty hes⟩
  | itemsLast proper _ ih =>
    obtain ⟨_, hrest, he⟩ := ih (Phrase.partial_item _ _) hls
    obtain ⟨rest', rfl, hrest₁⟩ := hrest.inside nofun
    exact ⟨rest', hrest₁, .itemsLast proper he⟩
  | itemsMore _ _ ih₁ ih₂ =>
    obtain ⟨_, hmid, he⟩ := ih₁ (Phrase.partial_item _ _) hls
    obtain ⟨_, rfl, hmid₁⟩ := hmid.inside nofun
    obtain ⟨rest', hrest, hes⟩ := ih₂ trivial hmid₁
    exact ⟨rest', hrest, .itemsMore he hes⟩
  | propertiesNone =>
    obtain ⟨_, rfl, htail⟩ := hls.inside nofun
    exact ⟨_, htail, .propertiesNone⟩
  | propertiesLast _ ih =>
    obtain ⟨_, hrest, hp⟩ := ih trivial hls
    obtain ⟨rest', rfl, hrest₁⟩ := hrest.inside nofun
    exact ⟨rest', hrest₁, .propertiesLast hp⟩
  | propertiesMore _ _ ih₁ ih₂ =>
    obtain ⟨_, hmid, hp⟩ := ih₁ trivial hls
    obtain ⟨_, rfl, hmid₁⟩ := hmid.inside nofun
    obtain ⟨rest', hrest, hps⟩ := ih₂ trivial hmid₁
    exact ⟨rest', hrest, .propertiesMore hp hps⟩
  | nameProperty _ ih =>
    obtain ⟨_, rfl, htail⟩ := hls.inside_two nofun nofun
    obtain ⟨rest', hrest, he⟩ := ih trivial htail
    exact ⟨rest', hrest, .nameProperty he⟩
  | stringProperty _ ih =>
    obtain ⟨_, rfl, htail⟩ := hls.inside_two nofun nofun
    obtain ⟨rest', hrest, he⟩ := ih trivial htail
    exact ⟨rest', hrest, .stringProperty he⟩
  | shorthand plain =>
    obtain ⟨_, rfl, htail⟩ := hls.inside nofun
    obtain ⟨l', _, rfl, hl⟩ := htail.front
    exact ⟨_, htail, .shorthand (hl _ nofun plain)⟩

/-- **A program goes on behind a semicolon.** -/
theorem Reads.program_append {body body' : List Stmt} {ls ls' rest rest' : List Lexeme}
    (h : Reads (.program body) ls rest) (hls : Resumes semicolon more ls ls')
    (h' : Reads (.program body') more rest') : Reads (.program (body ++ body')) ls' rest' := by
  generalize hphrase : Phrase.program body = phrase at h
  induction h generalizing body ls' with
  | programSemicolon _ ih =>
    obtain ⟨_, rfl, htail⟩ := hls.inside nofun
    exact .programSemicolon (ih htail hphrase)
  | programDry => cases hls
  | programEnd =>
    cases hphrase
    cases hls with
    | ending => exact .programSemicolon h'
    | cons plain _ => exact absurd rfl plain
  | programStatement semicolon ending first _ _ ih =>
    cases hphrase
    obtain ⟨mid, hmid, hfirst⟩ := first.resumes trivial hls
    obtain ⟨_, rfl, -⟩ := hls.inside ending
    exact .programStatement semicolon ending hfirst (ih hmid rfl)
  | _ => cases hphrase

end

/-! ## Sources -/

/-- What is set aside as a comment stays so when it is moved. -/
theorem Lexeme.filter_moved (g : Move) (lexemes : List Lexeme) :
    (lexemes.map (Lexeme.moved g)).filter (fun lexeme => !lexeme.token.isComment) =
      (lexemes.filter fun lexeme => !lexeme.token.isComment).map (Lexeme.moved g) :=
  List.filter_map

/-- The lexemes of two sources with a line between them that holds a semicolon. -/
theorem Lexeme.scan_joined {first second : String} {lexemes lexemes' : List Lexeme}
    (h : scan first = .ok lexemes) (hclosed : ¬ LeavesOpen first)
    (h' : scan second = .ok lexemes') :
    ∃ tokens last semicolon g, lexemes = tokens ++ [⟨.endOfFile, last⟩] ∧
      (∀ x ∈ tokens, x.token ≠ .endOfFile) ∧ scan (first ++ "\n;\n" ++ second) =
        .ok (tokens ++ ⟨.symbol .semicolon, semicolon⟩ :: lexemes'.map (Lexeme.moved g)) := by
  obtain ⟨tokens, last, hlexemes, htokens, hbelow⟩ := scan_below h hclosed
  have hmark : scan ";" = .ok _ := scan_of_spells (.symbol .semicolon)
  obtain ⟨marks, last', hmarks, -, hbelow'⟩ :=
    scan_below hmark (not_leavesOpen_of_notMem (by decide))
  obtain rfl : [_] = marks := List.append_inj_left' (show [_] ++ [_] = _ from hmarks) rfl
  generalize (Position.start.past first.toList).advance '\n' = origin at hbelow
  generalize (Position.start.past ";".toList).advance '\n' = origin' at hbelow'
  have hline : "\n;\n" = "\n" ++ ";" ++ "\n" := rfl
  have hjoin : first ++ "\n;\n" ++ second = first ++ "\n" ++ (";" ++ "\n" ++ second) := by
    simp only [hline, String.append_assoc]
  have hmoved : (lexemes'.map (below origin')).map (below origin) =
      lexemes'.map (Lexeme.moved ((Move.below origin').andThen (Move.below origin))) :=
    List.map_map
  have hscan := hbelow (";" ++ "\n" ++ second)
  rw [hbelow', h', ← hjoin, resumed, resumed, List.singleton_append, List.map_cons, hmoved] at hscan
  exact ⟨tokens, last, _, _, hlexemes, htokens, hscan⟩

/-- **Two sources are one program.**  A source, a line with a semicolon and another source are read
as the statements of both, those of the second one moved. -/
theorem Program.ofSource_joined {file₁ file₂ first second : String} {program₁ program₂ : Program}
    (hclosed : ¬ Lexeme.LeavesOpen first) (h₁ : ofSource file₁ first = .ok program₁)
    (h₂ : ofSource file₂ second = .ok program₂) (file : String) :
    ∃ g program, ofSource file (first ++ "\n;\n" ++ second) = .ok program ∧
      program.body = program₁.body ++ movedStmts g program₂.body := by
  obtain ⟨lexemes₁, hscan₁, hparse₁⟩ := ofSource_eq_ok_iff.mp h₁
  obtain ⟨lexemes₂, hscan₂, hparse₂⟩ := ofSource_eq_ok_iff.mp h₂
  obtain ⟨tokens, last, semicolon, g, rfl, htokens, hscan⟩ :=
    Lexeme.scan_joined hscan₁ hclosed hscan₂
  obtain ⟨rest₁, hreads₁⟩ := Parse.reads_of_run (parse_eq_ok_iff.mp hparse₁).1
  obtain ⟨rest₂, hreads₂⟩ := Parse.reads_of_run (parse_eq_ok_iff.mp hparse₂).1
  rw [List.filter_append] at hreads₁
  have hmoved := hreads₂.moved g
  rw [← Lexeme.filter_moved] at hmoved
  have hplain : ∀ l ∈ tokens.filter fun lexeme => !lexeme.token.isComment,
      l.token ≠ .endOfFile := fun l hl => htokens l (List.mem_filter.mp hl).1
  have hrun : Parse.run ((tokens ++ ⟨.symbol .semicolon, semicolon⟩ ::
      lexemes₂.map (Lexeme.moved g)).filter fun lexeme => !lexeme.token.isComment) =
      .ok (program₁.body ++ movedStmts g program₂.body) := by
    rw [List.filter_append]
    exact Parse.run_of_reads (hreads₁.program_append (.of_append hplain) hmoved)
  exact ⟨g, ⟨_, _, _⟩,
    ofSource_eq_ok_iff.mpr ⟨_, hscan, parse_eq_ok_iff.mpr ⟨hrun, rfl, rfl⟩⟩, rfl⟩

end Script
