import Script.Proofs.Parser.Failure
import Script.Proofs.Sources

/-!
# Nothing is read behind the end of the file

The parser looks at the end of the file, but where it takes it, it fails.  So what stands behind the
first end of the file does not matter, and a list that has one never runs dry.  A list that has none
runs dry, or else it is read as if there were one at its end.

All this is one comparison.  `Ending x y` says how two lists may end: with the same end of the file,
whatever is behind it, or the first one with nothing at all.  `Parse.Agrees x y` compares what
becomes of some work in front of the two.  It is followed through the parser function by function,
with the same replies to the goals on both sides, and the induction is on how deeply goals nest
(`Parse.agrees_resolve`).
-/

namespace Script

open Routine

/-- No lexeme of the list is the end of the file. -/
def Endless (ls : List Lexeme) : Prop := ∀ l ∈ ls, l.token ≠ .endOfFile

theorem Endless.nil : Endless [] := List.forall_mem_nil _

theorem Endless.tail {l : Lexeme} {ls : List Lexeme} (h : Endless (l :: ls)) : Endless ls :=
  (List.forall_mem_cons.mp h).2

theorem Endless.head {l : Lexeme} {ls : List Lexeme} (h : Endless (l :: ls)) :
    l.token ≠ .endOfFile :=
  (List.forall_mem_cons.mp h).1

/-- A list with an end of the file has a first one. -/
theorem exists_first_end {ls : List Lexeme} (h : ∃ l ∈ ls, l.token = .endOfFile) :
    ∃ before span more, ls = before ++ ⟨.endOfFile, span⟩ :: more ∧ Endless before := by
  induction ls with
  | nil => simp at h
  | cons l ls ih =>
    obtain ⟨token, span⟩ := l
    by_cases hend : token = .endOfFile
    · subst hend
      exact ⟨[], span, ls, rfl, .nil⟩
    · obtain ⟨x, hx, hx_end⟩ := h
      have htail : x ∈ ls := by
        rcases List.mem_cons.mp hx with rfl | hx
        · exact absurd hx_end hend
        · exact hx
      obtain ⟨before, span', more, rfl, hbefore⟩ := ih ⟨x, htail, hx_end⟩
      exact ⟨_ :: before, span', more, rfl, List.forall_mem_cons.mpr ⟨hend, hbefore⟩⟩

/-- Two ways in which a list of lexemes may end. -/
inductive Ending : List Lexeme → List Lexeme → Prop
  /-- Both end with the same end of the file, and it does not matter what is behind it. -/
  | file (span : Span) (more more' : List Lexeme) :
      Ending (⟨.endOfFile, span⟩ :: more) (⟨.endOfFile, span⟩ :: more')
  /-- The first one has no end of the file. -/
  | dry (span : Span) (more : List Lexeme) : Ending [] (⟨.endOfFile, span⟩ :: more)

namespace Parse

/-- What becomes of some work on one list, and what on the other.  Results are the same, and so are
the lexemes that are left up to the ending.  Failures are the same, and those at the end of the file
leave it there.  Only where the work runs dry on the first list, it may come to anything on the
second. -/
inductive Agrees (x y : List Lexeme) {α : Type} :
    Option (Except ParseError α × List Lexeme) → Option (Except ParseError α × List Lexeme) → Prop
  | unanswered : Agrees x y none none
  | yields (a : α) {front : List Lexeme} (endless : Endless front) :
      Agrees x y (some (.ok a, front ++ x)) (some (.ok a, front ++ y))
  | fails (e : ParseError) {rest rest' : List Lexeme}
      (placed : ∀ span, e = .unexpectedEnd span → x ≠ [] ∧ rest ≠ []) :
      Agrees x y (some (.error e, rest)) (some (.error e, rest'))
  | dries {other : Option (Except ParseError α × List Lexeme)} (h : x = []) :
      Agrees x y (some (.error (.unexpectedEnd .none), [])) other

/-- Replies to the goals that are asked for. -/
abbrev Replies : Type :=
  (goal : Goal) → List Lexeme → Option (Except ParseError goal.Result × List Lexeme)

/-- The work comes to the same in front of both endings. -/
def Steady (x y : List Lexeme) (reply : Replies) {α : Type} (work : Parse α)
    (front : List Lexeme) : Prop :=
  Agrees x y ((work (front ++ x)).answer reply) ((work (front ++ y)).answer reply)

variable {x y : List Lexeme} {reply : Replies} {α β : Type} {front : List Lexeme} {l : Lexeme}
variable {work work' : Parse α}

namespace Steady

theorem of_eq {front' : List Lexeme} (h : Steady x y reply work' front')
    (left : work (front ++ x) = work' (front' ++ x))
    (right : work (front ++ y) = work' (front' ++ y)) : Steady x y reply work front := by
  unfold Steady
  rw [left, right]
  exact h

theorem pure (a : α) (endless : Endless front) :
    Steady x y reply (Pure.pure a : Parse α) front :=
  .yields a endless

/-- Work that fails at once, with an error that says what was found. -/
theorem failure {e : ParseError} {rest rest' : List Lexeme}
    (left : work (front ++ x) = .done (.error e) rest)
    (right : work (front ++ y) = .done (.error e) rest')
    (placed : ∀ span, e ≠ .unexpectedEnd span) : Steady x y reply work front := by
  unfold Steady
  rw [left, right]
  exact .fails e fun span he => absurd he (placed span)

/-- Work that takes a lexeme at once. -/
theorem take (h : Steady x y reply work front) (same : ∀ ls, work' (l :: ls) = work ls) :
    Steady x y reply work' (l :: front) :=
  h.of_eq (same _) (same _)

/-- Work that goes on as some other work does where it sees the lexeme in front. -/
theorem of_head (h : Steady x y reply work (l :: front))
    (same : ∀ ls, work' (l :: ls) = work (l :: ls)) : Steady x y reply work' (l :: front) :=
  h.of_eq (same _) (same _)

/-- Work that needs a lexeme, where none is in front of the ending. -/
theorem ended (ending : Ending x y) (dry : work [] = .done (.error (.unexpectedEnd .none)) [])
    (h : ∀ span more more', x = ⟨.endOfFile, span⟩ :: more → y = ⟨.endOfFile, span⟩ :: more' →
      Steady x y reply work []) : Steady x y reply work [] := by
  rcases ending with ⟨span, more, more'⟩ | ⟨span, more⟩
  · exact h span more more' rfl rfl
  · unfold Steady
    rw [List.nil_append, dry]
    exact .dries rfl

/-- Work that does not accept the end of the file. -/
theorem stopped (ending : Ending x y) (dry : work [] = .done (.error (.unexpectedEnd .none)) [])
    (expectation : Expectation)
    (h : ∀ span more, ∃ rest, work (⟨.endOfFile, span⟩ :: more) =
      .done (.error (.expected expectation .endOfFile span)) rest) :
    Steady x y reply work [] := by
  refine ended ending dry fun span more more' hx hy => ?_
  obtain ⟨rest, left⟩ := h span more
  obtain ⟨rest', right⟩ := h span more'
  subst hx hy
  exact failure left right nofun

theorem bind {first : Parse β} {f : β → Parse α} (h : Steady x y reply first front)
    (hf : ∀ b mid, Endless mid → Steady x y reply (f b) mid) :
    Steady x y reply (first >>= f) front := by
  show Agrees x y (((first (front ++ x)).bind _).answer reply)
    (((first (front ++ y)).bind _).answer reply)
  rw [Routine.answer_bind, Routine.answer_bind]
  unfold Steady at h
  generalize (first (front ++ x)).answer reply = o at h
  generalize (first (front ++ y)).answer reply = o' at h
  rcases h with _ | ⟨b, endless⟩ | ⟨e, placed⟩ | hx
  · exact .unanswered
  · exact hf b _ endless
  · exact .fails e placed
  · exact .dries hx

/-- Work that hangs on a test with the same answer on both lists. -/
theorem test {test : List Lexeme → Bool} (same : test (front ++ x) = test (front ++ y))
    (h : Steady x y reply work front) (h' : Steady x y reply work' front) :
    Steady x y reply (get >>= fun ls => if test ls then work else work') front := by
  unfold Steady
  rw [Action.get_bind, Action.get_bind, ← same]
  split
  · exact h
  · exact h'

theorem reach {goal : Goal} (h : Agrees x y (reply goal (front ++ x)) (reply goal (front ++ y))) :
    Steady x y reply (Parse.reach goal) front :=
  h

/-! ### Single lexemes -/

theorem peek (ending : Ending x y) {f : Lexeme → Parse α}
    (h : ∀ l tail, front = l :: tail → Steady x y reply (f l) front)
    (hend : ∀ span, front = [] → Steady x y reply (f ⟨.endOfFile, span⟩) []) :
    Steady x y reply (Parse.peek >>= f) front := by
  rcases front with _ | ⟨l, tail⟩
  · refine ended ending rfl fun span more more' hx hy => ?_
    exact (hend span rfl).of_eq (by rw [hx]; rfl) (by rw [hy]; rfl)
  · exact (h l tail rfl).of_head fun _ => rfl

theorem expect (ending : Ending x y) {mark : Symbol} {expectation : Expectation}
    {f : Lexeme → Parse α}
    (h : ∀ sp tail, front = ⟨.symbol mark, sp⟩ :: tail →
      Steady x y reply (f ⟨.symbol mark, sp⟩) tail) :
    Steady x y reply (Parse.expect mark expectation >>= f) front := by
  rcases front with _ | ⟨⟨token, sp⟩, tail⟩
  · exact stopped ending rfl expectation
      fun span more => ⟨_, expect_bind_of_ne f nofun⟩
  · by_cases hmark : token = .symbol mark
    · subst hmark
      exact (h sp tail rfl).take fun ls => expect_bind_mark f
    · exact failure (expect_bind_of_ne f hmark) (expect_bind_of_ne f hmark) nofun

theorem bindingName (ending : Ending x y) {f : String × Span → Parse α}
    (h : ∀ name sp tail, front = ⟨.identifier name, sp⟩ :: tail →
      Steady x y reply (f (name, sp)) tail) :
    Steady x y reply (Parse.bindingName >>= f) front := by
  rcases front with _ | ⟨⟨token, sp⟩, tail⟩
  · exact stopped ending rfl .name fun span more => ⟨_, rfl⟩
  · cases token with
    | identifier name =>
      by_cases hconstant : (Constant.ofSpelling? name).isSome
      · exact failure (bindingName_bind_constant f hconstant)
          (bindingName_bind_constant f hconstant) nofun
      · have hfree : Constant.ofSpelling? name = none := by simpa using hconstant
        exact (h name sp tail rfl).take fun ls => bindingName_bind_free f hfree
    | _ => exact failure (e := .expected .name _ sp) rfl rfl nofun

theorem separator (ending : Ending x y) {closing : Symbol} {f : Option Span → Parse α}
    (hcomma : ∀ sp tail, front = ⟨.symbol .comma, sp⟩ :: tail → Steady x y reply (f none) tail)
    (hclosing : ∀ sp tail, front = ⟨.symbol closing, sp⟩ :: tail →
      Steady x y reply (f (some sp)) tail) :
    Steady x y reply (Parse.separator closing >>= f) front := by
  rcases front with _ | ⟨⟨token, sp⟩, tail⟩
  · exact stopped ending rfl (.commaOr closing)
      fun span more => ⟨_, separator_bind_of_ne f nofun nofun⟩
  · by_cases hmark : token = .symbol .comma
    · subst hmark
      exact (hcomma sp tail rfl).take fun ls => separator_bind_comma f
    by_cases hclose : token = .symbol closing
    · subst hclose
      have hproper : closing ≠ .comma := fun he => hmark (congrArg Token.symbol he)
      exact (hclosing sp tail rfl).take fun ls => separator_bind_closing f hproper
    · exact failure (separator_bind_of_ne f hmark hclose)
        (separator_bind_of_ne f hmark hclose) nofun

end Steady

/-! ## Function by function -/

section Functions

variable (ending : Ending x y)
variable (goals : ∀ goal front, Endless front → goal.Ready front →
  Agrees x y (reply goal (front ++ x)) (reply goal (front ++ y)))
include ending goals

omit ending in
theorem steady_reach (goal : Goal) (endless : Endless front) (ready : goal.Ready front) :
    Steady x y reply (reach goal) front :=
  .reach (goals goal front endless ready)

omit ending in
theorem steady_item (kind : Item) (endless : Endless front) :
    Steady x y reply (item kind) front := by
  cases kind with
  | argument => exact steady_reach goals .expression endless trivial
  | element => exact steady_reach goals (.level .logical) endless trivial

omit ending in
theorem steady_operand (l : Level) (endless : Endless front) :
    Steady x y reply (operand l) front := by
  unfold operand
  split
  · exact steady_reach goals (.level _) endless trivial
  · exact steady_reach goals .unary endless trivial

/-! ### Lists, blocks and functions -/

theorem steady_list (kind : Item) (closing : Symbol) (endless : Endless front) :
    Steady x y reply (list kind closing) front := by
  refine .peek ending (fun l tail h => ?_) fun span h => ?_
  · subst h
    split
    · exact (Steady.pure _ endless.tail).take fun _ => rfl
    · exact steady_reach goals (.items kind closing) endless trivial
  · exact steady_reach goals (.items kind closing) .nil trivial

theorem steady_items (kind : Item) (closing : Symbol) (endless : Endless front) :
    Steady x y reply (items kind closing) front := by
  refine (steady_item goals kind endless).bind fun first mid hmid => ?_
  refine .separator ending (fun sp tail h => ?_) fun sp tail h => ?_
  · subst h
    exact (steady_reach goals (.items kind closing) hmid.tail trivial).bind
      fun more rest hrest => .pure _ hrest
  · subst h
    exact .pure _ hmid.tail

theorem steady_parameterList (endless : Endless front) :
    Steady x y reply parameterList front := by
  refine .peek ending (fun l tail h => ?_) fun span h => ?_
  · subst h
    split
    · exact (Steady.pure _ endless.tail).take fun _ => rfl
    · exact steady_reach goals .parameters endless trivial
  · exact steady_reach goals .parameters .nil trivial

theorem steady_parameters (endless : Endless front) : Steady x y reply parameters front := by
  refine .bindingName ending fun name sp tail h => ?_
  subst h
  refine .separator ending (fun sp' tail' h => ?_) fun sp' tail' h => ?_
  · subst h
    exact (steady_reach goals .parameters endless.tail.tail trivial).bind
      fun more rest hrest => .pure _ hrest
  · subst h
    exact .pure _ endless.tail.tail

theorem steady_block (endless : Endless front) : Steady x y reply block front := by
  refine .expect ending fun sp tail h => ?_
  subst h
  exact (steady_reach goals .braced endless.tail trivial).bind
    fun more rest hrest => .pure _ hrest

theorem steady_function (keyword : Lexeme) (endless : Endless front) :
    Steady x y reply (function keyword) front := by
  refine .expect ending fun sp tail h => ?_
  subst h
  refine (steady_parameterList ending goals endless.tail).bind fun names mid hmid => ?_
  cases hrepeat : firstRepeat? [] names with
  | none => exact (steady_block ending goals hmid).bind fun b rest hrest => .pure _ hrest
  | some p => exact .failure (e := .duplicateParameter p.1 p.2) rfl rfl nofun

theorem steady_functionExpression {sp : Span} (endless : Endless front) :
    Steady x y reply functionExpression (⟨.keyword .functionWord, sp⟩ :: front) := by
  have hbody : ∀ (name : Option String) {front : List Lexeme}, Endless front →
      Steady x y reply (function ⟨.keyword .functionWord, sp⟩ >>= fun f =>
        pure (.function name f) : Parse Expr) front :=
    fun name _ h => (steady_function ending goals _ h).bind fun f rest hrest => .pure _ hrest
  refine Steady.take (.peek ending (fun l tail h => ?_) fun span h => hbody none .nil) fun _ => rfl
  subst h
  obtain ⟨token, sp'⟩ := l
  cases token with
  | identifier name =>
    refine .bindingName ending fun name sp tail h => ?_
    cases h
    exact hbody _ endless.tail
  | _ => exact hbody none endless

theorem steady_functionDeclaration {sp : Span} (endless : Endless front) :
    Steady x y reply functionDeclaration (⟨.keyword .functionWord, sp⟩ :: front) := by
  refine Steady.take (.bindingName ending fun name sp' tail h => ?_) fun _ => rfl
  subst h
  exact (steady_function ending goals _ endless.tail).bind fun f rest hrest => .pure _ hrest

/-! ### Expressions -/

theorem steady_keyed (key : String) (sp : Span) (endless : Endless front) :
    Steady x y reply (properties.keyed key sp) front := by
  refine .expect ending fun sp' tail h => ?_
  subst h
  exact (steady_reach goals .expression endless.tail trivial).bind
    fun value rest hrest => .pure _ hrest

theorem steady_more (first : Property) (endless : Endless front) :
    Steady x y reply (properties.more first) front := by
  -- Behind a comma and in front of the closing brace the rest is read in the same way.
  have hrest : ∀ {front : List Lexeme}, Endless front → Steady x y reply
      (reach .properties >>= fun x => pure (first :: x.1, x.2) : Parse (List Property × Span))
      front := fun h =>
    (steady_reach goals .properties h trivial).bind fun more rest hrest => .pure _ hrest
  rcases front with _ | ⟨⟨token, sp⟩, tail⟩
  · exact .stopped ending rfl (.commaOr .rightBrace)
      fun span more => ⟨_, rfl⟩
  · cases token with
    | symbol mark =>
      cases mark with
      | comma => exact (hrest endless.tail).take fun _ => rfl
      | rightBrace => exact (hrest endless).of_head fun _ => rfl
      | _ => exact .failure (e := .expected (.commaOr .rightBrace) _ sp) rfl rfl nofun
    | _ => exact .failure (e := .expected (.commaOr .rightBrace) _ sp) rfl rfl nofun

theorem steady_properties (endless : Endless front) : Steady x y reply properties front := by
  -- A key with a value, and then the other entries.
  have hentry : ∀ (key : String) (sp : Span) {front : List Lexeme}, Endless front →
      Steady x y reply (properties.keyed key sp >>= properties.more) front :=
    fun key sp _ h => (steady_keyed ending goals key sp h).bind
      fun p mid hmid => steady_more ending goals p hmid
  rcases front with _ | ⟨⟨token, sp⟩, tail⟩
  · exact .stopped ending rfl .propertyName
      fun span more => ⟨_, rfl⟩
  · cases token with
    | symbol mark =>
      cases mark with
      | rightBrace => exact (Steady.pure _ endless.tail).take fun _ => rfl
      | _ => exact .failure (e := .expected .propertyName _ sp) rfl rfl nofun
    | identifier name =>
      refine Steady.take (.peek ending (fun l tail' h => ?_) fun span h => ?_) fun _ => rfl
      · subst h
        split
        · exact hentry name sp endless.tail
        · exact steady_more ending goals _ endless.tail
      · exact steady_more ending goals _ .nil
    | string key => exact (hentry key sp endless.tail).take fun _ => rfl
    | _ => exact .failure (e := .expected .propertyName _ sp) rfl rfl nofun

theorem steady_primary (endless : Endless front) : Steady x y reply primary front := by
  rcases front with _ | ⟨⟨token, sp⟩, tail⟩
  · refine .ended ending rfl fun span more more' hx hy => ?_
    -- The end of the file is named by the error and stays where it is.
    subst hx hy
    exact .fails (.unexpectedEnd span) fun _ _ => ⟨List.cons_ne_nil _ _, List.cons_ne_nil _ _⟩
  · have htail := endless.tail
    cases token with
    | number value => exact (Steady.pure _ htail).take fun _ => rfl
    | string value => exact (Steady.pure _ htail).take fun _ => rfl
    | identifier name =>
      cases hname : Constant.ofSpelling? name with
      | some constant =>
        exact (Steady.pure (.constant constant sp) htail).take fun _ => by
          simp only [primary, peek_bind, skip_bind, hname]
      | none =>
        exact (Steady.pure (.var name sp) htail).take fun _ => by
          simp only [primary, peek_bind, skip_bind, hname]
    | symbol mark =>
      cases mark with
      | leftParen =>
        refine Steady.take (.bind (steady_reach goals .expression htail trivial)
          fun e mid hmid => ?_) fun _ => rfl
        refine .expect ending fun sp' rest h => ?_
        subst h
        exact .pure _ hmid.tail
      | leftBracket =>
        exact ((steady_list ending goals .element .rightBracket htail).bind
          fun more rest hrest => .pure _ hrest).take fun _ => rfl
      | leftBrace =>
        exact ((steady_reach goals .properties htail trivial).bind
          fun more rest hrest => .pure _ hrest).take fun _ => rfl
      | _ => exact .failure (e := .unexpectedToken _ sp) rfl rfl nofun
    | keyword word =>
      cases word with
      | functionWord => exact (steady_functionExpression ending goals htail).of_head fun _ => rfl
      | _ => exact .failure (e := .unexpectedToken _ sp) rfl rfl nofun
    | endOfFile => exact absurd rfl endless.head
    | comment text => exact .failure (e := .unexpectedToken _ sp) rfl rfl nofun

theorem steady_accessStep (operand : Expr) (endless : Endless front) :
    Steady x y reply (accessStep operand) front := by
  refine .peek ending (fun l tail h => ?_) fun span h => .pure _ .nil
  subst h
  obtain ⟨token, sp⟩ := l
  have htail := endless.tail
  cases token with
  | symbol mark =>
    cases mark with
    | dot =>
      refine (?_ : Steady x y reply (advance >>= _) tail).take fun _ => rfl
      rcases tail with _ | ⟨⟨token', sp'⟩, tail'⟩
      · exact .stopped ending rfl .nameAfterDot fun span more => ⟨_, rfl⟩
      · cases token' with
        | identifier name =>
          exact (steady_reach goals (.access _) htail.tail trivial).take fun _ => rfl
        | _ => exact .failure (e := .expected .nameAfterDot _ sp') rfl rfl nofun
    | leftBracket =>
      refine Steady.take (.bind (steady_reach goals .expression htail trivial)
        fun key mid hmid => ?_) fun _ => rfl
      refine .expect ending fun sp' rest h => ?_
      subst h
      exact steady_reach goals (.access _) hmid.tail trivial
    | leftParen =>
      refine Steady.take (.bind (steady_list ending goals .argument .rightParen htail)
        fun more rest hrest => ?_) fun _ => rfl
      exact steady_reach goals (.access _) hrest trivial
    | _ => exact .pure _ endless
  | _ => exact .pure _ endless

theorem steady_unary (endless : Endless front) : Steady x y reply unary front := by
  refine .peek ending (fun l tail h => ?_) fun span h => ?_
  · subst h
    cases l.token.unaryOp? with
    | some op =>
      exact ((steady_reach goals .unary endless.tail trivial).bind
        fun e rest hrest => .pure _ hrest).take fun _ => rfl
    | none =>
      exact (steady_primary ending goals endless).bind
        fun e mid hmid => steady_reach goals (.access e) hmid trivial
  · exact (steady_primary ending goals .nil).bind
      fun e mid hmid => steady_reach goals (.access e) hmid trivial

omit ending in
theorem steady_level (l : Level) (endless : Endless front) :
    Steady x y reply (body (.level l)) front :=
  (steady_operand goals l endless).bind
    fun e _ hmid => steady_reach goals (.chain l e) hmid trivial

theorem steady_chainStep (l : Level) (left : Expr) (endless : Endless front) :
    Steady x y reply (chainStep l left) front := by
  rcases front with _ | ⟨lexeme, tail⟩
  · -- Neither the end of the file nor the end of the list goes on with the operators.
    have hnone : ∀ ls, ls = [] ∨ (∃ span more, ls = ⟨.endOfFile, span⟩ :: more) →
        chainStep l left ls = (pure left : Parse Expr) ls := by
      rintro ls (rfl | ⟨span, more, rfl⟩)
      · exact chainStep_of_none rfl
      · exact chainStep_of_none rfl
    refine (Steady.pure left .nil).of_eq (hnone x ?_) (hnone y ?_)
    · rcases ending with ⟨span, more, more'⟩ | ⟨span, more⟩
      · exact .inr ⟨span, more, rfl⟩
      · exact .inl rfl
    · rcases ending with ⟨span, more, more'⟩ | ⟨span, more⟩
      · exact .inr ⟨span, more', rfl⟩
      · exact .inr ⟨span, more, rfl⟩
  · cases hop : lexeme.token.connective? l with
    | none =>
      exact (Steady.pure left endless).of_head fun ls => chainStep_of_none hop
    | some op =>
      refine Steady.of_head (Steady.take ?_ fun _ => rfl) fun ls => chainStep_of_some hop
      exact (steady_operand goals l endless.tail).bind
        fun right mid hmid => steady_reach goals (.chain l _) hmid trivial

omit goals in
/-- No assignment begins at the ending, or one lexeme before it. -/
theorem assignment?_ending (h : front.length < 2) :
    assignment? (front ++ x) = none ∧ assignment? (front ++ y) = none := by
  rcases front with _ | ⟨⟨token, sp⟩, _ | ⟨l, tail⟩⟩
  · rcases ending with ⟨span, more, more'⟩ | ⟨span, more⟩ <;> exact ⟨rfl, rfl⟩
  · cases token <;>
      rcases ending with ⟨span, more, more'⟩ | ⟨span, more⟩ <;> exact ⟨rfl, rfl⟩
  · rw [List.length_cons, List.length_cons] at h
    omega

theorem steady_assignment (endless : Endless front) : Steady x y reply assignment front := by
  have hplain : assignment? (front ++ x) = none → assignment? (front ++ y) = none →
      Steady x y reply assignment front := fun left right =>
    (steady_reach goals (.level .logical) endless trivial).of_eq (assignment_of_none left)
      (assignment_of_none right)
  rcases front with _ | ⟨⟨token, sp⟩, _ | ⟨l, tail⟩⟩
  · have hnone : assignment? ([] ++ x) = none ∧ assignment? ([] ++ y) = none :=
      assignment?_ending ending Nat.zero_lt_two
    exact hplain hnone.1 hnone.2
  · have hnone : assignment? ([⟨token, sp⟩] ++ x) = none ∧
        assignment? ([⟨token, sp⟩] ++ y) = none := assignment?_ending ending Nat.one_lt_two
    exact hplain hnone.1 hnone.2
  · cases token with
    | identifier name =>
      cases hop : l.token.assignOp? with
      | none => exact hplain (assignment?_of_none hop) (assignment?_of_none hop)
      | some op =>
        refine (?_ : Steady x y reply _ tail).of_eq
          (assignment_of_some (assignment?_of_some hop))
          (assignment_of_some (assignment?_of_some hop))
        exact (steady_reach goals .expression endless.tail.tail trivial).bind
          fun value rest hrest => .pure _ hrest
    | _ => exact hplain rfl rfl

/-! ### Statements -/

theorem steady_initial (sp : Span) (endless : Endless front) :
    Steady x y reply (declarators.initial sp) front := by
  refine .peek ending (fun l tail h => ?_) fun span h => .pure _ .nil
  subst h
  split
  · exact (steady_reach goals .expression endless.tail trivial).take fun _ => rfl
  · exact .pure _ endless

theorem steady_declarators (endless : Endless front) : Steady x y reply declarators front := by
  refine .bindingName ending fun name sp tail h => ?_
  subst h
  refine (steady_initial ending goals sp endless.tail).bind fun value mid hmid => ?_
  refine .peek ending (fun l tail' h => ?_) fun span h => .pure _ .nil
  subst h
  split
  · exact ((steady_reach goals .declarators hmid.tail trivial).bind
      fun more rest hrest => .pure _ hrest).take fun _ => rfl
  · exact .pure _ hmid

omit ending in
theorem steady_declaration (kind : DeclarationKind) (endless : Endless front) :
    Steady x y reply (declaration kind) (l :: front) :=
  ((steady_reach goals .declarators endless trivial).bind
    fun _ _ hrest => .pure _ hrest).take fun _ => rfl

theorem steady_condition (word : Keyword) (endless : Endless front) :
    Steady x y reply (condition word) front := by
  refine .expect ending fun sp tail h => ?_
  subst h
  refine (steady_reach goals .expression endless.tail trivial).bind fun e mid hmid => ?_
  refine .expect ending fun sp rest h => ?_
  subst h
  exact .pure _ hmid.tail

theorem steady_loop (endless : Endless front) : Steady x y reply loop (l :: front) := by
  refine Steady.take (.bind (steady_condition ending goals .whileWord endless)
    fun e mid hmid => ?_) fun _ => rfl
  exact (steady_block ending goals hmid).bind fun b rest hrest => .pure _ hrest

theorem steady_conditional (endless : Endless front) :
    Steady x y reply conditional (l :: front) := by
  refine Steady.take (.bind (steady_condition ending goals .ifWord endless)
    fun e mid hmid => ?_) fun _ => rfl
  refine (steady_block ending goals hmid).bind fun b rest hrest => ?_
  refine .peek ending (fun l' tail h => ?_) fun span h => .pure _ .nil
  subst h
  -- The branch behind an `else` that is no conditional.
  have hblock : ∀ {front : List Lexeme}, Endless front → Steady x y reply
      (block >>= fun b' => pure
        (Conditional.mk e b (.block b') ((l.span.join b.span).join b'.span)) : Parse Conditional)
      front :=
    fun h => (steady_block ending goals h).bind fun b' rest hrest => .pure _ hrest
  split
  · refine Steady.take (.peek ending (fun l'' tail' h => ?_) fun span h => hblock .nil) fun _ => rfl
    subst h
    obtain ⟨token, sp⟩ := l''
    split
    · next hif =>
      cases hif
      exact (steady_reach goals .conditional hrest.tail ⟨sp, tail', rfl⟩).bind
        fun c rest hrest => .pure _ hrest
    · exact hblock hrest.tail
  · exact .pure _ hrest

omit goals in
/-- Whether a name is second does not depend on the ending. -/
theorem nameIsSecond_ending : nameIsSecond (l :: front ++ x) = nameIsSecond (l :: front ++ y) := by
  rcases front with _ | ⟨⟨token, sp⟩, tail⟩
  · rcases ending with ⟨span, more, more'⟩ | ⟨span, more⟩ <;> rfl
  · cases token <;> rfl

theorem steady_statementBody (endless : Endless front) :
    Steady x y reply statementBody front := by
  have hplain : ∀ {front : List Lexeme}, Endless front →
      Steady x y reply (expression >>= fun e => pure (.expr e) : Parse Stmt) front :=
    fun h => (steady_reach goals .expression h trivial).bind fun e rest hrest => .pure _ hrest
  refine .peek ending (fun l tail h => ?_) fun span h => hplain .nil
  subst h
  obtain ⟨token, sp⟩ := l
  have htail := endless.tail
  cases token with
  | keyword word =>
    cases word with
    | letWord => exact steady_declaration goals .letKind htail
    | varWord => exact steady_declaration goals .varKind htail
    | functionWord =>
      exact .test (nameIsSecond_ending ending)
        (steady_functionDeclaration ending goals htail) (hplain endless)
    | ifWord =>
      exact (steady_reach goals .conditional endless ⟨sp, tail, rfl⟩).bind
        fun c rest hrest => .pure _ hrest
    | whileWord => exact steady_loop ending goals htail
    | elseWord => exact hplain endless
  | symbol mark =>
    cases mark with
    | leftBrace => exact (steady_block ending goals endless).bind fun b rest hrest => .pure _ hrest
    | _ => exact hplain endless
  | _ => exact hplain endless

theorem steady_braced (endless : Endless front) : Steady x y reply braced front := by
  induction front with
  | nil => exact .stopped ending rfl (.mark .rightBrace) fun span more => ⟨_, rfl⟩
  | cons l tail ih =>
    obtain ⟨token, sp⟩ := l
    by_cases hsemicolon : token = .symbol .semicolon
    · subst hsemicolon
      exact (ih endless.tail).take fun _ => rfl
    by_cases hbrace : token = .symbol .rightBrace
    · subst hbrace
      exact (Steady.pure ([], sp) endless.tail).take fun _ => rfl
    refine Steady.of_head ?_ fun ls => Phrase.braced_eq hsemicolon hbrace endless.head
    refine (steady_reach goals .statement endless trivial).bind fun s mid hmid => ?_
    exact (steady_reach goals .braced hmid trivial).bind fun more rest hrest => .pure _ hrest

theorem steady_program (endless : Endless front) : Steady x y reply program front := by
  induction front with
  | nil =>
    rcases ending with ⟨span, more, more'⟩ | ⟨span, more⟩
    · exact (Steady.pure [] .nil).of_eq rfl rfl
    · exact (Steady.pure [] .nil).of_eq rfl rfl
  | cons l tail ih =>
    obtain ⟨token, sp⟩ := l
    by_cases hsemicolon : token = .symbol .semicolon
    · subst hsemicolon
      exact (ih endless.tail).take fun _ => rfl
    refine Steady.of_head ?_ fun ls => Phrase.program_eq hsemicolon endless.head
    refine (steady_reach goals .statement endless trivial).bind fun s mid hmid => ?_
    exact (steady_reach goals .program hmid trivial).bind fun more rest hrest => .pure _ hrest

end Functions

/-! ## Whole lists -/

/-- **Every goal comes to the same in front of both endings.**  By induction on how deeply goals may
nest. -/
theorem agrees_resolve (ending : Ending x y) (depth : Nat) (goal : Goal) (endless : Endless front)
    (ready : goal.Ready front) :
    Agrees x y (resolve body depth goal (front ++ x)) (resolve body depth goal (front ++ y)) := by
  induction depth generalizing goal front with
  | zero => exact .unanswered
  | succ depth ih =>
    have goals : ∀ goal front, Endless front → goal.Ready front →
        Agrees x y (resolve body depth goal (front ++ x)) (resolve body depth goal (front ++ y)) :=
      fun goal front h => ih goal h
    show Steady x y (resolve body depth) (body goal) front
    cases goal with
    | program => exact steady_program ending goals endless
    | braced => exact steady_braced ending goals endless
    | statement => exact steady_statementBody ending goals endless
    | conditional =>
      obtain ⟨sp, tail, rfl⟩ := ready
      exact steady_conditional ending goals endless.tail
    | declarators => exact steady_declarators ending goals endless
    | expression => exact steady_assignment ending goals endless
    | level l => exact steady_level goals l endless
    | chain l left => exact steady_chainStep ending goals l left endless
    | unary => exact steady_unary ending goals endless
    | access operand => exact steady_accessStep ending goals operand endless
    | items kind closing => exact steady_items ending goals kind closing endless
    | parameters => exact steady_parameters ending goals endless
    | properties => exact steady_properties ending goals endless

/-- The parser asks for a lexeme when none is left, and that is how the reading ends. -/
def RunsDry (ls : List Lexeme) : Prop :=
  ∃ steps, perform body steps .program ls = some (.error (.unexpectedEnd .none), [])

/-- Reading is resolved at some depth, and at every greater one, with what the parser gives.  What
is left tells whether the list has run dry. -/
theorem exists_resolve (ls : List Lexeme) : ∃ depth rest,
    (∀ more, resolve body (depth + more) .program ls = some (run ls, rest)) ∧
      (RunsDry ls ↔ run ls = .error (.unexpectedEnd .none) ∧ rest = []) := by
  obtain ⟨outcome, rest, k, hends, hle, -⟩ := exists_ends ls
  have hperform : perform body (stepBound ls.length) .program ls = some (run ls, rest) := by
    rw [run_of_ends hends]
    exact Ends.perform hends hle
  obtain ⟨depth, hresolve⟩ := perform_eq_some_iff.mp ⟨_, hperform⟩
  refine ⟨depth, rest, resolve_mono hresolve, ?_, ?_⟩
  · rintro ⟨steps, hdry⟩
    have hsame : some (run ls, rest) = some (.error (.unexpectedEnd .none), []) := by
      rw [← run_mono hperform steps, Nat.add_comm]
      exact run_mono hdry _
    simpa using hsame
  · rintro ⟨hrun, hrest⟩
    exact ⟨_, by rw [hperform, hrun, hrest]⟩

/-- What comes of two lists that end in different ways. -/
theorem agrees_run (ending : Ending x y) (endless : Endless front) : ∃ rest rest',
    Agrees x y (some (run (front ++ x), rest)) (some (run (front ++ y), rest')) ∧
      (RunsDry (front ++ x) ↔ run (front ++ x) = .error (.unexpectedEnd .none) ∧ rest = []) := by
  obtain ⟨d, rest, h, hdry⟩ := exists_resolve (front ++ x)
  obtain ⟨d', rest', h', -⟩ := exists_resolve (front ++ y)
  have hagrees := agrees_resolve ending (d + d') .program endless trivial
  rw [h d', Nat.add_comm d d', h' d] at hagrees
  exact ⟨rest, rest', hagrees, hdry⟩

/-- What is behind the end of the file does not matter. -/
theorem run_behind_end (endless : Endless front) (span : Span) (more more' : List Lexeme) :
    run (front ++ ⟨.endOfFile, span⟩ :: more) = run (front ++ ⟨.endOfFile, span⟩ :: more') := by
  obtain ⟨rest, rest', hagrees, -⟩ := agrees_run (.file span more more') endless
  generalize run (front ++ ⟨.endOfFile, span⟩ :: more) = outcome at hagrees ⊢
  generalize run (front ++ ⟨.endOfFile, span⟩ :: more') = outcome' at hagrees ⊢
  rcases hagrees with _ | _ | _ | h
  · rfl
  · rfl
  · cases h

/-- A list with an end of the file does not run dry. -/
theorem not_runsDry (endless : Endless front) (span : Span) (more : List Lexeme) :
    ¬ RunsDry (front ++ ⟨.endOfFile, span⟩ :: more) := by
  intro h
  obtain ⟨rest, rest', hagrees, hdry⟩ := agrees_run (.file span more more) endless
  obtain ⟨hrun, hrest⟩ := hdry.mp h
  rw [hrun, hrest] at hagrees
  rcases hagrees with _ | _ | ⟨_, placed⟩ | h
  · exact (placed .none rfl).2 rfl
  · cases h

/-- A list without an end of the file runs dry exactly if the error says so, and if it does not it
is read as if it had one. -/
theorem run_ended (endless : Endless front) (span : Span) :
    (RunsDry front ↔ run front = .error (.unexpectedEnd .none)) ∧
      (¬ RunsDry front → run (front ++ [⟨.endOfFile, span⟩]) = run front) := by
  obtain ⟨rest, rest', hagrees, hdry⟩ := agrees_run (.dry span []) endless
  rw [List.append_nil] at hagrees hdry
  rw [hdry]
  generalize run front = outcome at hagrees ⊢
  generalize run (front ++ [⟨.endOfFile, span⟩]) = outcome' at hagrees ⊢
  rcases hagrees with _ | _ | ⟨e, placed⟩ | _
  · exact ⟨⟨And.left, fun h => nomatch h⟩, fun _ => rfl⟩
  · refine ⟨⟨And.left, fun h => ?_⟩, fun _ => rfl⟩
    exact absurd rfl (placed .none (Except.error.inj h)).1
  · exact ⟨⟨And.left, fun h => ⟨h, rfl⟩⟩, fun h => absurd ⟨rfl, rfl⟩ h⟩

end Parse

namespace Program

/-- The parser asks for a lexeme when none is left of those that are no comments. -/
def RunsDry (lexemes : List Lexeme) : Prop :=
  Parse.RunsDry (lexemes.filter fun lexeme => !lexeme.token.isComment)

/-- The statements of a program are read from the lexemes that are no comments. -/
theorem map_body_parse (lexemes : List Lexeme) : (parse lexemes).map body =
    Parse.run (lexemes.filter fun lexeme => !lexeme.token.isComment) := by
  unfold parse
  cases Parse.run (lexemes.filter fun lexeme => !lexeme.token.isComment) <;> rfl

theorem endless_filter {lexemes : List Lexeme} (h : ∀ l ∈ lexemes, l.token ≠ .endOfFile) :
    Endless (lexemes.filter fun lexeme => !lexeme.token.isComment) :=
  fun l hl => h l (List.mem_filter.mp hl).1

theorem filter_append_end (before more : List Lexeme) (span : Span) :
    (before ++ ⟨.endOfFile, span⟩ :: more).filter (fun lexeme => !lexeme.token.isComment) =
      before.filter (fun lexeme => !lexeme.token.isComment) ++ ⟨.endOfFile, span⟩ ::
        more.filter fun lexeme => !lexeme.token.isComment := by
  rw [List.filter_append, List.filter_cons_of_pos rfl]

/-- **The end of the file ends the reading.**  What stands behind the first end of the file changes
neither the statements nor the error.  A list with an end of the file never runs dry.  A list
without one runs dry exactly if its error is the one that points nowhere; if it does not, an end of
the file behind it changes neither the statements nor the error. -/
theorem parse_endOfFile :
    (∀ (before behind : List Lexeme) (span : Span), (∀ l ∈ before, l.token ≠ .endOfFile) →
      (parse (before ++ [⟨.endOfFile, span⟩] ++ behind)).map body =
        (parse (before ++ [⟨.endOfFile, span⟩])).map body) ∧
    (∀ lexemes : List Lexeme, (∃ l ∈ lexemes, l.token = .endOfFile) → ¬ RunsDry lexemes) ∧
    ∀ (lexemes : List Lexeme) (span : Span), (∀ l ∈ lexemes, l.token ≠ .endOfFile) →
      (RunsDry lexemes ↔ parse lexemes = .error (.unexpectedEnd .none)) ∧
      (¬ RunsDry lexemes →
        (parse (lexemes ++ [⟨.endOfFile, span⟩])).map body = (parse lexemes).map body) := by
  refine ⟨fun before behind span h => ?_, fun lexemes hend => ?_, fun lexemes span h => ?_⟩
  · rw [map_body_parse, map_body_parse, List.append_assoc, List.singleton_append,
      filter_append_end, filter_append_end]
    exact Parse.run_behind_end (endless_filter h) span _ _
  · -- The list is cut at its first end of the file.
    obtain ⟨before, span, more, rfl, hbefore⟩ := exists_first_end hend
    unfold RunsDry
    rw [filter_append_end]
    exact Parse.not_runsDry (endless_filter hbefore) span _
  · rw [map_body_parse, map_body_parse, filter_append_end, parse_eq_error_iff]
    exact Parse.run_ended (endless_filter h) span

/-- A call that is cut off before its closing parenthesis, with and without an end of the file, and
an empty block.  Here the end of the file stands where the error without a place points, and all the
same the parser has not run dry. -/
theorem parse_endOfFile_call :
    let name : Lexeme := ⟨.identifier "f", ⟨⟨0, 0, 0⟩, ⟨1, 0, 1⟩⟩⟩
    let opening : Lexeme := ⟨.symbol .leftParen, ⟨⟨1, 0, 1⟩, ⟨2, 0, 2⟩⟩⟩
    let note : Lexeme := ⟨.comment "", ⟨⟨2, 0, 2⟩, ⟨4, 0, 4⟩⟩⟩
    let closing : Lexeme := ⟨.symbol .rightParen, ⟨⟨4, 0, 4⟩, ⟨5, 0, 5⟩⟩⟩
    let ending : Lexeme := ⟨.endOfFile, .none⟩
    let block : List Lexeme := [⟨.symbol .leftBrace, .none⟩, ⟨.symbol .rightBrace, .none⟩]
    (parse [name, opening, note, ending, closing]).map body = .error (.unexpectedEnd .none) ∧
      ¬ RunsDry [name, opening, note, ending, closing] ∧ RunsDry [name, opening, note] ∧
      (parse (block ++ [ending])).map body = (parse block).map body := by
  intro name opening note closing ending block
  obtain ⟨hbehind, hnever, hended⟩ := parse_endOfFile
  have hcall : ∀ l ∈ [name, opening, note], l.token ≠ .endOfFile := by simp [name, opening, note]
  have hblock : ∀ l ∈ block, l.token ≠ .endOfFile := by simp [block]
  refine ⟨?_, hnever _ ⟨ending, by simp, rfl⟩, (hended _ .none hcall).1.mpr rfl,
    (hended block .none hblock).2 fun hdry => ?_⟩
  · exact (hbehind [name, opening, note] [closing] .none hcall).trans rfl
  · cases (hended block .none hblock).1.mp hdry

end Program

end Script
