import Script.Proofs.Parser.Failure
import Script.Proofs.Routine.Asks

/-!
# The parser makes progress

Nothing is said here about what is read, only that the reading gets on, whatever the lexemes are.

* Where a function of the parser yields something, it has taken lexemes from the front
  (`Reader.progresses`), and it ends before the bound on its steps is met.
* A goal that is asked for is asked for on a suffix of the lexemes; on all of them only if its rank
  is lower (`descends`).  So its `weight` is lower in any case, and the weight of a goal bounds how
  deeply goals nest in it.

The functions are followed one by one for the second point only.  The first one has been settled
along with the count of steps.
-/

namespace Script

open Routine

namespace Goal

/-- So many lexemes at least are taken where the goal is reached. -/
def least : Goal → Nat
  | program | chain _ _ | access _ => 0
  | braced | statement | conditional | declarators | expression | level _ | unary | items _ _
  | parameters | properties => 1

/-- As long as no lexeme is taken, goals are asked for in the order of their ranks. -/
def rank : Goal → Nat
  | unary | chain _ _ | access _ | conditional | declarators | parameters | properties => 0
  | level .multiplicative => 1
  | level .additive => 2
  | level .comparison => 3
  | level .logical => 4
  | expression => 5
  | statement | items _ _ => 6
  | program | braced => 7

/-- A lexeme weighs more than any rank. -/
def weight (goal : Goal) (ls : List Lexeme) : Nat := 8 * ls.length + goal.rank

theorem rank_lt (goal : Goal) : goal.rank < 8 := by
  unfold rank
  split <;> decide

theorem least_le_slack (goal : Goal) : 64 * (goal.least : Int) + 2 ≤ goal.slack + 64 := by
  cases goal with
  | level l => cases l <;> decide
  | _ => exact of_decide_eq_true rfl

theorem excess_le (goal : Goal) : goal.excess + 2 ≤ 64 := by
  unfold excess
  split <;> decide

end Goal

namespace Parse

variable {α β : Type} {ls mid rest : List Lexeme} {l : Lexeme} {least rank : Nat}

/-- The functions of the parser, those that reach a goal among them, each with a number of lexemes
that it takes at least if it yields something. -/
inductive Reader : {α : Type} → Parse α → Nat → Prop
  | peek : Reader peek 0
  | advance : Reader advance 1
  | expect (mark : Symbol) (expectation : Expectation) : Reader (expect mark expectation) 1
  | skipSemicolons : Reader skipSemicolons 0
  | bindingName : Reader bindingName 1
  | separator (closing : Symbol) : Reader (separator closing) 1
  | goal (goal : Goal) : Reader (body goal) goal.least
  | list (kind : Item) (closing : Symbol) : Reader (list kind closing) 1
  | parameterList : Reader parameterList 1
  | block : Reader block 1
  | function (keyword : Lexeme) : Reader (function keyword) 1
  | functionExpression : Reader functionExpression 1
  | functionDeclaration : Reader functionDeclaration 1
  | keyed (key : String) (span : Span) : Reader (properties.keyed key span) 1
  | more (first : Property) : Reader (properties.more first) 0
  | primary : Reader primary 1
  | initial (span : Span) : Reader (declarators.initial span) 0
  | declaration (kind : DeclarationKind) : Reader (declaration kind) 1
  | condition (word : Keyword) : Reader (condition word) 1
  | loop : Reader loop 1

/-! ## What is left -/

/-- The lexemes that are left are a suffix of those that were there, and so many at least are
gone. -/
def Leaves (least : Nat) (ls rest : List Lexeme) : Prop :=
  rest <:+ ls ∧ rest.length + least ≤ ls.length

/-- The work asks for nothing and is over at once. -/
def Instant (work : Parse α) (ls : List Lexeme) (least : Nat) : Prop :=
  ∃ outcome rest, work ls = .done outcome rest ∧ ∀ a, outcome = .ok a → Leaves least ls rest

/-- The work comes to an end, with two steps or more to spare of those that the bound allows. -/
def Progresses (work : Parse α) (ls : List Lexeme) (least : Nat) : Prop :=
  ∃ outcome rest k, Ends body (work ls) outcome rest k ∧ k + 2 ≤ stepBound ls.length ∧
    ∀ a, outcome = .ok a → Leaves least ls rest

/-! ### Single lexemes -/

namespace Instant

variable {work : Parse α}

theorem of_failure {e : ParseError} (same : work ls = .done (.error e) rest) :
    Instant work ls least :=
  ⟨.error e, rest, same, fun _ h => by cases h⟩

theorem of_front {a : α} (same : work (l :: ls) = .done (.ok a) ls) : Instant work (l :: ls) 1 :=
  ⟨.ok a, ls, same, fun _ _ => ⟨List.suffix_cons l ls, Nat.le_refl _⟩⟩

end Instant

theorem instant_peek (ls : List Lexeme) : Instant peek ls 0 := by
  cases ls with
  | nil => exact .of_failure rfl
  | cons l tail => exact ⟨.ok l, l :: tail, rfl, fun _ _ => ⟨List.suffix_rfl, Nat.le_refl _⟩⟩

theorem instant_advance (ls : List Lexeme) : Instant advance ls 1 := by
  cases ls with
  | nil => exact .of_failure rfl
  | cons l tail => exact .of_front rfl

theorem instant_expect (mark : Symbol) (expectation : Expectation) (ls : List Lexeme) :
    Instant (expect mark expectation) ls 1 := by
  cases ls with
  | nil => exact .of_failure rfl
  | cons l tail =>
    have hpeek : expect mark expectation (l :: tail) = (if l.token = .symbol mark then _ else _ :
      Parse Lexeme) (l :: tail) := rfl
    by_cases hmark : l.token = .symbol mark
    · rw [if_pos hmark] at hpeek
      exact .of_front hpeek
    · rw [if_neg hmark] at hpeek
      exact .of_failure hpeek

theorem instant_skipSemicolons (ls : List Lexeme) : Instant skipSemicolons ls 0 := by
  have hsuffix := List.dropWhile_suffix (l := ls) fun l => l.token = .symbol .semicolon
  exact ⟨.ok (), _, rfl, fun _ _ => ⟨hsuffix, hsuffix.length_le⟩⟩

theorem instant_bindingName (ls : List Lexeme) : Instant bindingName ls 1 := by
  cases ls with
  | nil => exact .of_failure rfl
  | cons l tail =>
    obtain ⟨token, sp⟩ := l
    cases token with
    | identifier name =>
      have hpeek : bindingName (⟨.identifier name, sp⟩ :: tail) =
        (if (Constant.ofSpelling? name).isSome then _ else _ : Parse (String × Span)) tail := rfl
      by_cases hconstant : (Constant.ofSpelling? name).isSome
      · rw [if_pos hconstant] at hpeek
        exact .of_failure hpeek
      · rw [if_neg hconstant] at hpeek
        exact .of_front hpeek
    | _ => exact .of_failure (e := .expected .name _ sp) rfl

theorem instant_separator (closing : Symbol) (ls : List Lexeme) :
    Instant (separator closing) ls 1 := by
  cases ls with
  | nil => exact .of_failure rfl
  | cons l tail =>
    have hpeek : separator closing (l :: tail) = (if l.token = .symbol .comma then _ else
      if l.token = .symbol closing then _ else _ : Parse (Option Span)) tail := rfl
    by_cases hcomma : l.token = .symbol .comma
    · rw [if_pos hcomma] at hpeek
      exact .of_front hpeek
    rw [if_neg hcomma] at hpeek
    by_cases hclosing : l.token = .symbol closing
    · rw [if_pos hclosing] at hpeek
      exact .of_front hpeek
    · rw [if_neg hclosing] at hpeek
      exact .of_failure hpeek

/-! ### All functions -/

namespace Progresses

variable {work : Parse α}

theorem of_instant (h : Instant work ls least) : Progresses work ls least := by
  obtain ⟨outcome, rest, same, hleft⟩ := h
  refine ⟨outcome, rest, 0, by rw [same]; exact .done _ _, ?_, hleft⟩
  rw [stepBound]
  omega

/-- What is left over of the steps comes from lexemes that were taken. -/
theorem of_settles {slack excess : Int} {post : α → Prop} (h : Settles work ls slack excess post)
    (hslack : 64 * least + 2 ≤ slack + 64) (hexcess : excess + 2 ≤ 64) :
    Progresses work ls least := by
  rcases h with @⟨a, rest, k, ends, ⟨front, hfront, -⟩, paid, -⟩ | @⟨e, rest, k, ends, -, paid⟩
  · refine ⟨.ok a, rest, k, ends, ?_, fun _ _ => ⟨⟨front, hfront.symm⟩, ?_⟩⟩
    · rw [stepBound]
      omega
    · omega
  · refine ⟨.error e, rest, k, ends, ?_, fun _ h => by cases h⟩
    rw [stepBound]
    omega

/-- Where a keyword is taken without a look at it, any other lexeme does as well. -/
theorem of_keyword (word : Keyword)
    (h : ∀ sp tail, Progresses work (⟨.keyword word, sp⟩ :: tail) 1)
    (blind : ∀ token sp tail, work (⟨token, sp⟩ :: tail) = work (⟨.keyword word, sp⟩ :: tail))
    {e : ParseError} (dry : work [] = .done (.error e) []) : Progresses work ls 1 := by
  cases ls with
  | nil => exact of_instant (.of_failure dry)
  | cons l tail =>
    obtain ⟨outcome, rest, k, ends, hk, hleft⟩ := h l.span tail
    refine ⟨outcome, rest, k, blind l.token l.span tail ▸ ends, hk, fun a ha => ?_⟩
    obtain ⟨hsuffix, hlength⟩ := hleft a ha
    refine ⟨?_, hlength⟩
    rcases List.suffix_cons_iff.mp hsuffix with rfl | htail
    · exact absurd hlength (Nat.not_succ_le_self _)
    · exact htail.trans (List.suffix_cons l tail)

end Progresses

/-- **A function of the parser that yields something has taken lexemes from the front,** and it ends
within the bound, whatever the lexemes are. -/
theorem Reader.progresses {work : Parse α} (h : Reader work least) (ls : List Lexeme) :
    Progresses work ls least := by
  have ih : ∀ n, SettlesBelow n := fun _ goal ls _ ready => settles goal ls ready
  have hn : ls.length < ls.length + 1 := Nat.lt_succ_self _
  cases h with
  | peek => exact .of_instant (instant_peek ls)
  | advance => exact .of_instant (instant_advance ls)
  | expect mark expectation => exact .of_instant (instant_expect mark expectation ls)
  | skipSemicolons => exact .of_instant (instant_skipSemicolons ls)
  | bindingName => exact .of_instant (instant_bindingName ls)
  | separator closing => exact .of_instant (instant_separator closing ls)
  | goal goal =>
    have hready : ∀ ls, goal.Ready ls → Progresses (body goal) ls goal.least := fun ls ready =>
      .of_settles (settles goal ls ready) goal.least_le_slack goal.excess_le
    cases goal with
    | conditional =>
      exact .of_keyword .ifWord (fun sp tail => hready _ ⟨sp, tail, rfl⟩) (fun _ _ _ => rfl) rfl
    | _ => exact hready ls trivial
  | list kind closing => exact .of_settles (settles_list (ih _) hn) (by decide) (by decide)
  | parameterList => exact .of_settles (settles_parameterList (ih _) hn) (by decide) (by decide)
  | block => exact .of_settles (settles_block (ih _) (Nat.le_refl _)) (by decide) (by decide)
  | function keyword =>
    exact .of_settles (settles_function (ih _) (Nat.le_refl _)) (by decide) (by decide)
  | functionExpression =>
    refine .of_keyword .functionWord (fun sp tail => ?_) (fun _ _ _ => rfl) rfl
    exact .of_settles (settles_functionExpression (ih _) (Nat.lt_succ_self _)) (by decide)
      (by decide)
  | functionDeclaration =>
    refine .of_keyword .functionWord (fun sp tail => ?_) (fun _ _ _ => rfl) rfl
    exact .of_settles (settles_functionDeclaration (ih _) (Nat.lt_succ_self _)) (by decide)
      (by decide)
  | keyed key span =>
    exact .of_settles (settles_keyed (ih _) (Nat.le_refl _)) (by decide) (by decide)
  | more first => exact .of_settles (settles_more (ih _) hn) (by decide) (by decide)
  | primary => exact .of_settles (settles_primary (ih _) (Nat.le_refl _)) (by decide) (by decide)
  | initial span =>
    exact .of_settles (settles_initial (ih _) (Nat.le_refl _)) (by decide) (by decide)
  | declaration kind =>
    refine .of_keyword kind.word (fun sp tail => ?_) (fun _ _ _ => rfl) rfl
    exact .of_settles (settles_declaration (ih _) (Nat.lt_succ_self _) kind) (by decide)
      (by decide)
  | condition word =>
    exact .of_settles (settles_condition (ih _) (Nat.le_refl _)) (by decide) (by decide)
  | loop =>
    refine .of_keyword .whileWord (fun sp tail => ?_) (fun _ _ _ => rfl) rfl
    exact .of_settles (settles_loop (ih _) (Nat.lt_succ_self _)) (by decide) (by decide)

theorem Reader.leaves {work : Parse α} (h : Reader work least) {a : α} {k : Nat}
    (ends : Ends body (work ls) (.ok a) rest k) : Leaves least ls rest := by
  obtain ⟨outcome, rest', k', ends', -, hleft⟩ := h.progresses ls
  obtain ⟨rfl, rfl⟩ := ends'.unique ends
  exact hleft a rfl

theorem leaves_reach {goal : Goal} {r : goal.Result} {k : Nat}
    (ends : Ends body (reach goal ls) (.ok r) rest k) : Leaves goal.least ls rest := by
  obtain ⟨outcome, rest', k', ends', -, hleft⟩ := (Reader.goal goal).progresses ls
  obtain ⟨rfl, rfl⟩ := (Ends.call ends').unique ends
  exact hleft r rfl

/-! ## What is asked for -/

/-- The work asks for goals on suffixes of the lexemes; on all of them only for goals below the
rank.  All goals are below the rank `8`. -/
def Descends (work : Parse α) (ls : List Lexeme) (rank : Nat) : Prop :=
  ∀ goal rest, Asks body (work ls) goal rest → rest <:+ ls ∧ (rest = ls → goal.rank < rank)

namespace Descends

variable {work work' : Parse α} {first : Parse β} {f : β → Parse α}

theorem of_done {outcome : Except ParseError α} (same : work ls = .done outcome rest) :
    Descends work ls rank := by
  intro goal rest h
  rw [same] at h
  cases h

theorem of_eq (h : Descends work' ls rank) (same : work ls = work' ls) :
    Descends work ls rank := by
  intro goal rest hasks
  rw [same] at hasks
  exact h goal rest hasks

theorem reach {goal : Goal} (h : goal.rank < rank) : Descends (Parse.reach goal) ls rank := by
  rintro goal rest ⟨rfl, rfl⟩
  exact ⟨List.suffix_rfl, fun _ => h⟩

/-- What is asked for on fewer lexemes is not asked for on all of them. -/
theorem shorter (h : Descends work mid 8) (left : Leaves 1 ls mid) {goal : Goal}
    (hasks : Asks body (work mid) goal rest) :
    rest <:+ ls ∧ (rest = ls → goal.rank < rank) := by
  have hrest := (h goal rest hasks).1
  refine ⟨hrest.trans left.1, ?_⟩
  rintro rfl
  exact absurd left.2 (Nat.not_lt_of_le hrest.length_le)

/-- Work that takes lexemes at once may ask for anything after that. -/
theorem of_leaves (h : Descends work mid 8) (left : Leaves 1 ls mid)
    (same : work' ls = work mid) : Descends work' ls rank := by
  intro goal rest hasks
  rw [same] at hasks
  exact h.shorter left hasks

theorem take (h : Descends work ls 8) (same : work' (l :: ls) = work ls) :
    Descends work' (l :: ls) rank :=
  h.of_leaves ⟨List.suffix_cons l ls, Nat.le_refl _⟩ same

theorem skip {f : Unit → Parse α} (h : Descends (f ()) ls 8) :
    Descends (Parse.skip >>= f) (l :: ls) rank := h.take rfl

theorem peek {f : Lexeme → Parse α} (h : ∀ l tail, Descends (f l) (l :: tail) rank) :
    Descends (Parse.peek >>= f) ls rank := by
  cases ls with
  | nil => exact .of_done rfl
  | cons l tail => exact (h l tail).of_eq rfl

theorem instant (here : Instant first ls 1) (h : ∀ b mid, Descends (f b) mid 8) :
    Descends (first >>= f) ls rank := by
  obtain ⟨outcome, mid, same, left⟩ := here
  have hbind : (first >>= f) ls = (first ls).bind _ := rfl
  rw [same] at hbind
  cases outcome with
  | ok b => exact (h b mid).of_leaves (left b rfl) hbind
  | error e => exact .of_done hbind

/-- After a part that takes lexemes anything may be asked for. -/
theorem bind (left : ∀ {b mid k}, Ends body (first ls) (.ok b) mid k → Leaves 1 ls mid)
    (hfirst : Descends first ls rank) (h : ∀ b mid, Descends (f b) mid 8) :
    Descends (first >>= f) ls rank := by
  intro goal rest hasks
  rcases Action.asks_bind hasks with hasked | ⟨b, mid, k, ends, hnext⟩
  · exact hfirst goal rest hasked
  · exact (h b mid).shorter (left ends) hnext

/-- After a part that need not take any, the rank is to be kept. -/
theorem bind_kept (left : ∀ {b mid k}, Ends body (first ls) (.ok b) mid k → Leaves 0 ls mid)
    (hfirst : Descends first ls rank) (h : ∀ b mid, Descends (f b) mid rank) :
    Descends (first >>= f) ls rank := by
  intro goal rest hasks
  rcases Action.asks_bind hasks with hasked | ⟨b, mid, k, ends, hnext⟩
  · exact hfirst goal rest hasked
  · obtain ⟨hsuffix, -⟩ := left ends
    obtain ⟨hrest, hrank⟩ := h b mid goal rest hnext
    refine ⟨hrest.trans hsuffix, ?_⟩
    rintro rfl
    exact hrank (hrest.eq_of_length_le hsuffix.length_le)

theorem ask {goal : Goal} {f : goal.Result → Parse α} (hrank : goal.rank < rank)
    (hleast : goal.least = 1) (h : ∀ r mid, Descends (f r) mid 8) :
    Descends (Parse.reach goal >>= f) ls rank :=
  bind (fun ends => hleast ▸ leaves_reach ends) (reach hrank) h

end Descends

/-! ### Lists, blocks and functions -/

theorem descends_item {kind : Item} {f : Expr → Parse α} (hrank : 5 < rank)
    (h : ∀ e mid, Descends (f e) mid 8) : Descends (item kind >>= f) ls rank := by
  cases kind with
  | argument => exact .ask hrank rfl h
  | element => exact .ask (Nat.lt_of_succ_lt hrank) rfl h

theorem descends_items {kind : Item} {closing : Symbol} : Descends (items kind closing) ls 6 := by
  refine descends_item (by decide) fun first mid => ?_
  refine .instant (instant_separator closing mid) fun close mid' => ?_
  cases close with
  | some close => exact .of_done rfl
  | none => exact .ask (Goal.rank_lt _) rfl fun _ _ => .of_done rfl

theorem descends_list {kind : Item} {closing : Symbol} : Descends (list kind closing) ls 8 := by
  refine .peek fun l tail => ?_
  split
  · exact .of_done rfl
  · exact .reach (Goal.rank_lt _)

theorem descends_parameters : Descends parameters ls rank := by
  refine .instant (instant_bindingName ls) fun first mid => ?_
  refine .instant (instant_separator .rightParen mid) fun close mid' => ?_
  cases close with
  | some close => exact .of_done rfl
  | none => exact .ask (by decide) rfl fun _ _ => .of_done rfl

theorem descends_parameterList : Descends parameterList ls 8 := by
  refine .peek fun l tail => ?_
  split
  · exact .of_done rfl
  · exact .reach (by decide)

theorem descends_block : Descends block ls rank := by
  refine .instant (instant_expect _ _ ls) fun opening mid => ?_
  exact .ask (by decide) rfl fun _ _ => .of_done rfl

theorem descends_function {keyword : Lexeme} : Descends (function keyword) ls rank := by
  refine .instant (instant_expect _ _ ls) fun opening mid => ?_
  refine .bind Reader.parameterList.leaves descends_parameterList fun names mid' => ?_
  split
  · exact .of_done rfl
  · exact .bind Reader.block.leaves descends_block fun _ _ => .of_done rfl

theorem descends_functionExpression : Descends functionExpression ls rank := by
  refine .instant (instant_advance ls) fun keyword mid => ?_
  refine .peek fun l tail => ?_
  split
  · refine .instant (instant_bindingName _) fun name mid' => ?_
    exact .bind (Reader.function keyword).leaves descends_function fun _ _ => .of_done rfl
  · exact .bind (Reader.function keyword).leaves descends_function fun _ _ => .of_done rfl

theorem descends_functionDeclaration : Descends functionDeclaration ls rank := by
  refine .instant (instant_advance ls) fun keyword mid => ?_
  refine .instant (instant_bindingName mid) fun name mid' => ?_
  exact .bind (Reader.function keyword).leaves descends_function fun _ _ => .of_done rfl

/-! ### Expressions -/

theorem descends_keyed {key : String} {span : Span} :
    Descends (properties.keyed key span) ls rank := by
  refine .instant (instant_expect _ _ ls) fun colon mid => ?_
  exact .ask (by decide) rfl fun _ _ => .of_done rfl

theorem descends_more {first : Property} : Descends (properties.more first) ls 8 := by
  have hrest : ∀ ls : List Lexeme, Descends (reach .properties >>= fun x =>
      pure (first :: x.1, x.2) : Parse (List Property × Span)) ls 8 :=
    fun ls => .ask (by decide) rfl fun _ _ => .of_done rfl
  refine .peek fun l tail => ?_
  obtain ⟨token, sp⟩ := l
  cases token with
  | symbol mark =>
    cases mark with
    | comma => exact (hrest tail).take rfl
    | rightBrace => exact (hrest _).of_eq rfl
    | _ => exact .of_done rfl
  | _ => exact .of_done rfl

theorem descends_properties : Descends properties ls rank := by
  have hkeyed : ∀ (key : String) (span : Span) (ls : List Lexeme),
      Descends (properties.keyed key span >>= properties.more) ls 8 :=
    fun key span ls => .bind (Reader.keyed key span).leaves descends_keyed fun _ _ => descends_more
  refine .instant (instant_advance ls) fun l mid => ?_
  split
  · exact .of_done rfl
  · refine .peek fun l' tail => ?_
    split
    · exact hkeyed _ _ _
    · exact descends_more
  · exact hkeyed _ _ _
  · exact .of_done rfl

theorem descends_primary : Descends primary ls rank := by
  refine .peek fun l tail => ?_
  split
  · exact .of_done rfl
  · exact .of_done rfl
  · refine .skip ?_
    split
    · exact .of_done rfl
    · exact .of_done rfl
  · refine .skip (.ask (by decide) rfl fun inner mid => ?_)
    exact .instant (instant_expect _ _ mid) fun _ _ => .of_done rfl
  · exact .skip (.bind (Reader.list _ _).leaves descends_list fun _ _ => .of_done rfl)
  · exact .skip (.ask (by decide) rfl fun _ _ => .of_done rfl)
  · exact descends_functionExpression
  · exact .of_done rfl
  · exact .of_done rfl

theorem descends_accessStep {operand : Expr} : Descends (accessStep operand) ls rank := by
  refine .peek fun l tail => ?_
  split
  · refine .skip (.instant (instant_advance tail) fun l' mid => ?_)
    split
    · exact .reach (Goal.rank_lt _)
    · exact .of_done rfl
  · refine .skip (.ask (by decide) rfl fun key mid => ?_)
    exact .instant (instant_expect _ _ mid) fun _ _ => .reach (Goal.rank_lt _)
  · exact .skip (.bind (Reader.list _ _).leaves descends_list fun _ _ => .reach (Goal.rank_lt _))
  · exact .of_done rfl

theorem descends_unary : Descends unary ls rank := by
  refine .peek fun l tail => ?_
  split
  · exact .skip (.ask (by decide) rfl fun _ _ => .of_done rfl)
  · exact .bind Reader.primary.leaves descends_primary fun _ _ => .reach (Goal.rank_lt _)

/-- The operands of a level are of a tighter one, or they are unary. -/
theorem descends_operand {l : Level} {f : Expr → Parse α} (hrank : (Goal.level l).rank ≤ rank)
    (h : ∀ e mid, Descends (f e) mid 8) : Descends (operand l >>= f) ls rank := by
  cases l with
  | logical | comparison | additive | multiplicative => exact .ask hrank rfl h

theorem descends_chainStep {l : Level} {left : Expr} : Descends (chainStep l left) ls rank := by
  cases hop : ls.head?.bind fun lexeme => lexeme.token.connective? l with
  | none => exact .of_done (chainStep_of_none hop)
  | some op =>
    refine .of_eq ?_ (chainStep_of_some hop)
    cases ls with
    | nil => cases hop
    | cons x tail =>
      exact .skip (descends_operand (Nat.le_of_lt (Goal.rank_lt _)) fun _ _ =>
        .reach (Goal.rank_lt _))

theorem descends_assignment : Descends assignment ls 5 := by
  cases hassign : assignment? ls with
  | none =>
    have hlevel : Descends (reach (.level .logical)) ls 5 := .reach (by decide)
    exact hlevel.of_eq (assignment_of_none hassign)
  | some x =>
    obtain ⟨name, span, op, tail⟩ := x
    obtain ⟨l, rfl, -⟩ := exists_of_assignment? hassign
    have hvalue : Descends (reach .expression >>= fun value =>
        pure (.assign name op value (span.join value.span)) : Parse Expr) tail 8 :=
      .ask (by decide) rfl fun _ _ => .of_done rfl
    refine hvalue.of_leaves ⟨?_, ?_⟩ (assignment_of_some hassign)
    · exact (List.suffix_cons l tail).trans (List.suffix_cons _ _)
    · exact Nat.le_succ _

/-! ### Statements -/

theorem descends_initial {span : Span} : Descends (declarators.initial span) ls rank := by
  refine .peek fun l tail => ?_
  split
  · exact .skip (.reach (by decide))
  · exact .of_done rfl

theorem descends_declarators : Descends declarators ls rank := by
  refine .instant (instant_bindingName ls) fun name mid => ?_
  refine .bind_kept (Reader.initial _).leaves descends_initial fun value mid' => ?_
  refine .peek fun l tail => ?_
  split
  · exact .skip (.ask (by decide) rfl fun _ _ => .of_done rfl)
  · exact .of_done rfl

theorem descends_declaration {kind : DeclarationKind} : Descends (declaration kind) ls rank := by
  refine .instant (instant_advance ls) fun keyword mid => ?_
  exact .ask (by decide) rfl fun _ _ => .of_done rfl

theorem descends_condition {word : Keyword} : Descends (condition word) ls rank := by
  refine .instant (instant_expect _ _ ls) fun opening mid => ?_
  refine .ask (by decide) rfl fun e mid' => ?_
  exact .instant (instant_expect _ _ mid') fun _ _ => .of_done rfl

theorem descends_loop : Descends loop ls rank := by
  refine .instant (instant_advance ls) fun keyword mid => ?_
  refine .bind (Reader.condition _).leaves descends_condition fun e mid' => ?_
  exact .bind Reader.block.leaves descends_block fun _ _ => .of_done rfl

theorem descends_conditional : Descends conditional ls rank := by
  refine .instant (instant_advance ls) fun keyword mid => ?_
  refine .bind (Reader.condition _).leaves descends_condition fun e mid' => ?_
  refine .bind Reader.block.leaves descends_block fun consequent mid'' => ?_
  refine .peek fun l tail => ?_
  split
  · refine .skip (.peek fun l' tail' => ?_)
    split
    · exact .ask (by decide) rfl fun _ _ => .of_done rfl
    · exact .bind Reader.block.leaves descends_block fun _ _ => .of_done rfl
  · exact .of_done rfl

theorem descends_statementBody : Descends statementBody ls 6 := by
  have hplain : ∀ ls : List Lexeme,
      Descends (expression >>= fun e => pure (.expr e) : Parse Stmt) ls 6 :=
    fun ls => .ask (by decide) rfl fun _ _ => .of_done rfl
  refine .peek fun l tail => ?_
  split
  · exact descends_declaration
  · exact descends_declaration
  · have hsplit : Descends (if nameIsSecond (l :: tail) then functionDeclaration else
        expression >>= fun e => pure (.expr e)) (l :: tail) 6 := by
      split
      · exact descends_functionDeclaration
      · exact hplain _
    exact hsplit.of_eq rfl
  · exact .ask (by decide) rfl fun _ _ => .of_done rfl
  · exact descends_loop
  · exact .bind Reader.block.leaves descends_block fun _ _ => .of_done rfl
  · exact hplain _

theorem descends_braced : Descends braced ls 7 := by
  refine .bind_kept Reader.skipSemicolons.leaves (.of_done rfl) fun _ mid => ?_
  refine .peek fun l tail => ?_
  split
  · exact .of_done rfl
  · exact .of_done rfl
  · refine .ask (by decide) rfl fun first mid' => ?_
    exact .ask (by decide) rfl fun _ _ => .of_done rfl

theorem descends_program : Descends program ls 7 := by
  refine .bind_kept Reader.skipSemicolons.leaves (.of_done rfl) fun _ mid => ?_
  have hmore : Descends (statement >>= fun first => reach .program >>=
      fun rest => pure (first :: rest) : Parse (List Stmt)) mid 7 := by
    refine .ask (by decide) rfl fun first mid' => ?_
    exact .bind_kept leaves_reach (.reach (by decide)) fun _ _ => .of_done rfl
  cases mid with
  | nil => exact .of_done rfl
  | cons l tail =>
    obtain ⟨token, span⟩ := l
    cases token with
    | endOfFile => exact .of_done rfl
    | _ => exact hmore.of_eq rfl

/-- **A goal asks for goals of a lower rank only until it has taken a lexeme.** -/
theorem descends (goal : Goal) (ls : List Lexeme) : Descends (body goal) ls goal.rank := by
  cases goal with
  | program => exact descends_program
  | braced => exact descends_braced
  | statement => exact descends_statementBody
  | conditional => exact descends_conditional
  | declarators => exact descends_declarators
  | expression => exact descends_assignment
  | level l => exact descends_operand (Nat.le_refl _) fun _ _ => .reach (Goal.rank_lt _)
  | chain l left => exact descends_chainStep
  | unary => exact descends_unary
  | access operand => exact descends_accessStep
  | items kind closing => exact descends_items
  | parameters => exact descends_parameters
  | properties => exact descends_properties

/-! ## Ending -/

theorem weight_lt {goal goal' : Goal} (h : Asks body (body goal ls) goal' rest) :
    goal'.weight rest < goal.weight ls := by
  obtain ⟨hsuffix, hrank⟩ := descends goal ls goal' rest h
  have hlength := hsuffix.length_le
  have hlt := goal'.rank_lt
  unfold Goal.weight
  by_cases heq : rest = ls
  · have := hrank heq
    omega
  · have : rest.length ≠ ls.length := fun hlen => heq (hsuffix.eq_of_length hlen)
    omega

theorem Reader.exists_run {work : Parse α} (h : Reader work least) (ls : List Lexeme) :
    ∃ outcome rest, (∀ steps, stepBound ls.length ≤ steps →
        Routine.run body steps (work ls) .nothing = some (outcome, rest)) ∧
      ∀ a, outcome = .ok a → Leaves least ls rest := by
  obtain ⟨outcome, rest, k, ends, hk, hleft⟩ := h.progresses ls
  refine ⟨outcome, rest, fun steps hsteps => ?_, hleft⟩
  obtain ⟨more, rfl⟩ := Nat.exists_eq_add_of_le (show k + 1 ≤ steps by omega)
  rw [Nat.add_assoc, Nat.add_comm 1]
  exact ends.run (more + 1) .nothing

/-- A goal is done on the stack within the bound on the steps, and without it within the weight. -/
theorem exists_perform (goal : Goal) (ls : List Lexeme) : ∃ outcome rest,
    (∀ steps, stepBound ls.length ≤ steps →
      perform body steps goal ls = some (outcome, rest)) ∧
    resolve body (goal.weight ls + 1) goal ls = some (outcome, rest) := by
  have lighter : ∀ goal ls goal' rest, Asks body (body goal ls) goal' rest →
      goal'.weight rest < goal.weight ls := fun _ _ _ _ => weight_lt
  obtain ⟨⟨outcome, rest⟩, hresolve⟩ := exists_resolve_of_lighter lighter
    (Nat.lt_succ_self (goal.weight ls))
  obtain ⟨steps, hperform⟩ := perform_eq_some_iff.mpr ⟨_, hresolve⟩
  obtain ⟨k, ends⟩ := ends_of_perform hperform
  obtain ⟨outcome', rest', k', ends', hk, -⟩ := (Reader.goal goal).progresses ls
  obtain ⟨rfl, rfl⟩ := ends'.unique ends
  exact ⟨outcome', rest', fun steps hsteps => ends'.perform (Nat.le_trans hk hsteps), hresolve⟩

/-- **Parsing makes progress and ends, whatever the lexemes are.**  Each function of the parser ends
within the bound for so many lexemes, and if it yields something, it leaves a suffix of them with at
least so many gone.  Looking ahead takes nothing: what is no assignment is read from the same
lexemes, of an assignment the name and the operator are gone, and the word `function` is left for
what it begins.  A goal asks for others on suffixes, and on all of the lexemes for goals of lower
rank only; so these weigh less, and the weight bounds how deeply goals nest.  For a whole program
the parser always gives what reading comes to. -/
theorem readers_progress :
    (∀ {α : Type} {work : Parse α} {least : Nat}, Reader work least → ∀ ls, ∃ outcome rest,
      (∀ steps, stepBound ls.length ≤ steps →
        Routine.run body steps (work ls) .nothing = some (outcome, rest)) ∧
      ∀ a, outcome = .ok a → rest <:+ ls ∧ rest.length + least ≤ ls.length) ∧
    (∀ ls,
      (∃ outcome, peek ls = .done outcome ls) ∧
      (assignment? ls = none → assignment ls = level .logical ls) ∧
      (∀ name span op rest, assignment? ls = some (name, span, op, rest) →
        (∃ l, ls = ⟨.identifier name, span⟩ :: l :: rest ∧ l.token.assignOp? = some op) ∧
        assignment ls = (expression >>= fun value =>
          pure (.assign name op value (span.join value.span)) : Parse Expr) rest) ∧
      ∀ span, statementBody (⟨.keyword .functionWord, span⟩ :: ls) =
        (if nameIsSecond (⟨.keyword .functionWord, span⟩ :: ls) then functionDeclaration
          else expression >>= fun e => pure (.expr e)) (⟨.keyword .functionWord, span⟩ :: ls)) ∧
    (∀ goal ls,
      (∀ goal' rest, Asks body (body goal ls) goal' rest →
        rest <:+ ls ∧ (rest = ls → goal'.rank < goal.rank) ∧
          goal'.weight rest < goal.weight ls) ∧
      ∃ outcome rest,
        (∀ steps, stepBound ls.length ≤ steps →
          perform body steps goal ls = some (outcome, rest)) ∧
        resolve body (goal.weight ls + 1) goal ls = some (outcome, rest)) ∧
    ∀ ls, ∃ rest, ∀ steps, stepBound ls.length ≤ steps →
      perform body steps .program ls = some (run ls, rest) := by
  refine ⟨fun h ls => h.exists_run ls, fun ls => ⟨?_, assignment_of_none, ?_, fun span => rfl⟩,
    fun goal ls => ⟨fun goal' rest h => ?_, exists_perform goal ls⟩, fun ls => ?_⟩
  · cases ls with
    | nil => exact ⟨_, rfl⟩
    | cons l tail => exact ⟨_, rfl⟩
  · exact fun name span op rest h => ⟨exists_of_assignment? h, assignment_of_some h⟩
  · obtain ⟨hsuffix, hrank⟩ := descends goal ls goal' rest h
    exact ⟨hsuffix, hrank, weight_lt h⟩
  · obtain ⟨outcome, rest, hperform, -⟩ := exists_perform .program ls
    have hrun : run ls = outcome := by
      unfold run
      rw [hperform _ (Nat.le_refl _)]
    exact ⟨rest, hrun ▸ hperform⟩

/-- A loop is read although the end of the file stands in the place of its keyword; a name alone is
no assignment, and one with an operator behind it is; and a sum asks for its first operand on all of
the lexemes. -/
theorem readers_progress_misplaced :
    let x : Lexeme := ⟨.identifier "x", .none⟩
    let mark : Symbol → Lexeme := fun m => ⟨.symbol m, .none⟩
    let ls := [⟨.endOfFile, .none⟩, mark .leftParen, x, mark .rightParen, mark .leftBrace,
      mark .rightBrace, x]
    (∃ s, Routine.run body (stepBound 7) (loop ls) .nothing = some (.ok s, [x]) ∧
      [x] <:+ ls ∧ 1 + 1 ≤ ls.length) ∧
    assignment [x] = level .logical [x] ∧
    (∃ l, [x, mark .equals, x] = [x, l, x] ∧ l.token.assignOp? = some .assign) ∧
    (Goal.level .multiplicative).weight [x] < (Goal.level .additive).weight [x] := by
  intro x mark ls
  obtain ⟨hreader, hlook, hgoal, -⟩ := readers_progress
  obtain ⟨outcome, rest, hrun, hleft⟩ := hreader .loop ls
  have hloop : ∃ s, Routine.run body (stepBound 7) (loop ls) .nothing = some (.ok s, [x]) :=
    ⟨_, rfl⟩
  obtain ⟨s, hs⟩ := hloop
  obtain ⟨rfl, rfl⟩ := Prod.mk.inj (Option.some.inj ((hrun _ (Nat.le_refl _)).symm.trans hs))
  obtain ⟨-, hvalue, -⟩ := hlook [x]
  obtain ⟨⟨l, hl, hop⟩, -⟩ := (hlook [x, mark .equals, x]).2.2.1 "x" .none .assign [x] rfl
  exact ⟨⟨s, hs, hleft s rfl⟩, hvalue rfl, ⟨l, hl, hop⟩,
    ((hgoal (.level .additive) [x]).1 (.level .multiplicative) [x] (.inl ⟨rfl, rfl⟩)).2.2⟩

end Parse

end Script
