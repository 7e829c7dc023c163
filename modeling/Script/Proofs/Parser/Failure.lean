import Script.Proofs.Parser.Descent
import Script.Proofs.Parser.Effort

/-!
# Where a reading fails

On any list of lexemes the parser comes to an end within its bound, with statements or with an
error.  The error points at one of the lexemes, unless the list has no end of the file and the
parser runs past its last lexeme (`Parse.blames_of_run`).

`Settles` counts steps as `Pays` does, and it covers failures too.  Work that yields something has
taken lexemes, and these have paid.  Work that fails need not have taken any: all lexemes that were
there pay, and beyond them it may have cost a fixed `excess`, for the goals that are asked for one
in another before the first lexeme is taken.
-/

namespace Script

open Routine

/-- The second list is what is left of the first one, and the end of the file has not been taken. -/
def Takes (ls rest : List Lexeme) : Prop :=
  ∃ front, ls = front ++ rest ∧ ∀ x ∈ front, x.token ≠ .endOfFile

namespace Takes

variable {ls mid rest : List Lexeme}

theorem refl (ls : List Lexeme) : Takes ls ls := ⟨[], rfl, nofun⟩

theorem trans (h : Takes ls mid) (h' : Takes mid rest) : Takes ls rest := by
  obtain ⟨front, rfl, hfront⟩ := h
  obtain ⟨front', rfl, hfront'⟩ := h'
  refine ⟨front ++ front', (List.append_assoc _ _ _).symm, fun x hx => ?_⟩
  rcases List.mem_append.mp hx with hx | hx
  · exact hfront x hx
  · exact hfront' x hx

theorem cons {l : Lexeme} (proper : l.token ≠ .endOfFile) (h : Takes ls rest) :
    Takes (l :: ls) rest := by
  obtain ⟨front, rfl, hfront⟩ := h
  exact ⟨l :: front, rfl, List.forall_mem_cons.mpr ⟨proper, hfront⟩⟩

end Takes

/-- The error points at one of the lexemes.  If the end of the file is missing, it may also say
that they ran out. -/
def ParseError.Blames (e : ParseError) (ls : List Lexeme) : Prop :=
  (∃ x ∈ ls, x.span = e.span) ∨ e = .unexpectedEnd .none ∧ ∀ x ∈ ls, x.token ≠ .endOfFile

namespace ParseError.Blames

variable {e : ParseError} {ls rest : List Lexeme}

theorem front {l : Lexeme} (h : l.span = e.span) : e.Blames (l :: ls) :=
  .inl ⟨l, List.mem_cons_self, h⟩

theorem dry : (ParseError.unexpectedEnd .none).Blames [] := .inr ⟨rfl, nofun⟩

/-- What is to blame on the lexemes that are left is to blame on all of them. -/
theorem of_takes (h : e.Blames rest) (htakes : Takes ls rest) : e.Blames ls := by
  obtain ⟨front, rfl, hfront⟩ := htakes
  rcases h with ⟨x, hx, hspan⟩ | ⟨rfl, hdry⟩
  · exact .inl ⟨x, List.mem_append_right _ hx, hspan⟩
  · refine .inr ⟨rfl, fun x hx => ?_⟩
    rcases List.mem_append.mp hx with hx | hx
    · exact hfront x hx
    · exact hdry x hx

end ParseError.Blames

namespace Parse

variable {α β : Type} {a : α} {ls mid rest : List Lexeme} {l : Lexeme} {e : ParseError}
variable {slack excess : Int} {post : α → Prop} {post' : β → Prop}

/-- The work comes to an end.  Either it yields something that satisfies `post`, and of `64` steps
for each lexeme that it takes `slack` are left over; or it fails with an error that points at one
of the lexemes, after no more than `64` steps for each of them and `excess` beyond. -/
inductive Settles (work : Parse α) (ls : List Lexeme) (slack excess : Int) (post : α → Prop) : Prop
  | yields {a : α} {rest : List Lexeme} {k : Nat} (ends : Ends body (work ls) (.ok a) rest k)
      (takes : Takes ls rest) (paid : k + slack + 64 * rest.length ≤ 64 * ls.length)
      (sound : post a)
  | fails {e : ParseError} {rest : List Lexeme} {k : Nat}
      (ends : Ends body (work ls) (.error e) rest k) (blames : e.Blames ls)
      (paid : k ≤ 64 * ls.length + excess)

namespace Settles

variable {work work' : Parse α} {more : Int}

theorem of_eq (h : Settles work' ls slack excess post) (same : work ls = work' ls) :
    Settles work ls slack excess post := by
  rcases h with ⟨ends, takes, paid, sound⟩ | ⟨ends, blames, paid⟩
  · exact .yields (same ▸ ends) takes paid sound
  · exact .fails (same ▸ ends) blames paid

theorem pure (hpost : post a) (hle : slack ≤ 0) :
    Settles (Pure.pure a) ls slack excess post :=
  .yields (.done _ _) (.refl ls) (by omega) hpost

/-- Work that fails at once. -/
theorem failure (e : ParseError) (rest : List Lexeme) (same : work ls = .done (.error e) rest)
    (blames : e.Blames ls) (hle : 0 ≤ excess) : Settles work ls slack excess post :=
  .fails (k := 0) (by rw [same]; exact .done _ _) blames (by omega)

/-- Work that takes a lexeme at once has what this lexeme pays. -/
theorem take (h : Settles work ls (slack - 64) (excess + 64) post)
    (proper : l.token ≠ .endOfFile) (same : work' (l :: ls) = work ls) :
    Settles work' (l :: ls) slack excess post := by
  have htakes : Takes (l :: ls) ls := .cons proper (.refl ls)
  rcases h with ⟨ends, takes, paid, sound⟩ | ⟨ends, blames, paid⟩
  · refine .yields (same ▸ ends) (htakes.trans takes) ?_ sound
    rw [List.length_cons]
    omega
  · refine .fails (same ▸ ends) (blames.of_takes htakes) ?_
    rw [List.length_cons]
    omega

/-- After a first part that yields something the second one goes on with what is left.  It may also
fail at once with an error that points at what the first part has taken. -/
theorem bind_or {first : Parse β} {f : β → Parse α} {enough most : Int}
    (h : Settles first ls enough most post')
    (h' : ∀ b mid, Takes ls mid → 64 * (mid.length : Int) + enough ≤ 64 * ls.length → post' b →
      Settles (f b) mid (slack + 1 - enough) (excess - 1 + enough) post ∨
        ∃ e, f b mid = .done (.error e) mid ∧ e.Blames ls)
    (hle : most + 1 ≤ excess) (hle' : 1 ≤ enough + excess) :
    Settles (first >>= f) ls slack excess post := by
  rcases h with @⟨b, mid, k, ends, takes, paid, sound⟩ | @⟨e, mid, k, ends, blames, paid⟩
  · rcases h' b mid takes (by omega) sound with
      (@⟨a, rest, k', ends', takes', paid', sound'⟩ | @⟨e, rest, k', ends', blames', paid'⟩) |
      ⟨e, same, blames⟩
    · obtain ⟨n, hn, hends⟩ := Action.ends_bind ends ends'
      exact .yields hends (takes.trans takes') (by omega) sound'
    · obtain ⟨n, hn, hends⟩ := Action.ends_bind ends ends'
      exact .fails hends (blames'.of_takes takes) (by omega)
    · have ends' : Ends body (f b mid) (.error e) mid 0 := by
        rw [same]
        exact .done _ _
      obtain ⟨n, hn, hends⟩ := Action.ends_bind ends ends'
      exact .fails hends blames (by omega)
  · obtain ⟨n, hn, hends⟩ := Action.ends_bind_error ends
    exact .fails hends blames (by omega)

theorem bind {first : Parse β} {f : β → Parse α} {enough most : Int}
    (h : Settles first ls enough most post')
    (h' : ∀ b mid, Takes ls mid → 64 * (mid.length : Int) + enough ≤ 64 * ls.length → post' b →
      Settles (f b) mid (slack + 1 - enough) (excess - 1 + enough) post)
    (hle : most + 1 ≤ excess) (hle' : 1 ≤ enough + excess) :
    Settles (first >>= f) ls slack excess post :=
  h.bind_or (fun b mid takes paid sound => .inl (h' b mid takes paid sound)) hle hle'

/-- A goal takes one step to be asked for. -/
theorem reach {goal : Goal} {post : goal.Result → Prop}
    (h : Settles (body goal) ls slack excess post) :
    Settles (Parse.reach goal) ls (slack - 1) (excess + 1) post := by
  rcases h with ⟨ends, takes, paid, sound⟩ | ⟨ends, blames, paid⟩
  · exact .yields (.call ends) takes (by omega) sound
  · exact .fails (.call ends) blames (by omega)

theorem weaken (h : Settles work ls slack excess post) {enough most : Int} {post' : α → Prop}
    (hslack : enough ≤ slack) (hexcess : excess ≤ most) (hpost : ∀ a, post a → post' a) :
    Settles work ls enough most post' := by
  rcases h with ⟨ends, takes, paid, sound⟩ | ⟨ends, blames, paid⟩
  · exact .yields ends takes (by omega) (hpost _ sound)
  · exact .fails ends blames (by omega)

/-! ### Single lexemes -/

theorem peek {f : Lexeme → Parse α}
    (h : ∀ l tail, ls = l :: tail → Settles (f l) ls slack excess post) (hle : 0 ≤ excess) :
    Settles (Parse.peek >>= f) ls slack excess post := by
  cases ls with
  | nil => exact .failure _ _ rfl .dry hle
  | cons l tail => exact (h l tail rfl).of_eq rfl

theorem skip {f : Unit → Parse α} (h : Settles (f ()) ls (slack - 64) (excess + 64) post)
    (proper : l.token ≠ .endOfFile) : Settles (Parse.skip >>= f) (l :: ls) slack excess post :=
  h.take proper rfl

theorem advance {f : Lexeme → Parse α} (h : Settles (f l) ls (slack - 64) (excess + 64) post)
    (proper : l.token ≠ .endOfFile) :
    Settles (Parse.advance >>= f) (l :: ls) slack excess post :=
  h.take proper rfl

theorem expect {mark : Symbol} {expectation : Expectation} {f : Lexeme → Parse α}
    (h : ∀ sp tail, ls = ⟨.symbol mark, sp⟩ :: tail →
      Settles (f ⟨.symbol mark, sp⟩) tail (slack - 64) (excess + 64) post) (hle : 0 ≤ excess) :
    Settles (Parse.expect mark expectation >>= f) ls slack excess post := by
  cases ls with
  | nil => exact .failure _ _ rfl .dry hle
  | cons l tail =>
    obtain ⟨token, sp⟩ := l
    by_cases hmark : token = .symbol mark
    · subst hmark
      exact (h sp tail rfl).take nofun (expect_bind_mark f)
    · exact .failure _ _ (expect_bind_of_ne f hmark) (.front rfl) hle

theorem bindingName {f : String × Span → Parse α}
    (h : ∀ name sp tail, ls = ⟨.identifier name, sp⟩ :: tail →
      Settles (f (name, sp)) tail (slack - 64) (excess + 64) post) (hle : 0 ≤ excess) :
    Settles (Parse.bindingName >>= f) ls slack excess post := by
  cases ls with
  | nil => exact .failure _ _ rfl .dry hle
  | cons l tail =>
    obtain ⟨token, sp⟩ := l
    cases token with
    | identifier name =>
      by_cases hconstant : (Constant.ofSpelling? name).isSome
      · exact .failure _ _ (bindingName_bind_constant f hconstant) (.front rfl) hle
      · have hfree : Constant.ofSpelling? name = none := by simpa using hconstant
        exact (h name sp tail rfl).take nofun (bindingName_bind_free f hfree)
    | _ => exact .failure (.expected .name _ sp) _ rfl (.front rfl) hle

theorem separator {closing : Symbol} {f : Option Span → Parse α}
    (hcomma : ∀ sp tail, ls = ⟨.symbol .comma, sp⟩ :: tail →
      Settles (f none) tail (slack - 64) (excess + 64) post)
    (hclosing : ∀ sp tail, ls = ⟨.symbol closing, sp⟩ :: tail →
      Settles (f (some sp)) tail (slack - 64) (excess + 64) post) (hle : 0 ≤ excess) :
    Settles (Parse.separator closing >>= f) ls slack excess post := by
  cases ls with
  | nil => exact .failure _ _ rfl .dry hle
  | cons l tail =>
    obtain ⟨token, sp⟩ := l
    by_cases hmark : token = .symbol .comma
    · subst hmark
      exact (hcomma sp tail rfl).take nofun (separator_bind_comma f)
    by_cases hclose : token = .symbol closing
    · subst hclose
      have hproper : closing ≠ .comma := fun he => hmark (congrArg Token.symbol he)
      exact (hclosing sp tail rfl).take nofun (separator_bind_closing f hproper)
    · exact .failure _ _ (separator_bind_of_ne f hmark hclose) (.front rfl) hle

end Settles

end Parse

namespace Goal

/-- What a goal leaves over when it is reached. -/
def slack : Goal → Int
  | program | chain _ _ | access _ => 0
  | braced | statement | declarators | properties => 10
  | conditional | items _ _ | parameters => 20
  | expression => 49
  | level l => l.slack
  | unary => 62

/-- What a goal may cost beyond the lexemes in front of it when it is not reached. -/
def excess : Goal → Int
  | unary | chain _ _ | access _ | conditional | declarators | parameters | properties => 4
  | level .multiplicative => 8
  | level .additive => 12
  | level .comparison => 16
  | level .logical => 20
  | expression => 24
  | statement | items _ _ => 32
  | program | braced => 40

/-- The parameters of a function stand among the lexemes.  Of other goals nothing is asked. -/
def Sound : (goal : Goal) → List Lexeme → goal.Result → Prop
  | parameters, ls, names => ∀ p ∈ names, ∃ x ∈ ls, x.span = p.2
  | _, _, _ => True

/-- The goal is reached from the lexemes, or it is not, and that is settled in few steps. -/
def Settles (goal : Goal) (ls : List Lexeme) : Prop :=
  Parse.Settles (Parse.body goal) ls goal.slack goal.excess (goal.Sound ls)

/-- It takes one step to be asked for. -/
theorem Settles.reach {goal : Goal} {ls : List Lexeme} (h : goal.Settles ls) :
    Parse.Settles (Parse.reach goal) ls (goal.slack - 1) (goal.excess + 1) (goal.Sound ls) :=
  Parse.Settles.reach h

end Goal

namespace Parse

variable {ls : List Lexeme} {n : Nat}

/-- All goals are settled on lists with fewer than `n` lexemes. -/
def SettlesBelow (n : Nat) : Prop :=
  ∀ (goal : Goal) (ls : List Lexeme), ls.length < n → goal.Ready ls → goal.Settles ls

theorem firstRepeat?_mem {seen : List String} {names : List (String × Span)} {p : String × Span}
    (h : firstRepeat? seen names = some p) : p ∈ names := by
  induction names generalizing seen with
  | nil => cases h
  | cons q names ih =>
    rw [firstRepeat?] at h
    split at h
    · cases h
      exact List.mem_cons_self
    · exact List.mem_cons_of_mem _ (ih h)

section Functions

variable (ih : SettlesBelow n)
include ih

/-! ## Lists, blocks and functions -/

theorem settles_block (hn : ls.length ≤ n) : Settles block ls 20 10 fun _ => True := by
  refine .expect (fun sp tail h => ?_) (by decide)
  subst h
  refine .bind (ih .braced tail hn trivial).reach (fun x mid _ _ _ => ?_) (by decide)
    (by decide)
  exact .pure trivial (by decide)

theorem settles_list {kind : Item} {closing : Symbol} (hn : ls.length < n) :
    Settles (list kind closing) ls 10 40 fun _ => True := by
  refine .peek (fun l tail h => ?_) (by decide)
  subst h
  split
  · next hmark =>
    refine .skip (.pure trivial (by decide)) ?_
    rw [hmark]
    nofun
  · refine (ih (.items kind closing) _ hn trivial).reach.weaken ?_ ?_ fun _ _ => trivial
    · exact show (10 : Int) ≤ 20 - 1 by decide
    · exact show (32 : Int) + 1 ≤ 40 by decide

theorem settles_parameterList (hn : ls.length < n) :
    Settles parameterList ls 10 10 (Goal.parameters.Sound ls) := by
  refine .peek (fun l tail h => ?_) (by decide)
  subst h
  split
  · next hmark =>
    refine .skip (.pure nofun (by decide)) ?_
    rw [hmark]
    nofun
  · exact (ih .parameters _ hn trivial).reach.weaken (by decide) (by decide) fun _ => id

theorem settles_function {keyword : Lexeme} (hn : ls.length ≤ n) :
    Settles (function keyword) ls 10 10 fun _ => True := by
  refine .expect (fun sp tail h => ?_) (by decide)
  subst h
  refine .bind_or (settles_parameterList ih hn) (fun names mid _ hmid hsound => ?_) (by decide)
    (by decide)
  cases hrepeat : firstRepeat? [] names with
  | none =>
    refine .inl (.bind (settles_block ih ?_) (fun b rest _ _ _ => ?_) (by decide) (by decide))
    · have : tail.length < n := hn
      omega
    · exact .pure trivial (by decide)
  | some p =>
    -- The parameter that repeats another one has been taken.
    obtain ⟨x, hx, hspan⟩ := hsound p (firstRepeat?_mem hrepeat)
    exact .inr ⟨.duplicateParameter p.1 p.2, rfl, .inl ⟨x, hx, hspan⟩⟩

theorem settles_items {kind : Item} {closing : Symbol} (hn : ls.length ≤ n)
    (hexpression : Goal.expression.Settles ls) (hlevel : (Goal.level .logical).Settles ls) :
    (Goal.items kind closing).Settles ls := by
  have hitem : Settles (item kind) ls 48 25 fun _ => True := by
    cases kind with
    | argument => exact hexpression.reach
    | element => exact hlevel.reach.weaken (by decide) (by decide) fun _ => id
  show Settles (items kind closing) ls 20 32 fun _ => True
  refine hitem.bind (fun first mid _ hmid _ => ?_) (by decide) (by decide)
  refine .separator (fun sp tail h => ?_) (fun sp tail h => ?_) (by decide)
  · subst h
    have htail : tail.length < n := by
      rw [List.length_cons] at hmid
      omega
    refine .bind (ih (.items kind closing) tail htail trivial).reach (fun x rest _ _ _ => ?_) ?_ ?_
    · exact .pure trivial (show (20 : Int) + 1 - 48 - 64 + 1 - (20 - 1) ≤ 0 by decide)
    · exact show (32 : Int) + 1 + 1 ≤ 32 - 1 + 48 + 64 by decide
    · exact show (1 : Int) ≤ 20 - 1 + (32 - 1 + 48 + 64) by decide
  · exact .pure trivial (by decide)

theorem settles_parameters (hn : ls.length ≤ n) : Goal.parameters.Settles ls := by
  show Settles parameters ls 20 4 (Goal.parameters.Sound ls)
  refine .bindingName (fun name sp tail h => ?_) (by decide)
  subst h
  refine .separator (fun sp' tail' h => ?_) (fun sp' tail' h => ?_) (by decide)
  · subst h
    refine .bind (ih .parameters tail' (Nat.lt_of_succ_lt hn) trivial).reach
      (fun names rest _ _ hsound => ?_) (by decide) (by decide)
    refine .pure (List.forall_mem_cons.mpr ⟨⟨_, List.mem_cons_self, rfl⟩, fun p hp => ?_⟩)
      (by decide)
    obtain ⟨x, hx, hspan⟩ := hsound p hp
    exact ⟨x, List.mem_cons_of_mem _ (List.mem_cons_of_mem _ hx), hspan⟩
  · refine .pure (fun p hp => ?_) (by decide)
    rw [List.mem_singleton.mp hp]
    exact ⟨_, List.mem_cons_self, rfl⟩

theorem settles_keyed {key : String} {sp : Span} (hn : ls.length ≤ n) :
    Settles (properties.keyed key sp) ls 40 10 fun _ => True := by
  refine .expect (fun sp' tail h => ?_) (by decide)
  subst h
  refine .bind (ih .expression tail hn trivial).reach (fun value mid _ _ _ => ?_) (by decide)
    (by decide)
  exact .pure trivial (by decide)

theorem settles_more {first : Property} (hn : ls.length < n) :
    Settles (properties.more first) ls 0 20 fun _ => True := by
  refine .peek (fun l tail h => ?_) (by decide)
  subst h
  obtain ⟨token, sp⟩ := l
  -- Behind a comma and in front of the closing brace the rest is read in the same way.
  have hrest : ∀ ls : List Lexeme, ls.length < n → Settles
      (reach .properties >>= fun x => pure (first :: x.1, x.2) : Parse (List Property × Span))
      ls 0 20 fun _ => True := by
    intro ls hls
    refine .bind (ih .properties ls hls trivial).reach (fun x rest _ _ _ => ?_) (by decide)
      (by decide)
    exact .pure trivial (by decide)
  cases token with
  | symbol mark =>
    cases mark with
    | comma =>
      refine ((hrest tail (Nat.lt_of_succ_lt hn)).weaken ?_ ?_ fun _ => id).take nofun rfl
      · decide
      · decide
    | rightBrace => exact (hrest _ hn).of_eq rfl
    | _ => exact .failure (.expected (.commaOr .rightBrace) _ sp) _ rfl (.front rfl) (by decide)
  | _ => exact .failure (.expected (.commaOr .rightBrace) _ sp) _ rfl (.front rfl) (by decide)

theorem settles_properties (hn : ls.length ≤ n) : Goal.properties.Settles ls := by
  show Settles properties ls 10 4 fun _ => True
  cases ls with
  | nil => exact .failure _ _ rfl .dry (by decide)
  | cons l tail =>
    obtain ⟨token, sp⟩ := l
    -- A key with a value, and then the other entries.
    have hkeyed : ∀ key, Settles
        (properties.keyed key sp >>= properties.more : Parse (List Property × Span)) tail
        (10 - 64) (4 + 64) fun _ => True := by
      intro key
      refine (settles_keyed ih (Nat.le_of_lt hn)).bind (fun p mid _ hmid _ => ?_) (by decide)
        (by decide)
      have htail : tail.length < n := hn
      exact (settles_more ih (by omega)).weaken (by decide) (by decide) fun _ => id
    cases token with
    | symbol mark =>
      cases mark with
      | rightBrace => exact .advance (.pure trivial (by decide)) nofun
      | _ => exact .failure (.expected .propertyName _ sp) _ rfl (.front rfl) (by decide)
    | identifier name =>
      refine .advance (.peek (fun l tail' h => ?_) (by decide)) nofun
      split
      · exact hkeyed name
      · exact (settles_more ih hn).weaken (by decide) (by decide) fun _ => id
    | string key => exact .advance (hkeyed key) nofun
    | _ => exact .failure (.expected .propertyName _ sp) _ rfl (.front rfl) (by decide)

theorem settles_functionExpression {sp : Span} {tail : List Lexeme} (hn : tail.length < n) :
    Settles functionExpression (⟨.keyword .functionWord, sp⟩ :: tail) 64 2 fun _ => True := by
  refine .advance (.peek (fun l tail' h => ?_) (by decide)) nofun
  subst h
  obtain ⟨token, sp'⟩ := l
  cases token with
  | identifier name =>
    refine .bindingName (fun name sp tail h => ?_) (by decide)
    cases h
    refine .bind (settles_function ih (Nat.le_of_lt (Nat.lt_of_succ_lt hn)))
      (fun f rest _ _ _ => ?_) (by decide) (by decide)
    exact .pure trivial (by decide)
  | _ =>
    refine .bind (settles_function ih (Nat.le_of_lt hn)) (fun f rest _ _ _ => ?_) (by decide)
      (by decide)
    exact .pure trivial (by decide)

theorem settles_functionDeclaration {sp : Span} {tail : List Lexeme} (hn : tail.length < n) :
    Settles functionDeclaration (⟨.keyword .functionWord, sp⟩ :: tail) 10 32 fun _ => True := by
  refine .advance (.bindingName (fun name sp' tail' h => ?_) (by decide)) nofun
  subst h
  refine .bind (settles_function ih (Nat.le_of_lt (Nat.lt_of_succ_lt hn)))
    (fun f rest _ _ _ => ?_) (by decide) (by decide)
  exact .pure trivial (by decide)

/-! ## Expressions -/

theorem settles_primary (hn : ls.length ≤ n) : Settles primary ls 64 2 fun _ => True := by
  refine .peek (fun l tail h => ?_) (by decide)
  subst h
  obtain ⟨token, sp⟩ := l
  have htail : tail.length < n := hn
  cases token with
  | number value => exact .skip (.pure trivial (by decide)) nofun
  | string value => exact .skip (.pure trivial (by decide)) nofun
  | identifier name =>
    refine .skip ?_ nofun
    split
    · exact .pure trivial (by decide)
    · exact .pure trivial (by decide)
  | symbol mark =>
    cases mark with
    | leftParen =>
      refine .skip ?_ nofun
      refine .bind (ih .expression tail hn trivial).reach (fun e mid _ _ _ => ?_) (by decide)
        (by decide)
      refine .expect (fun sp rest _ => ?_) (by decide)
      exact .pure trivial (by decide)
    | leftBracket =>
      refine .skip ?_ nofun
      refine .bind (settles_list ih hn) (fun x mid _ _ _ => ?_) (by decide) (by decide)
      exact .pure trivial (by decide)
    | leftBrace =>
      refine .skip ?_ nofun
      refine .bind (ih .properties tail hn trivial).reach (fun x mid _ _ _ => ?_) (by decide)
        (by decide)
      exact .pure trivial (by decide)
    | _ => exact .failure (.unexpectedToken _ sp) _ rfl (.front rfl) (by decide)
  | keyword word =>
    cases word with
    | functionWord =>
      exact settles_functionExpression ih hn
    | _ => exact .failure (.unexpectedToken _ sp) _ rfl (.front rfl) (by decide)
  | endOfFile => exact .failure (.unexpectedEnd sp) _ rfl (.front rfl) (by decide)
  | _ => exact .failure (.unexpectedToken _ sp) _ rfl (.front rfl) (by decide)

theorem settles_access {operand : Expr} (hn : ls.length ≤ n) :
    (Goal.access operand).Settles ls := by
  show Settles (accessStep operand) ls 0 4 fun _ => True
  refine .peek (fun l tail h => ?_) (by decide)
  subst h
  obtain ⟨token, sp⟩ := l
  have htail : tail.length < n := hn
  -- What is accessed may be accessed again.
  have hmore : ∀ e : Expr, ∀ ls : List Lexeme, ls.length < n →
      Settles (access e) ls (0 - 1) (4 + 1) fun _ => True :=
    fun e ls hls => (ih (.access e) ls hls trivial).reach
  cases token with
  | symbol mark =>
    cases mark with
    | dot =>
      refine .skip ?_ nofun
      cases tail with
      | nil => exact .failure _ _ rfl .dry (by decide)
      | cons l tail =>
        obtain ⟨token, sp'⟩ := l
        cases token with
        | identifier name =>
          refine .advance ((hmore _ tail (Nat.lt_of_succ_lt hn)).weaken ?_ ?_ fun _ => id) nofun
          · decide
          · decide
        | _ => exact .failure (.expected .nameAfterDot _ sp') _ rfl (.front rfl) (by decide)
    | leftBracket =>
      refine .skip ?_ nofun
      refine .bind (ih .expression tail hn trivial).reach (fun e mid _ hmid _ => ?_) (by decide)
        (by decide)
      have hmid : mid.length < n := by
        have : (0 : Int) ≤ Goal.expression.slack - 1 := by decide
        omega
      refine .expect (fun sp rest h => ?_) (by decide)
      subst h
      exact (hmore _ rest (Nat.lt_of_succ_lt hmid)).weaken (by decide) (by decide) fun _ => id
    | leftParen =>
      refine .skip ?_ nofun
      refine .bind (settles_list ih hn) (fun x mid _ hmid _ => ?_) (by decide) (by decide)
      exact (hmore _ mid (by omega)).weaken (by decide) (by decide) fun _ => id
    | _ => exact .pure trivial (by decide)
  | _ => exact .pure trivial (by decide)

theorem settles_unary (hn : ls.length ≤ n) : Goal.unary.Settles ls := by
  show Settles unary ls 62 4 fun _ => True
  refine .peek (fun l tail h => ?_) (by decide)
  subst h
  cases hsign : l.token.unaryOp? with
  | some op =>
    refine .skip ?_ ?_
    · refine .bind (ih .unary tail hn trivial).reach (fun e mid _ _ _ => ?_) (by decide)
        (by decide)
      exact .pure trivial (by decide)
    · rintro hend
      rw [hend] at hsign
      cases hsign
  | none =>
    refine .bind (settles_primary ih hn) (fun e mid _ hmid _ => ?_) (by decide) (by decide)
    have hmid : mid.length < n := by omega
    exact (ih (.access e) mid hmid trivial).reach.weaken
      (show (62 : Int) + 1 - 64 ≤ 0 - 1 by decide) (show (4 : Int) + 1 ≤ 4 - 1 + 64 by decide)
      fun _ => id

omit ih in
/-- An operand of a level leaves three steps more than the level, one of them for being asked. -/
theorem settles_operand {l : Level}
    (htighter : ∀ l', l.tighter? = some l' → (Goal.level l').Settles ls)
    (hunary : Goal.unary.Settles ls) :
    Settles (operand l) ls (l.slack + 2) ((Goal.level l).excess - 3) fun _ => True := by
  cases l with
  | logical => exact (htighter .comparison rfl).reach
  | comparison => exact (htighter .additive rfl).reach
  | additive => exact (htighter .multiplicative rfl).reach
  | multiplicative => exact hunary.reach

theorem settles_level {l : Level} (hn : ls.length ≤ n)
    (htighter : ∀ l', l.tighter? = some l' → (Goal.level l').Settles ls)
    (hunary : Goal.unary.Settles ls) : (Goal.level l).Settles ls := by
  have hslack : 50 ≤ l.slack := by cases l <;> decide
  have hexcess : 8 ≤ (Goal.level l).excess := by cases l <;> decide
  show Settles (operand l >>= chain l) ls l.slack (Goal.level l).excess fun _ => True
  refine (settles_operand htighter hunary).bind (fun e mid _ hmid _ => ?_) (by omega) (by omega)
  have hmid : mid.length < n := by omega
  refine (ih (.chain l e) mid hmid trivial).reach.weaken ?_ ?_ fun _ => id
  · show _ ≤ (0 : Int) - 1
    omega
  · show (4 : Int) + 1 ≤ _
    omega

theorem settles_chain {l : Level} {left : Expr} (hn : ls.length ≤ n) :
    (Goal.chain l left).Settles ls := by
  have hslack : 50 ≤ l.slack := by cases l <;> decide
  have hexcess : (Goal.level l).excess ≤ 20 := by cases l <;> decide
  show Settles (chainStep l left) ls 0 4 fun _ => True
  cases hop : ls.head?.bind fun lexeme => lexeme.token.connective? l with
  | none => exact (Settles.pure trivial (by decide)).of_eq (chainStep_of_none hop)
  | some op =>
    refine Settles.of_eq ?_ (chainStep_of_some hop)
    cases ls with
    | nil => cases hop
    | cons x tail =>
      have hop : x.token.connective? l = some op := hop
      refine .skip ?_ ?_
      · have hoperand := settles_operand (l := l) (fun l' _ => ih (.level l') tail hn trivial)
          (ih .unary tail hn trivial)
        refine hoperand.bind (fun e mid _ hmid _ => ?_) (by omega) (by omega)
        have htail : tail.length < n := hn
        have hmid : mid.length < n := by omega
        refine (ih (.chain l (op.join left e)) mid hmid trivial).reach.weaken ?_ ?_ fun _ => id
        · show _ ≤ (0 : Int) - 1
          omega
        · show (4 : Int) + 1 ≤ _
          omega
      · intro hend
        rw [hend] at hop
        cases hop

theorem settles_expression (hn : ls.length ≤ n) (hlevel : (Goal.level .logical).Settles ls) :
    Goal.expression.Settles ls := by
  show Settles assignment ls 49 24 fun _ => True
  cases hassign : assignment? ls with
  | none =>
    exact (hlevel.reach.weaken (by decide) (by decide) fun _ => id).of_eq
      (assignment_of_none hassign)
  | some x =>
    obtain ⟨name, sp, op, tail⟩ := x
    obtain ⟨l, rfl, hop⟩ := exists_of_assignment? hassign
    have hvalue : Settles (reach .expression >>= fun value =>
        pure (.assign name op value (sp.join value.span)) : Parse Expr) tail
        (49 - 64 - 64) (24 + 64 + 64) fun _ => True := by
      refine .bind (ih .expression tail (Nat.lt_of_succ_lt hn) trivial).reach
        (fun value rest _ _ _ => ?_) (by decide) (by decide)
      exact .pure trivial (by decide)
    have hproper : l.token ≠ .endOfFile := by
      intro hend
      rw [hend] at hop
      cases hop
    -- The name and the operator are taken together.
    have hboth : Settles (fun ls => (reach .expression >>= fun value =>
        pure (.assign name op value (sp.join value.span)) : Parse Expr) ls.tail) (l :: tail)
        (49 - 64) (24 + 64) fun _ => True := hvalue.take hproper rfl
    exact hboth.take nofun (assignment_of_some hassign)

/-! ## Statements -/

theorem settles_initial {sp : Span} (hn : ls.length ≤ n) :
    Settles (declarators.initial sp) ls 0 4 fun _ => True := by
  refine .peek (fun l tail h => ?_) (by decide)
  subst h
  split
  · next hmark =>
    refine .skip ((ih .expression tail hn trivial).reach.weaken ?_ ?_ fun _ => id) ?_
    · decide
    · decide
    · rw [hmark]
      nofun
  · exact .pure trivial (by decide)

theorem settles_declarators (hn : ls.length ≤ n) : Goal.declarators.Settles ls := by
  show Settles declarators ls 10 4 fun _ => True
  refine .bindingName (fun name sp tail h => ?_) (by decide)
  subst h
  refine .bind (settles_initial ih (Nat.le_of_lt hn)) (fun value mid _ hmid _ => ?_) (by decide)
    (by decide)
  refine .peek (fun l tail' h => ?_) (by decide)
  subst h
  split
  · next hmark =>
    have htail : tail.length < n := hn
    have hmid : tail'.length < n := by
      rw [List.length_cons] at hmid
      omega
    refine .skip ?_ ?_
    · refine .bind (ih .declarators tail' hmid trivial).reach (fun ds rest _ _ _ => ?_) (by decide)
        (by decide)
      exact .pure trivial (by decide)
    · rw [hmark]
      nofun
  · exact .pure trivial (by decide)

theorem settles_declaration {sp : Span} {tail : List Lexeme} (hn : tail.length < n)
    (kind : DeclarationKind) :
    Settles (declaration kind) (⟨.keyword kind.word, sp⟩ :: tail) 10 32 fun _ => True := by
  refine .advance ?_ nofun
  refine .bind (ih .declarators tail hn trivial).reach (fun ds rest _ _ _ => ?_) (by decide)
    (by decide)
  exact .pure trivial (by decide)

theorem settles_condition {word : Keyword} (hn : ls.length ≤ n) :
    Settles (condition word) ls 20 10 fun _ => True := by
  refine .expect (fun sp tail h => ?_) (by decide)
  subst h
  refine .bind (ih .expression tail hn trivial).reach (fun e mid _ _ _ => ?_) (by decide)
    (by decide)
  refine .expect (fun sp rest _ => ?_) (by decide)
  exact .pure trivial (by decide)

theorem settles_loop {sp : Span} {tail : List Lexeme} (hn : tail.length < n) :
    Settles loop (⟨.keyword .whileWord, sp⟩ :: tail) 10 32 fun _ => True := by
  refine .advance ?_ nofun
  refine .bind (settles_condition ih (Nat.le_of_lt hn)) (fun e mid _ hmid _ => ?_) (by decide)
    (by decide)
  refine .bind (settles_block ih (by omega)) (fun b rest _ _ _ => ?_) (by decide) (by decide)
  exact .pure trivial (by decide)

theorem settles_conditional (hn : ls.length ≤ n) (ready : Goal.conditional.Ready ls) :
    Goal.conditional.Settles ls := by
  obtain ⟨sp, tail, rfl⟩ := ready
  have htail : tail.length < n := hn
  show Settles conditional (⟨.keyword .ifWord, sp⟩ :: tail) 20 4 fun _ => True
  refine .advance ?_ nofun
  refine .bind (settles_condition ih (Nat.le_of_lt hn)) (fun e mid _ hmid _ => ?_) (by decide)
    (by decide)
  refine .bind (settles_block ih (by omega)) (fun b mid' _ hmid' _ => ?_) (by decide) (by decide)
  refine .peek (fun l tail' h => ?_) (by decide)
  subst h
  split
  · next helse =>
    have htail' : tail'.length < n := by
      rw [List.length_cons] at hmid'
      omega
    refine .skip ?_ (by rw [helse]; nofun)
    refine .peek (fun l' tail'' h => ?_) (by decide)
    subst h
    obtain ⟨token, sp'⟩ := l'
    split
    · next hif =>
      cases hif
      refine .bind (ih .conditional _ htail' ⟨sp', tail'', rfl⟩).reach (fun c rest _ _ _ => ?_)
        (by decide) (by decide)
      exact .pure trivial (by decide)
    · refine .bind (settles_block ih (Nat.le_of_lt htail')) (fun b' rest _ _ _ => ?_) (by decide)
        (by decide)
      exact .pure trivial (by decide)
  · exact .pure trivial (by decide)

theorem settles_statement (hn : ls.length ≤ n) (hexpression : Goal.expression.Settles ls)
    (hconditional : Goal.conditional.Ready ls → Goal.conditional.Settles ls) :
    Goal.statement.Settles ls := by
  show Settles statementBody ls 10 32 fun _ => True
  refine .peek (fun l tail h => ?_) (by decide)
  subst h
  obtain ⟨token, sp⟩ := l
  have hplain : Settles (expression >>= fun e => pure (.expr e) : Parse Stmt) (⟨token, sp⟩ :: tail)
      10 32 fun _ => True := by
    refine hexpression.reach.bind (fun e rest _ _ _ => ?_) (by decide) (by decide)
    exact .pure trivial (by decide)
  cases token with
  | keyword word =>
    cases word with
    | letWord => exact settles_declaration ih hn .letKind
    | varWord => exact settles_declaration ih hn .varKind
    | functionWord =>
      have hsplit : Settles (if nameIsSecond (⟨.keyword .functionWord, sp⟩ :: tail)
          then functionDeclaration else expression >>= fun e => pure (.expr e))
          (⟨.keyword .functionWord, sp⟩ :: tail) 10 32 fun _ => True := by
        split
        · exact settles_functionDeclaration ih hn
        · exact hplain
      exact hsplit.of_eq rfl
    | ifWord =>
      refine (hconditional ⟨sp, tail, rfl⟩).reach.bind (fun c rest _ _ _ => ?_) (by decide)
        (by decide)
      exact .pure trivial (by decide)
    | whileWord => exact settles_loop ih hn
    | _ => exact hplain
  | symbol mark =>
    cases mark with
    | leftBrace =>
      refine (settles_block ih hn).bind (fun b rest _ _ _ => ?_) (by decide) (by decide)
      exact .pure trivial (by decide)
    | _ => exact hplain
  | _ => exact hplain

theorem settles_braced (hn : ls.length ≤ n) (hstatement : Goal.statement.Settles ls) :
    Goal.braced.Settles ls := by
  show Settles braced ls 10 40 fun _ => True
  cases ls with
  | nil => exact .failure _ _ rfl .dry (by decide)
  | cons l tail =>
    obtain ⟨token, sp⟩ := l
    by_cases hsemicolon : token = .symbol .semicolon
    · subst hsemicolon
      exact ((ih .braced tail hn trivial).weaken (by decide) (by decide) fun _ => id).take nofun rfl
    by_cases hbrace : token = .symbol .rightBrace
    · subst hbrace
      refine Settles.take (.pure trivial (by decide)) nofun
        (rfl : _ = (pure ([], sp) : Parse (List Stmt × Span)) tail)
    by_cases hend : token = .endOfFile
    · subst hend
      exact .failure (.expected (.mark .rightBrace) .endOfFile sp) _ rfl (.front rfl) (by decide)
    refine Settles.of_eq ?_ (Phrase.braced_eq hsemicolon hbrace hend)
    refine hstatement.reach.bind (fun s mid _ hmid _ => ?_) (by decide) (by decide)
    have hmid : mid.length < n := by
      have : 0 < Goal.statement.slack - 1 := by decide
      omega
    refine .bind (ih .braced mid hmid trivial).reach (fun x rest _ _ _ => ?_) (by decide)
      (by decide)
    exact .pure trivial (by decide)

theorem settles_program (hn : ls.length ≤ n) (hstatement : Goal.statement.Settles ls) :
    Goal.program.Settles ls := by
  show Settles program ls 0 40 fun _ => True
  cases ls with
  | nil => exact (Settles.pure trivial (by decide)).of_eq rfl
  | cons l tail =>
    obtain ⟨token, sp⟩ := l
    by_cases hsemicolon : token = .symbol .semicolon
    · subst hsemicolon
      exact ((ih .program tail hn trivial).weaken (by decide) (by decide) fun _ => id).take nofun
        rfl
    by_cases hend : token = .endOfFile
    · subst hend
      exact (Settles.pure trivial (by decide)).of_eq rfl
    refine Settles.of_eq ?_ (Phrase.program_eq hsemicolon hend)
    refine hstatement.reach.bind (fun s mid _ hmid _ => ?_) (by decide) (by decide)
    have hmid : mid.length < n := by
      have : 0 < Goal.statement.slack - 1 := by decide
      omega
    refine .bind (ih .program mid hmid trivial).reach (fun x rest _ _ _ => ?_) (by decide)
      (by decide)
    exact .pure trivial (by decide)

end Functions

/-! ## Whole lists -/

/-- **Every goal is settled on every list of lexemes.**  By induction on the length of the list.
Before a lexeme is taken a goal asks for tighter ones only, so on lists of the same length the goals
follow one from another. -/
theorem settles (goal : Goal) (ls : List Lexeme) (ready : goal.Ready ls) : goal.Settles ls := by
  induction hn : ls.length using Nat.strongRecOn generalizing goal ls with
  | ind n ih =>
    have ih : SettlesBelow n := fun goal ls hls ready => ih ls.length hls goal ls ready rfl
    have hn : ls.length ≤ n := Nat.le_of_eq hn
    have hunary : Goal.unary.Settles ls := settles_unary ih hn
    have hmultiplicative : (Goal.level .multiplicative).Settles ls :=
      settles_level ih hn nofun hunary
    have hadditive : (Goal.level .additive).Settles ls :=
      settles_level ih hn (by rintro l ⟨⟩; exact hmultiplicative) hunary
    have hcomparison : (Goal.level .comparison).Settles ls :=
      settles_level ih hn (by rintro l ⟨⟩; exact hadditive) hunary
    have hlogical : (Goal.level .logical).Settles ls :=
      settles_level ih hn (by rintro l ⟨⟩; exact hcomparison) hunary
    have hexpression : Goal.expression.Settles ls := settles_expression ih hn hlogical
    have hstatement : Goal.statement.Settles ls :=
      settles_statement ih hn hexpression (settles_conditional ih hn)
    cases goal with
    | program => exact settles_program ih hn hstatement
    | braced => exact settles_braced ih hn hstatement
    | statement => exact hstatement
    | conditional => exact settles_conditional ih hn ready
    | declarators => exact settles_declarators ih hn
    | expression => exact hexpression
    | level l =>
      cases l with
      | logical => exact hlogical
      | comparison => exact hcomparison
      | additive => exact hadditive
      | multiplicative => exact hmultiplicative
    | chain l left => exact settles_chain ih hn
    | unary => exact hunary
    | access operand => exact settles_access ih hn
    | items kind closing => exact settles_items ih hn hexpression hlogical
    | parameters => exact settles_parameters ih hn
    | properties => exact settles_properties ih hn

/-- Reading a list of lexemes comes to an end before the bound is met, and an error that it ends
with points at one of them. -/
theorem exists_ends (ls : List Lexeme) :
    ∃ outcome rest k, Ends body (program ls) outcome rest k ∧ k + 2 ≤ stepBound ls.length ∧
      ∀ e, outcome = .error e → e.Blames ls := by
  rcases settles .program ls trivial with
    @⟨a, rest, k, ends, -, paid, -⟩ | @⟨e, rest, k, ends, blames, paid⟩
  · have hle : k + 2 ≤ stepBound ls.length := by
      have : Goal.program.slack = 0 := rfl
      rw [stepBound]
      omega
    exact ⟨.ok a, rest, k, ends, hle, fun e he => by cases he⟩
  · have hle : k + 2 ≤ stepBound ls.length := by
      have : Goal.program.excess = 40 := rfl
      rw [stepBound]
      omega
    exact ⟨.error e, rest, k, ends, hle, fun e' he => by cases he; exact blames⟩

/-- The bound on the steps is never met: what reading comes to is what the parser gives. -/
theorem run_of_ends {outcome : Except ParseError (List Stmt)} {rest : List Lexeme} {k : Nat}
    (h : Ends body (program ls) outcome rest k) : run ls = outcome := by
  obtain ⟨outcome', rest', k', hends, hle, -⟩ := exists_ends ls
  obtain ⟨rfl, rfl⟩ := h.unique hends
  have hperform : Routine.perform body (stepBound ls.length) .program ls = some (outcome, rest) :=
    Ends.perform hends hle
  unfold run
  simp only [hperform]

/-- **An error points at one of the lexemes.**  Only if the end of the file is missing it may say
that they ran out; the bound on the steps is never met. -/
theorem blames_of_run {e : ParseError} (h : run ls = .error e) : e.Blames ls := by
  obtain ⟨outcome, rest, k, hends, -, hblames⟩ := exists_ends ls
  exact hblames e ((run_of_ends hends).symm.trans h)

end Parse

end Script
