import Script.Proofs.Parser.Failure

/-!
# What can still be completed

The parser reads from left to right and decides by what is in front.  So what it makes of the first
lexemes does not hang on what comes far behind them, and where it fails, the lexemes in front of
that place are still the beginning of something it can read.  Both are said at once of a piece of
work and a list of lexemes (`Parse.Discerns`).

* If the work yields something, it yields the same with other lexemes behind those it has taken, as
  long as they begin with the same lexeme or with a token that may `follow`.
* If it fails at a lexeme, it fails in the same way whatever is behind that lexeme; and some other
  lexemes in its place complete what has been taken before.

A piece of work that has not taken anything can be completed by its own `filler`, such as a name
for an expression.  In a sequence the filler of the second part completes the whole when the first
part fails.  It also stands for the lexeme that the second part fails at without having taken any:
what the first part yields in front of that lexeme, it yields in front of the filler as well.

Of two kinds of failure nothing is said.  A parameter that repeats another one is found behind the
closing parenthesis only, and a list without an end of the file may run dry.
-/

namespace Script

open Routine

/-- What a filler is made of: a name, marks and keywords, and so neither a comment nor the end of
the file. -/
inductive Stub where
  | name
  | mark (mark : Symbol)
  | word (word : Keyword)
deriving DecidableEq, Repr

namespace Stub

/-- A stub without a place. -/
def lexeme : Stub → Lexeme
  | name => ⟨.identifier "x", .none⟩
  | mark m => ⟨.symbol m, .none⟩
  | word w => ⟨.keyword w, .none⟩

theorem token_lexeme (p : Stub) :
    p.lexeme.token ≠ .endOfFile ∧ p.lexeme.token.isComment = false := by
  cases p <;> exact ⟨nofun, rfl⟩

/-- The lexemes of a filler. -/
def lexemes (filler : List Stub) : List Lexeme := filler.map lexeme

/-- A block without statements. -/
abbrev emptyBlock : List Stub := [.mark .leftBrace, .mark .rightBrace]

/-- A function without parameters and statements, behind its name. -/
abbrev emptyFunction : List Stub := .mark .leftParen :: .mark .rightParen :: emptyBlock

theorem lexemes_append (filler more : List Stub) :
    lexemes (filler ++ more) = lexemes filler ++ lexemes more := List.map_append

end Stub

open Stub

namespace Parse

variable {α β : Type} {a : α} {b : β} {ls mid rest : List Lexeme} {l m : Lexeme} {e : ParseError}
variable {work work' : Parse α} {first : Parse β} {f : β → Parse α}

/-! ## Ways to end -/

/-- The work comes to an end with the outcome and leaves `rest`. -/
def Comes (work : Parse α) (ls : List Lexeme) (outcome : Except ParseError α)
    (rest : List Lexeme) : Prop :=
  ∃ k, Ends body (work ls) outcome rest k

namespace Comes

variable {outcome outcome' : Except ParseError α} {rest' : List Lexeme}

theorem of_eq (h : Comes work' mid outcome rest) (same : work ls = work' mid) :
    Comes work ls outcome rest := by
  obtain ⟨k, hk⟩ := h
  exact ⟨k, same ▸ hk⟩

theorem of_done (same : work ls = .done outcome rest) : Comes work ls outcome rest :=
  ⟨0, same ▸ .done _ _⟩

theorem of_pays {slack : Int} (h : Pays work ls a rest slack) : Comes work ls (.ok a) rest := by
  obtain ⟨k, hk, -⟩ := h
  exact ⟨k, hk⟩

theorem bind (h : Comes first ls (.ok b) mid) (h' : Comes (f b) mid outcome rest) :
    Comes (first >>= f) ls outcome rest := by
  obtain ⟨k, hk⟩ := h
  obtain ⟨k', hk'⟩ := h'
  obtain ⟨n, -, hn⟩ := Action.ends_bind hk hk'
  exact ⟨n, hn⟩

theorem reach {goal : Goal} {outcome : Except ParseError goal.Result}
    (h : Comes (body goal) ls outcome rest) : Comes (Parse.reach goal) ls outcome rest := by
  obtain ⟨k, hk⟩ := h
  exact ⟨k + 1, .call hk⟩

theorem unique (h : Comes work ls outcome rest) (h' : Comes work ls outcome' rest') :
    outcome = outcome' := by
  obtain ⟨k, hk⟩ := h
  obtain ⟨k', hk'⟩ := h'
  exact (hk.unique hk').1

end Comes

/-- The work fails with the error, whatever it leaves. -/
def Rejects (work : Parse α) (ls : List Lexeme) (e : ParseError) : Prop :=
  ∃ rest, Comes work ls (.error e) rest

namespace Rejects

theorem of_eq (h : Rejects work' mid e) (same : work ls = work' mid) : Rejects work ls e := by
  obtain ⟨rest, h⟩ := h
  exact ⟨rest, h.of_eq same⟩

theorem bind (h : Rejects first ls e) : Rejects (first >>= f) ls e := by
  obtain ⟨rest, k, hk⟩ := h
  obtain ⟨n, -, hn⟩ := Action.ends_bind_error hk
  exact ⟨rest, n, hn⟩

theorem of_comes (h : Comes first ls (.ok b) mid) (h' : Rejects (f b) mid e) :
    Rejects (first >>= f) ls e := by
  obtain ⟨rest, h'⟩ := h'
  exact ⟨rest, h.bind h'⟩

theorem reach {goal : Goal} (h : Rejects (body goal) ls e) : Rejects (Parse.reach goal) ls e := by
  obtain ⟨rest, h⟩ := h
  exact ⟨rest, h.reach⟩

end Rejects

/-- The work fails because a parameter repeats another one. -/
def Repeats (work : Parse α) (ls : List Lexeme) : Prop :=
  ∃ name sp, Rejects work ls (.duplicateParameter name sp)

/-- The work yields something and leaves `rest`, unless a parameter repeats another one. -/
def Finishes (work : Parse α) (ls rest : List Lexeme) : Prop :=
  (∃ a, Comes work ls (.ok a) rest) ∨ Repeats work ls

namespace Finishes

theorem of_eq (h : Finishes work' mid rest) (same : work ls = work' mid) :
    Finishes work ls rest := by
  rcases h with ⟨a, h⟩ | ⟨name, sp, h⟩
  · exact .inl ⟨a, h.of_eq same⟩
  · exact .inr ⟨name, sp, h.of_eq same⟩

theorem of_comes (h : Comes first ls (.ok b) mid) (h' : Finishes (f b) mid rest) :
    Finishes (first >>= f) ls rest := by
  rcases h' with ⟨a, h'⟩ | ⟨name, sp, h'⟩
  · exact .inl ⟨a, h.bind h'⟩
  · exact .inr ⟨name, sp, .of_comes h h'⟩

theorem bind (h : Finishes first ls mid) (h' : ∀ b, Finishes (f b) mid rest) :
    Finishes (first >>= f) ls rest := by
  rcases h with ⟨b, h⟩ | ⟨name, sp, h⟩
  · exact .of_comes h (h' b)
  · exact .inr ⟨name, sp, h.bind⟩

theorem reach {goal : Goal} (h : Finishes (body goal) ls rest) :
    Finishes (Parse.reach goal) ls rest := by
  rcases h with ⟨a, h⟩ | ⟨name, sp, h⟩
  · exact .inl ⟨a, h.reach⟩
  · exact .inr ⟨name, sp, h.reach⟩

end Finishes

/-! ## Fillers -/

/-- The lexemes begin with a token of some kind. -/
def Begins (follow : Token → Prop) (ls : List Lexeme) : Prop :=
  ∃ l tail, ls = l :: tail ∧ follow l.token

theorem Begins.imp {follow follow' : Token → Prop} (h : Begins follow ls)
    (hsub : ∀ t, follow t → follow' t) : Begins follow' ls := by
  obtain ⟨l, tail, rfl, hl⟩ := h
  exact ⟨l, tail, rfl, hsub _ hl⟩

/-- The filler is what the work asks for, in front of any token that may `follow`. -/
def Completes (work : Parse α) (filler : List Stub) (follow : Token → Prop) : Prop :=
  ∀ rest, Begins follow rest → Finishes work (lexemes filler ++ rest) rest

namespace Completes

variable {filler more : List Stub} {follow follow' : Token → Prop}

theorem pure : Completes (Pure.pure a : Parse α) [] follow :=
  fun _ _ => .inl ⟨a, .of_done rfl⟩

theorem of_pays {slack : Int} (h : ∀ rest, Pays work (lexemes filler ++ rest) a rest slack) :
    Completes work filler follow :=
  fun rest _ => .inl ⟨a, .of_pays (h rest)⟩

theorem of_eq (h : Completes work filler follow) (same : ∀ ls, work' ls = work ls) :
    Completes work' filler follow :=
  fun rest hrest => (h rest hrest).of_eq (same _)

theorem narrow (h : Completes work filler follow) (hsub : ∀ t, follow' t → follow t) :
    Completes work filler follow' :=
  fun rest hrest => h rest (hrest.imp hsub)

/-- Work that takes the first lexeme of its filler at once. -/
theorem take {p : Stub} (h : Completes work filler follow)
    (same : ∀ ls, work' (p.lexeme :: ls) = work ls) : Completes work' (p :: filler) follow :=
  fun rest hrest => (h rest hrest).of_eq (same _)

/-- Work that goes on as some other work where it sees the first lexeme of its filler. -/
theorem of_head {p : Stub} (h : Completes work (p :: filler) follow)
    (same : ∀ ls, work' (p.lexeme :: ls) = work (p.lexeme :: ls)) :
    Completes work' (p :: filler) follow :=
  fun rest hrest => (h rest hrest).of_eq (same _)

theorem reach {goal : Goal} (h : Completes (body goal) filler follow) :
    Completes (Parse.reach goal) filler follow :=
  fun rest hrest => (h rest hrest).reach

theorem bind (h : Completes first filler follow) (h' : ∀ b, Completes (f b) more follow')
    (hnext : ∀ rest, Begins follow' rest → Begins follow (lexemes more ++ rest)) :
    Completes (first >>= f) (filler ++ more) follow' := by
  intro rest hrest
  rw [lexemes_append, List.append_assoc]
  exact (h _ (hnext rest hrest)).bind fun b => h' b rest hrest

theorem map {g : β → α} (h : Completes first filler follow) :
    Completes (first >>= fun b => Pure.pure (g b)) filler follow :=
  fun rest hrest => (h rest hrest).bind fun b => .inl ⟨g b, .of_done rfl⟩

/-- Work that goes on only behind a certain token. -/
theorem optional {t : Token} {work : Parse α} (hfollow : ∀ u, follow u → u ≠ t) :
    Completes (peek >>= fun l => if l.token = t then work else Pure.pure a) [] follow := by
  rintro rest ⟨l, tail, rfl, hl⟩
  exact .inl ⟨a, .of_done (congrFun (if_neg (hfollow _ hl)) (l :: tail))⟩

theorem expect {mark : Symbol} {expectation : Expectation} {f : Lexeme → Parse α}
    (h : Completes (f (lexeme (.mark mark))) filler follow) :
    Completes (Parse.expect mark expectation >>= f) (.mark mark :: filler) follow :=
  h.take fun _ => expect_bind_mark f

theorem bindingName {f : String × Span → Parse α}
    (h : Completes (f ("x", .none)) filler follow) :
    Completes (Parse.bindingName >>= f) (.name :: filler) follow :=
  h.take fun _ => bindingName_bind_free f rfl

theorem separator {closing : Symbol} {f : Option Span → Parse α} (proper : closing ≠ .comma)
    (h : Completes (f (some .none)) filler follow) :
    Completes (Parse.separator closing >>= f) (.mark closing :: filler) follow :=
  h.take fun _ => separator_bind_closing f proper

end Completes

/-! ## Work that fails at the first place where it cannot go on -/

/-- The work makes the same of the lexemes in front whatever is far behind them, and where it fails
something else in that place would have done. -/
inductive Discerns (work : Parse α) (filler : List Stub) (follow : Token → Prop)
    (ls : List Lexeme) : Prop
  | yields (a : α) (front rest : List Lexeme) (eq : ls = front ++ rest)
      (proper : ∀ x ∈ front, x.token ≠ .endOfFile) (taken : front = [] → filler = [])
      (steady : ∀ rest', Begins follow rest' ∨ rest'.head? = rest.head? →
        Comes work (front ++ rest') (.ok a) rest')
  | fails (e : ParseError) (front : List Lexeme) (l : Lexeme) (rest : List Lexeme)
      (eq : ls = front ++ l :: rest) (span : e.span = l.span)
      (steady : ∀ rest', Rejects work (front ++ l :: rest') e)
      (viable : ∃ more, (front = [] → more = filler) ∧
        Completes (fun ls => work (front ++ ls)) more follow)
  | repeats (h : Repeats work ls)
  | dry (endless : ∀ x ∈ ls, x.token ≠ .endOfFile)

namespace Discerns

variable {filler filler' more : List Stub} {follow follow' : Token → Prop}

theorem pure : Discerns (Pure.pure a) [] follow ls :=
  .yields a [] ls rfl nofun (fun _ => rfl) fun _ _ => .of_done rfl

/-- Work that yields something without taking anything when it sees a token it cannot go on with.
All that may follow must be such tokens. -/
theorem stay (a : α) (stop : Token → Prop)
    (same : ∀ l ls, stop l.token → work (l :: ls) = .done (.ok a) (l :: ls))
    (hl : stop l.token) (hfollow : ∀ t, follow t → stop t) :
    Discerns work [] follow (l :: ls) := by
  refine .yields a [] (l :: ls) rfl nofun (fun _ => rfl) fun rest hrest => ?_
  rcases hrest with ⟨m, tail, rfl, hm⟩ | hhead
  · exact .of_done (same m tail (hfollow _ hm))
  · obtain ⟨tail, rfl⟩ := List.head?_eq_some_iff.mp hhead
    exact .of_done (same l tail hl)

/-- Work that fails at once, at the lexeme in front. -/
theorem failure (e : ParseError) (same : ∀ ls, ∃ rest, work (l :: ls) = .done (.error e) rest)
    (span : e.span = l.span) (h : Completes work filler follow) :
    Discerns work filler follow (l :: ls) := by
  refine .fails e [] l ls rfl span (fun tail => ?_) ⟨filler, fun _ => rfl, h⟩
  obtain ⟨rest, hrest⟩ := same tail
  exact ⟨rest, .of_done hrest⟩

theorem narrow (h : Discerns work filler follow ls) (hsub : ∀ t, follow' t → follow t) :
    Discerns work filler follow' ls := by
  rcases h with ⟨a, front, rest, eq, proper, taken, steady⟩ |
    ⟨e, front, l, rest, eq, span, steady, more, hmore, hviable⟩ | hrepeats | endless
  · exact .yields a front rest eq proper taken fun rest' hrest =>
      steady rest' (hrest.imp_left fun hbegins => hbegins.imp hsub)
  · exact .fails e front l rest eq span steady ⟨more, hmore, hviable.narrow hsub⟩
  · exact .repeats hrepeats
  · exact .dry endless

theorem reach {goal : Goal} (h : Discerns (body goal) filler follow ls) :
    Discerns (Parse.reach goal) filler follow ls := by
  rcases h with ⟨a, front, rest, eq, proper, taken, steady⟩ |
    ⟨e, front, l, rest, eq, span, steady, more, hmore, hviable⟩ | ⟨name, sp, hrepeats⟩ | endless
  · exact .yields a front rest eq proper taken fun rest' hrest => (steady rest' hrest).reach
  · refine .fails e front l rest eq span (fun rest' => (steady rest').reach) ⟨more, hmore, ?_⟩
    exact fun rest' hrest => Finishes.reach (hviable rest' hrest)
  · exact .repeats ⟨name, sp, hrepeats.reach⟩
  · exact .dry endless

/-! ### Looking ahead -/

/-- Work that takes a lexeme at once.  Its own filler is not needed, for the lexeme is not in
doubt. -/
theorem take (h : Discerns work filler' follow ls) (same : ∀ ls, work' (l :: ls) = work ls)
    (proper : l.token ≠ .endOfFile) : Discerns work' filler follow (l :: ls) := by
  rcases h with ⟨a, front, rest, eq, hproper, taken, steady⟩ |
    ⟨e, front, m, rest, eq, span, steady, more, hmore, hviable⟩ | ⟨name, sp, hrepeats⟩ | endless
  · refine .yields a (l :: front) rest (congrArg (l :: ·) eq) ?_ nofun fun rest' hrest => ?_
    · exact List.forall_mem_cons.mpr ⟨proper, hproper⟩
    · exact (steady rest' hrest).of_eq (same _)
  · refine .fails e (l :: front) m rest (congrArg (l :: ·) eq) span (fun rest' => ?_)
      ⟨more, nofun, hviable.of_eq fun _ => same _⟩
    exact (steady rest').of_eq (same _)
  · exact .repeats ⟨name, sp, hrepeats.of_eq (same ls)⟩
  · exact .dry (List.forall_mem_cons.mpr ⟨proper, endless⟩)

theorem advance {f : Lexeme → Parse α} (more : List Stub) (h : Discerns (f l) more follow ls)
    (proper : l.token ≠ .endOfFile) : Discerns (Parse.advance >>= f) filler follow (l :: ls) :=
  h.take (fun _ => rfl) proper

/-- Work that yields something once it has taken a lexeme. -/
theorem single (a : α) (same : ∀ ls, work (l :: ls) = .done (.ok a) ls)
    (proper : l.token ≠ .endOfFile) : Discerns work filler follow (l :: ls) := by
  have hpure : Discerns (Pure.pure a) [] follow ls := .pure
  exact hpure.take same proper

/-- Work that goes on only behind a certain token, which it takes. -/
theorem optional {t : Token} {f : Unit → Parse α} (more : List Stub) (proper : t ≠ .endOfFile)
    (hfollow : ∀ u, follow u → u ≠ t)
    (h : ∀ sp tail, ls = ⟨t, sp⟩ :: tail → Discerns (f ()) more follow tail) :
    Discerns (peek >>= fun l => if l.token = t then skip >>= f else Pure.pure a) [] follow ls := by
  cases ls with
  | nil => exact .dry nofun
  | cons l tail =>
    obtain ⟨token, sp⟩ := l
    by_cases ht : token = t
    · subst ht
      refine (h sp tail rfl).take (fun ls => ?_) proper
      rw [peek_bind, if_pos rfl, skip_bind]
    · exact .stay a (· ≠ t) (fun l ls hl => congrFun (if_neg hl) (l :: ls)) ht hfollow

/-- Work that goes on as some other work once it has seen the lexeme in front. -/
theorem of_head (h : Discerns work' filler' follow (l :: ls)) (hne : filler' ≠ [])
    (same : ∀ ls, work (l :: ls) = work' (l :: ls)) (hc : Completes work filler follow) :
    Discerns work filler follow (l :: ls) := by
  rcases h with ⟨a, front, rest, eq, proper, taken, steady⟩ |
    ⟨e, front, m, rest, eq, span, steady, more, hmore, hviable⟩ | ⟨name, sp, hrepeats⟩ | endless
  · cases front with
    | nil => exact absurd (taken rfl) hne
    | cons x front =>
      obtain ⟨rfl, -⟩ := List.cons_eq_cons.mp eq
      exact .yields a _ rest eq proper nofun fun rest' hrest => (steady rest' hrest).of_eq (same _)
  · cases front with
    | nil =>
      obtain ⟨rfl, -⟩ := List.cons_eq_cons.mp eq
      exact .fails e [] l rest eq span (fun rest' => (steady rest').of_eq (same _))
        ⟨filler, fun _ => rfl, hc⟩
    | cons x front =>
      obtain ⟨rfl, -⟩ := List.cons_eq_cons.mp eq
      exact .fails e _ m rest eq span (fun rest' => (steady rest').of_eq (same _))
        ⟨more, nofun, hviable.of_eq fun _ => same _⟩
  · exact .repeats ⟨name, sp, hrepeats.of_eq (same ls)⟩
  · exact .dry endless

/-- Work that goes on as some other work once it has seen two lexemes in front.  The other work does
not fail at the first of them, and what may follow decides as the second one does; and if only the
first one stays, it can be completed. -/
theorem of_pair (more : List Stub) (h : Discerns work' filler' follow (l :: m :: ls))
    (hne : filler' ≠ []) (same : ∀ ls, work (l :: m :: ls) = work' (l :: m :: ls))
    (hfollow : ∀ m ls, follow m.token → work (l :: m :: ls) = work' (l :: m :: ls))
    (hstart : ∃ rest a mid, Comes work' (l :: rest) (.ok a) mid)
    (hc : Completes (fun ls => work (l :: ls)) more follow) :
    Discerns work filler follow (l :: m :: ls) := by
  rcases h with ⟨a, front, rest, eq, proper, taken, steady⟩ |
    ⟨e, front, x, rest, eq, span, steady, more', hmore, hviable⟩ | ⟨name, sp, hrepeats⟩ | endless
  · refine .yields a front rest eq proper (fun hnil => absurd (taken hnil) hne)
      fun rest' hrest => ?_
    refine (steady rest' hrest).of_eq ?_
    rcases front with - | ⟨x, - | ⟨y, front⟩⟩
    · exact absurd (taken rfl) hne
    · obtain ⟨rfl, rfl⟩ := List.cons_eq_cons.mp eq
      rcases hrest with ⟨y, tail, rfl, hy⟩ | hhead
      · exact hfollow y tail hy
      · obtain ⟨tail, rfl⟩ := List.head?_eq_some_iff.mp hhead
        exact same tail
    · obtain ⟨rfl, heq⟩ := List.cons_eq_cons.mp eq
      obtain ⟨rfl, -⟩ := List.cons_eq_cons.mp heq
      exact same _
  · rcases front with - | ⟨y, - | ⟨z, front⟩⟩
    · obtain ⟨rfl, -⟩ := List.cons_eq_cons.mp eq
      obtain ⟨tail, a, mid, hcomes⟩ := hstart
      obtain ⟨left, hleft⟩ := steady tail
      cases hcomes.unique hleft
    · obtain ⟨rfl, heq⟩ := List.cons_eq_cons.mp eq
      obtain ⟨rfl, -⟩ := List.cons_eq_cons.mp heq
      exact .fails e _ m rest eq span (fun rest' => (steady rest').of_eq (same rest'))
        ⟨more, nofun, hc⟩
    · obtain ⟨rfl, heq⟩ := List.cons_eq_cons.mp eq
      obtain ⟨rfl, -⟩ := List.cons_eq_cons.mp heq
      exact .fails e _ x rest eq span (fun rest' => (steady rest').of_eq (same _))
        ⟨more', nofun, hviable.of_eq fun _ => same _⟩
  · exact .repeats ⟨name, sp, hrepeats.of_eq (same ls)⟩
  · exact .dry endless

/-! ### Sequences -/

/-- A second piece of work, behind lexemes from which a first one yields something. -/
theorem after {front : List Lexeme} (proper : ∀ x ∈ front, x.token ≠ .endOfFile)
    (taken : front = [] → filler = [])
    (steady : ∀ rest', Begins follow rest' ∨ rest'.head? = mid.head? →
      Comes first (front ++ rest') (.ok b) rest')
    (h : Discerns (f b) more follow' mid)
    (hnext : ∀ rest, Begins follow' rest → Begins follow (lexemes more ++ rest)) :
    Discerns (first >>= f) (filler ++ more) follow' (front ++ mid) := by
  rcases h with ⟨a, front', rest, rfl, proper', taken', steady'⟩ |
    ⟨e, front', l, rest, rfl, span, steady', more', hmore, hviable⟩ | ⟨name, sp, hrepeats⟩ | endless
  · refine .yields a (front ++ front') rest (List.append_assoc _ _ _).symm ?_ ?_
      fun rest' hrest => ?_
    · exact List.forall_mem_append.mpr ⟨proper, proper'⟩
    · intro hnil
      obtain ⟨rfl, rfl⟩ := List.append_eq_nil_iff.mp hnil
      rw [taken rfl, taken' rfl, List.append_nil]
    · rw [List.append_assoc]
      refine (steady (front' ++ rest') ?_).bind (steady' rest' hrest)
      cases front' with
      | cons x front' => exact .inr rfl
      | nil =>
        -- The second part has taken nothing, so what may follow it may follow the first one.
        refine hrest.imp_left fun hbegins => ?_
        have hfront := hnext rest' hbegins
        rw [taken' rfl] at hfront
        exact hfront
  · refine .fails e (front ++ front') l rest (List.append_assoc _ _ _).symm span
      (fun rest' => ?_) ⟨more', ?_, fun rest' hrest => ?_⟩
    · rw [List.append_assoc]
      refine .of_comes (steady (front' ++ l :: rest') (.inr ?_)) (steady' rest')
      cases front' <;> rfl
    · intro hnil
      obtain ⟨rfl, rfl⟩ := List.append_eq_nil_iff.mp hnil
      rw [hmore rfl, taken rfl, List.nil_append]
    · refine Finishes.of_eq ?_ (congrArg _ (List.append_assoc front front' _))
      refine .of_comes (steady (front' ++ (lexemes more' ++ rest')) ?_) (hviable rest' hrest)
      cases front' with
      | cons x front' => exact .inr rfl
      | nil =>
        -- Where the second part fails at once its filler stands, and that may follow the first one.
        rw [hmore rfl]
        exact .inl (hnext rest' hrest)
  · exact .repeats ⟨name, sp, .of_comes (steady mid (.inr rfl)) hrepeats⟩
  · exact .dry (List.forall_mem_append.mpr ⟨proper, endless⟩)

/-- One piece of work after another. -/
theorem bind (more : List Stub) (h : Discerns first filler follow ls)
    (h' : ∀ b mid, mid.length ≤ ls.length → (filler ≠ [] → mid.length < ls.length) →
      Discerns (f b) more follow' mid)
    (hc : ∀ b, Completes (f b) more follow')
    (hnext : ∀ rest, Begins follow' rest → Begins follow (lexemes more ++ rest)) :
    Discerns (first >>= f) (filler ++ more) follow' ls := by
  rcases h with ⟨b, front, mid, rfl, proper, taken, steady⟩ |
    ⟨e, front, l, rest, rfl, span, steady, more', hmore, hviable⟩ | ⟨name, sp, hrepeats⟩ | endless
  · have hlength : filler ≠ [] → mid.length < (front ++ mid).length := by
      intro hne
      have := List.length_pos_iff.mpr fun hnil => hne (taken hnil)
      rw [List.length_append]
      omega
    exact after proper taken steady (h' b mid (by simp) hlength) hnext
  · refine .fails e front l rest rfl span (fun rest' => (steady rest').bind) ⟨more' ++ more, ?_, ?_⟩
    · intro hnil
      rw [hmore hnil]
    · exact hviable.bind hc hnext
  · exact .repeats ⟨name, sp, hrepeats.bind⟩
  · exact .dry endless

theorem map {g : β → α} (h : Discerns first filler follow ls) :
    Discerns (first >>= fun b => Pure.pure (g b)) filler follow ls := by
  have hbind := h.bind (f := fun b => Pure.pure (g b)) [] (fun _ _ _ _ => .pure)
    (fun _ => .pure) (fun _ => id)
  rwa [List.append_nil] at hbind

/-! ### Single lexemes -/

theorem expect {mark : Symbol} {expectation : Expectation} {f : Lexeme → Parse α}
    (hc : Completes (Parse.expect mark expectation >>= f) (.mark mark :: filler) follow)
    (h : ∀ sp tail, ls = ⟨.symbol mark, sp⟩ :: tail →
      Discerns (f ⟨.symbol mark, sp⟩) filler follow tail) :
    Discerns (Parse.expect mark expectation >>= f) (.mark mark :: filler) follow ls := by
  cases ls with
  | nil => exact .dry nofun
  | cons l tail =>
    obtain ⟨token, sp⟩ := l
    by_cases hmark : token = .symbol mark
    · subst hmark
      exact (h sp tail rfl).take (fun _ => expect_bind_mark f) nofun
    · exact .failure (.expected expectation token sp) (fun _ => ⟨_, expect_bind_of_ne f hmark⟩) rfl
        hc

theorem bindingName {f : String × Span → Parse α}
    (hc : Completes (Parse.bindingName >>= f) (.name :: filler) follow)
    (h : ∀ name sp tail, ls = ⟨.identifier name, sp⟩ :: tail →
      Discerns (f (name, sp)) filler follow tail) :
    Discerns (Parse.bindingName >>= f) (.name :: filler) follow ls := by
  cases ls with
  | nil => exact .dry nofun
  | cons l tail =>
    obtain ⟨token, sp⟩ := l
    cases token with
    | identifier name =>
      by_cases hconstant : (Constant.ofSpelling? name).isSome
      · exact .failure (.unexpectedToken (.identifier name) sp)
          (fun _ => ⟨_, bindingName_bind_constant f hconstant⟩) rfl hc
      · have hfree : Constant.ofSpelling? name = none := by simpa using hconstant
        exact (h name sp tail rfl).take (fun _ => bindingName_bind_free f hfree) nofun
    | _ => exact .failure (.expected .name _ sp) (fun _ => ⟨_, rfl⟩) rfl hc

theorem separator {closing : Symbol} {f : Option Span → Parse α} (proper : closing ≠ .comma)
    (hc : Completes (Parse.separator closing >>= f) (.mark closing :: filler) follow)
    (more : List Stub)
    (hcomma : ∀ sp tail, ls = ⟨.symbol .comma, sp⟩ :: tail → Discerns (f none) more follow tail)
    (hclosing : ∀ sp tail, ls = ⟨.symbol closing, sp⟩ :: tail →
      Discerns (f (some sp)) filler follow tail) :
    Discerns (Parse.separator closing >>= f) (.mark closing :: filler) follow ls := by
  cases ls with
  | nil => exact .dry nofun
  | cons l tail =>
    obtain ⟨token, sp⟩ := l
    by_cases hmark : token = .symbol .comma
    · subst hmark
      exact (hcomma sp tail rfl).take (fun _ => separator_bind_comma f) nofun
    by_cases hclose : token = .symbol closing
    · subst hclose
      exact (hclosing sp tail rfl).take (fun _ => separator_bind_closing f proper) nofun
    · exact .failure (.expected (.commaOr closing) token sp)
        (fun _ => ⟨_, separator_bind_of_ne f hmark hclose⟩) rfl hc

end Discerns

end Parse

end Script
