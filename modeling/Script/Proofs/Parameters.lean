import Script.Proofs.Lockstep.Same
import Script.Proofs.Nodes
import Script.Proofs.Parser.RoundTrip
import Script.Proofs.Parser.Viable
import Script.Proofs.Scopes.Store
import Script.Proofs.Values

/-!
# Parameters and arguments

A call hands its arguments over by position, and it can only do so if no two parameters of the
function have the same name.  The evaluation does not look at that; the parser has, for every
function of a program, wherever it stands.  It refuses a list of parameters exactly if one of them
repeats an earlier one, and points at the first that does.
-/

namespace Script

/-! ## Distinct names in a tree -/

/-- The names in a tree are names that may stand there. -/
def Node.WellNamed : Node → Prop
  | .expr e => e.WellNamed
  | .property p => p.WellNamed
  | .declarator d => d.WellNamed
  | .declaration kind ds span => (Stmt.declaration kind ds span).WellNamed
  | .function name f => (Stmt.function name f).WellNamed
  | .conditional c => c.WellNamed
  | .loop e b span => (Stmt.loop e b span).WellNamed
  | .block b => b.WellNamed

namespace Node

/-- A condition on lists that is one on each item. -/
theorem forall_mem_of_cons {α : Type} {all : List α → Prop} {one : α → Prop}
    (hcons : ∀ a as, all (a :: as) → one a ∧ all as) {as : List α} (h : all as) :
    ∀ a ∈ as, one a := by
  induction as with
  | nil => exact List.forall_mem_nil _
  | cons a as ih => exact List.forall_mem_cons.mpr ⟨(hcons a as h).1, ih (hcons a as h).2⟩

theorem wellNamed_exprs {es : List Expr} (h : exprsWellNamed es) :
    ∀ k ∈ es.map expr, k.WellNamed :=
  List.forall_mem_map.mpr (forall_mem_of_cons (fun _ _ => id) h)

theorem wellNamed_ofStmt {t : Stmt} (h : t.WellNamed) : (ofStmt t).WellNamed := by
  cases t <;> exact h

theorem wellNamed_stmts {ts : List Stmt} (h : stmtsWellNamed ts) :
    ∀ k ∈ ts.map ofStmt, k.WellNamed :=
  List.forall_mem_map.mpr fun t ht => wellNamed_ofStmt (forall_mem_of_cons (fun _ _ => id) h t ht)

theorem wellNamed_childrenOfExpr {e : Expr} (h : e.WellNamed) :
    ∀ k ∈ childrenOfExpr e, k.WellNamed := by
  cases e with
  | number | string | constant | var => exact List.forall_mem_nil _
  | array elements span => exact wellNamed_exprs h
  | object properties span =>
    exact List.forall_mem_map.mpr (forall_mem_of_cons (fun _ _ => id) h)
  | function name f =>
    obtain ⟨parameters, body, span⟩ := f
    exact wellNamed_stmts h.2.2.2
  | assign _ _ value | member value | unary _ value =>
    exact List.forall_mem_singleton.mpr h
  | index object key span =>
    exact List.forall_mem_cons.mpr ⟨h.1, List.forall_mem_singleton.mpr h.2⟩
  | call callee arguments span => exact List.forall_mem_cons.mpr ⟨h.1, wellNamed_exprs h.2⟩
  | logical _ left right | binary _ left right =>
    exact List.forall_mem_cons.mpr ⟨h.1, List.forall_mem_singleton.mpr h.2⟩

/-- What is well named has parts that are. -/
theorem WellNamed.children {m : Node} (h : m.WellNamed) : ∀ k ∈ m.children, k.WellNamed := by
  cases m with
  | expr e => exact wellNamed_childrenOfExpr h
  | property p =>
    cases p with
    | keyed key value span => exact List.forall_mem_singleton.mpr h
    | shorthand name span => exact List.forall_mem_nil _
  | declarator d =>
    obtain ⟨name, value, span⟩ := d
    exact List.forall_mem_singleton.mpr h.2
  | declaration kind ds span =>
    exact List.forall_mem_map.mpr (forall_mem_of_cons (fun _ _ => id) h.2)
  | function name f =>
    obtain ⟨parameters, body, span⟩ := f
    exact wellNamed_stmts h.2.2.2
  | conditional c =>
    obtain ⟨e, b, alternate, span⟩ := c
    refine List.forall_mem_cons.mpr ⟨h.1, List.forall_mem_cons.mpr ⟨h.2.1, ?_⟩⟩
    cases alternate with
    | absent => exact List.forall_mem_nil _
    | block | conditional => exact List.forall_mem_singleton.mpr h.2.2
  | loop e b span => exact List.forall_mem_cons.mpr ⟨h.1, List.forall_mem_singleton.mpr h.2⟩
  | block b =>
    obtain ⟨body, span⟩ := b
    exact wellNamed_stmts h

theorem WellNamed.within {root m : Node} (h : root.WellNamed) (hm : root.Within m) :
    m.WellNamed := by
  induction hm with
  | self => exact h
  | child _ mem ih => exact ih.children _ mem

theorem WellNamed.nodup {m : Node} {f : Function} (h : m.WellNamed) (hf : m.Makes f) :
    f.parameters.Nodup := by
  obtain ⟨parameters, body, span⟩ := f
  cases hf with
  | expr | stmt => exact h.2.2.1

end Node

/-- **The parameters of a function in a program have different names**, wherever it stands. -/
theorem Program.nodup_parameters {lexemes : List Lexeme} {program : Program}
    (h : Program.parse lexemes = .ok program) {root m : Node} {f : Function}
    (hroot : root ∈ program.nodes) (hm : root.Within m) (hf : m.Makes f) : f.parameters.Nodup := by
  have hnamed := Node.wellNamed_stmts (wellNamed_of_parse h) root hroot
  exact (hnamed.within hm).nodup hf

/-! ## Handing arguments over -/

namespace Eval

theorem map_fst_bindParameters (parameters : List String) (arguments : List Value) :
    (bindParameters parameters arguments).map Prod.fst = parameters := by
  induction parameters generalizing arguments with
  | nil => rfl
  | cons x parameters ih => exact congrArg (x :: ·) (ih arguments.tail)

theorem getElem?_bindParameters (parameters : List String) (arguments : List Value) (i : Nat) :
    (bindParameters parameters arguments)[i]? =
      parameters[i]?.map fun x => (x, arguments[i]?.getD .undefined) := by
  induction parameters generalizing arguments i with
  | nil => rfl
  | cons x parameters ih =>
    cases i with
    | zero => cases arguments <;> rfl
    | succ i =>
      rw [bindParameters, List.getElem?_cons_succ, List.getElem?_cons_succ, ih,
        List.getElem?_tail]

end Eval

namespace Store

/-- Declares variables in a scope, one after another; says whether none of them was refused. -/
def declareEach (scope : Scope) : Bindings → Store → Bool × Store
  | [], store => (true, store)
  | (name, value) :: rest, store =>
    let (fresh, store) := store.declare scope name value
    let (others, store) := declareEach scope rest store
    (fresh && others, store)

theorem declareEach_cons (scope : Scope) (name : String) (value : Value) (rest : Bindings)
    (store : Store) :
    declareEach scope ((name, value) :: rest) store =
      ((store.declare scope name value).1 &&
          (declareEach scope rest (store.declare scope name value).2).1,
        (declareEach scope rest (store.declare scope name value).2).2) := rfl

/-- Variables with different names that are all new in the innermost frame are declared, every one
of them. -/
theorem declareEach_of_nodup {scope : Scope} {bindings : Bindings} {store : Store}
    (hsize : scope.frame < store.frames.size) (hnodup : (bindings.map Prod.fst).Nodup)
    (hfree : ∀ x ∈ bindings.map Prod.fst, store.owns scope.frame x = false) :
    (declareEach scope bindings store).1 = true ∧
    ∀ f x, ((declareEach scope bindings store).2.bindings f).lookup x =
      if f = scope.frame then (bindings.lookup x).or ((store.bindings f).lookup x)
      else (store.bindings f).lookup x := by
  induction bindings generalizing store with
  | nil => exact ⟨rfl, fun f x => (ite_self _).symm⟩
  | cons head rest ih =>
    obtain ⟨name, value⟩ := head
    obtain ⟨hname, hrest⟩ := List.nodup_cons.mp hnodup
    obtain ⟨hnew, hothers⟩ := List.forall_mem_cons.mp hfree
    have hdeclared : (store.declare scope name value).1 = true := by
      rw [declare, if_neg (Bool.eq_false_iff.mp hnew)]
    -- The names that are still to come are free behind this declaration as well.
    have hfree' : ∀ x ∈ rest.map Prod.fst,
        (store.declare scope name value).2.owns scope.frame x = false := by
      intro x hx
      have hne : x ≠ name := fun heq => hname (heq ▸ hx)
      rw [owns, lookup_bindings_declare_of_ne hne]
      exact hothers x hx
    obtain ⟨hall, hlookup⟩ := ih (size_declare.symm ▸ hsize) hrest hfree'
    rw [declareEach_cons, hdeclared, hall]
    refine ⟨rfl, fun f x => (hlookup f x).trans ?_⟩
    rw [lookup_bindings_declare, List.lookup_cons]
    by_cases hf : f = scope.frame
    · subst hf
      by_cases hx : x = name
      · subst hx
        have hnone : rest.lookup x = none := by
          rw [← Option.not_isSome_iff_eq_none, Bindings.isSome_lookup]
          exact hname
        simp [hnone, hsize, hnew]
      · simp [hx, beq_false_of_ne hx]
    · simp [hf]

/-- The arguments of a call have been handed over.  There is one new scope, inside the one that the
function was made in.  It has a variable for each parameter and no other.  The variable of a
parameter has the argument at the same position, or `undefined` if there is none.  All that
is as if the variables had been declared one after another, and none of them would be refused. -/
structure Received (store : Store) (closure : Scope) (parameters : List String)
    (arguments : List Value) (inner : Scope) (store' : Store) : Prop where
  fresh : inner = .inner store.frames.size closure
  size : store'.frames.size = store.frames.size + 1
  kept (f : Nat) (h : f < store.frames.size) : store'.bindings f = store.bindings f
  owns (x : String) : store'.owns inner.frame x = true ↔ x ∈ parameters
  bound (i : Nat) (x : String) (h : parameters[i]? = some x) :
    (store'.bindings inner.frame).lookup x = some (arguments[i]?.getD .undefined)
  declared : (declareEach inner (Eval.bindParameters parameters arguments)
    (store.newInner closure []).2).1 = true
  lookup (f : Nat) (x : String) : ((declareEach inner (Eval.bindParameters parameters arguments)
    (store.newInner closure []).2).2.bindings f).lookup x = (store'.bindings f).lookup x

theorem received_newInner (store : Store) (closure : Scope) {parameters : List String}
    (arguments : List Value) (hnodup : parameters.Nodup) :
    store.Received closure parameters arguments (.inner store.frames.size closure)
      (store.newInner closure (Eval.bindParameters parameters arguments)).2 := by
  have hkeys : ((Eval.bindParameters parameters arguments).map Prod.fst).Nodup := by
    rwa [Eval.map_fst_bindParameters]
  have hframe : (store.newInner closure (Eval.bindParameters parameters arguments)).2.bindings
      store.frames.size = Eval.bindParameters parameters arguments :=
    bindings_allocate.trans (if_pos rfl)
  have hempty : (store.newInner closure []).2.bindings store.frames.size = [] :=
    bindings_allocate.trans (if_pos rfl)
  have hscope : (Scope.inner store.frames.size closure).frame = store.frames.size := rfl
  have hsize : store.frames.size < (store.newInner closure []).2.frames.size :=
    Array.size_push .. ▸ Nat.lt_succ_self _
  obtain ⟨hdeclared, hlookup⟩ := declareEach_of_nodup (hscope ▸ hsize) hkeys fun x _ => by
    rw [owns, hscope, hempty]
    rfl
  refine ⟨rfl, Array.size_push .., fun f hf => ?_, fun x => ?_, fun i x hi => ?_, hdeclared,
    fun f x => (hlookup f x).trans ?_⟩
  · exact bindings_allocate.trans (if_neg (Nat.ne_of_lt hf))
  · rw [owns, hscope, hframe, Bindings.isSome_lookup, Eval.map_fst_bindParameters]
  · have hmem : (x, arguments[i]?.getD .undefined) ∈ Eval.bindParameters parameters arguments :=
      List.mem_of_getElem? ((Eval.getElem?_bindParameters ..).trans (by rw [hi]; rfl))
    rw [hscope, hframe]
    exact Value.lookup_of_mem hkeys hmem
  · rw [hscope]
    by_cases hf : f = store.frames.size
    · subst hf
      rw [if_pos rfl, hempty, hframe]
      exact Option.or_none
    · have hold (bindings : Bindings) :
          (store.newInner closure bindings).2.bindings f = store.bindings f :=
        bindings_allocate.trans (if_neg hf)
      rw [if_neg hf, hold, hold]

end Store

/-! ## Calls -/

namespace Eval

variable {limit identity : Nat} {name : Option String} {f : Function} {closure scope : Scope}
  {arguments : List Value} {span : Span} {state : State}

/-- A call of a function at the limit is refused, and nothing has happened. -/
theorem call_function_of_le (h : limit ≤ state.depth) :
    call limit (.function identity name f closure) arguments span scope state =
      .done (.error (.stackOverflow limit span)) state := by
  show (if limit ≤ state.depth then _ else _ : Eval Value) state = _
  rw [if_pos h]
  rfl

/-- A call of a function below the limit asks for the body of the function, in a scope that has the
parameters and with one more active call. -/
theorem call_function_of_lt (h : state.depth < limit) :
    ∃ next, call limit (.function identity name f closure) arguments span scope state =
      .ask (.invocation f.body (.inner state.store.frames.size closure))
        { state with
          store := (state.store.newInner closure (bindParameters f.parameters arguments)).2
          depth := state.depth + 1 } next := by
  show ∃ next, (if limit ≤ state.depth then _ else _ : Eval Value) state = _
  rw [if_neg (Nat.not_le.mpr h)]
  exact ⟨_, rfl⟩

end Eval

/-! ## Refused lists of parameters -/

namespace Parse

/-- The first parameter whose name an earlier one has. -/
def FirstRepeat (names : List (String × Span)) (x : String) (sp : Span) : Prop :=
  ∃ before after, names = before ++ (x, sp) :: after ∧ x ∈ before.map Prod.fst ∧
    (before.map Prod.fst).Nodup

theorem firstRepeat?_eq_some {names : List (String × Span)} {seen : List String} {x : String}
    {sp : Span} : firstRepeat? seen names = some (x, sp) ↔
      ∃ before after, names = before ++ (x, sp) :: after ∧
        (x ∈ seen ∨ x ∈ before.map Prod.fst) ∧ firstRepeat? seen before = none := by
  induction names generalizing seen with
  | nil => simp [firstRepeat?]
  | cons head rest ih =>
    obtain ⟨y, sp'⟩ := head
    rw [firstRepeat?]
    by_cases hy : y ∈ seen
    · rw [if_pos hy]
      constructor
      · rintro ⟨⟩
        exact ⟨[], rest, rfl, .inl hy, rfl⟩
      · rintro ⟨before, after, heq, -, hnone⟩
        cases before with
        | nil =>
          cases heq
          rfl
        | cons first before =>
          cases heq
          rw [firstRepeat?, if_pos hy] at hnone
          cases hnone
    · rw [if_neg hy, ih]
      constructor
      · rintro ⟨before, after, rfl, hmem, hnone⟩
        refine ⟨(y, sp') :: before, after, rfl, ?_, ?_⟩
        · rw [List.map_cons, List.mem_cons]
          rw [List.mem_cons, or_assoc] at hmem
          exact or_left_comm.mp hmem
        · rw [firstRepeat?, if_neg hy]
          exact hnone
      · rintro ⟨before, after, heq, hmem, hnone⟩
        cases before with
        | nil =>
          cases heq
          exact absurd (hmem.resolve_right List.not_mem_nil) hy
        | cons first before =>
          cases heq
          rw [firstRepeat?, if_neg hy] at hnone
          rw [List.map_cons, List.mem_cons] at hmem
          refine ⟨before, after, rfl, ?_, hnone⟩
          rw [List.mem_cons, or_assoc]
          exact or_left_comm.mp hmem

theorem firstRepeat?_nil_eq_some {names : List (String × Span)} {x : String} {sp : Span} :
    firstRepeat? [] names = some (x, sp) ↔ FirstRepeat names x sp := by
  rw [firstRepeat?_eq_some]
  simp only [FirstRepeat, firstRepeat?_nil_eq_none, List.not_mem_nil, false_or]

variable {α : Type} {ls mid tail : List Lexeme} {paren : Span} {e e' : ParseError}
  {names : List (String × Span)} {keyword : Lexeme}

theorem Rejects.unique {work : Parse α} (h : Rejects work ls e) (h' : Rejects work ls e') :
    e = e' := by
  obtain ⟨rest, h⟩ := h
  obtain ⟨rest', h'⟩ := h'
  exact Except.error.inj (h.unique h')

/-- The work fails, and not because a parameter repeats another one. -/
def Misreads (work : Parse α) (ls : List Lexeme) : Prop :=
  ∃ e, Rejects work ls e ∧ ∀ x sp, e ≠ .duplicateParameter x sp

theorem Misreads.of_done {work : Parse α} (same : work ls = .done (.error e) mid)
    (other : ∀ x sp, e ≠ .duplicateParameter x sp) : Misreads work ls :=
  ⟨e, ⟨mid, .of_done same⟩, other⟩

/-- Parameters are read, or something is wrong with one of them or with what is between them; where
they repeat one another is not looked at. -/
theorem reads_parameters_or (ls : List Lexeme) :
    (∃ names mid, Reads (.parameters names) ls mid) ∨ Misreads parameters ls := by
  induction hn : ls.length using Nat.strongRecOn generalizing ls with
  | ind n ih =>
    rcases ls with _ | ⟨⟨token, sp⟩, tail⟩
    · exact .inr (.of_done rfl nofun)
    cases token with
    | identifier name =>
      by_cases hconstant : (Constant.ofSpelling? name).isSome
      · exact .inr (.of_done (bindingName_bind_constant _ hconstant) nofun)
      have hfree : Constant.ofSpelling? name = none := by simpa using hconstant
      rcases tail with _ | ⟨⟨token, sp'⟩, tail⟩
      · exact .inr (.of_done (bindingName_bind_free _ hfree) nofun)
      by_cases hcomma : token = .symbol .comma
      · subst hcomma
        have hlength : tail.length < n := by
          rw [← hn, List.length_cons, List.length_cons]
          omega
        have hsame : parameters (⟨.identifier name, sp⟩ :: ⟨.symbol .comma, sp'⟩ :: tail) =
            (reach .parameters >>= fun rest => pure ((name, sp) :: rest) :
              Parse (List (String × Span))) tail :=
          bindingName_bind_free _ hfree
        rcases ih _ hlength tail rfl with ⟨names, mid, hreads⟩ | ⟨e, hrejects, hother⟩
        · exact .inl ⟨_, mid, .parametersMore hfree hreads⟩
        · have hreach : Rejects (reach .parameters) tail e := Rejects.reach hrejects
          exact .inr ⟨e, hreach.bind.of_eq hsame, hother⟩
      by_cases hclose : token = .symbol .rightParen
      · subst hclose
        exact .inl ⟨_, tail, .parametersLast hfree⟩
      · have hsame : parameters (⟨.identifier name, sp⟩ :: ⟨token, sp'⟩ :: tail) =
            .done (.error (.expected (.commaOr .rightParen) token sp')) tail :=
          (bindingName_bind_free _ hfree).trans (separator_bind_of_ne _ hcomma hclose)
        exact .inr (.of_done hsame nofun)
    | _ => exact .inr (.of_done rfl nofun)

theorem reads_parameterList_or (ls : List Lexeme) :
    (∃ names mid, Reads (.parameterList names) ls mid) ∨ Misreads parameterList ls := by
  rcases ls with _ | ⟨⟨token, sp⟩, tail⟩
  · exact .inr (.of_done rfl nofun)
  by_cases hclose : token = .symbol .rightParen
  · subst hclose
    exact .inl ⟨[], tail, .parameterListNone⟩
  have hsame : parameterList (⟨token, sp⟩ :: tail) = reach .parameters (⟨token, sp⟩ :: tail) := by
    show (if token = .symbol .rightParen then _ else _ : Parse (List (String × Span))) _ = _
    rw [if_neg hclose]
  rcases reads_parameters_or (⟨token, sp⟩ :: tail) with ⟨names, mid, hreads⟩ | ⟨e, he, hother⟩
  · exact .inl ⟨names, mid, .parameterListSome hreads⟩
  · have hreach : Rejects (reach .parameters) (⟨token, sp⟩ :: tail) e := Rejects.reach he
    exact .inr ⟨e, hreach.of_eq hsame, hother⟩

/-- A block is read or refused. -/
theorem comes_block (ls : List Lexeme) :
    (∃ b rest, Comes block ls (.ok b) rest) ∨ ∃ e, Rejects block ls e := by
  have hbelow : SettlesBelow ls.length := fun goal ls _ ready => settles goal ls ready
  rcases settles_block hbelow (Nat.le_refl _) with
    @⟨b, rest, k, ends, -, -, -⟩ | @⟨e, rest, k, ends, -, -⟩
  · exact .inl ⟨b, rest, k, ends⟩
  · exact .inr ⟨e, rest, k, ends⟩

/-- Behind its parameters a function fails in one of two ways: a parameter repeats an earlier one,
or they are all different and the body fails. -/
theorem rejects_function_of_reads (h : Reads (.parameterList names) tail mid) :
    Rejects (function keyword) (⟨.symbol .leftParen, paren⟩ :: tail) e ↔
      (∃ x sp, FirstRepeat names x sp ∧ e = .duplicateParameter x sp) ∨
      (names.map Prod.fst).Nodup ∧ Rejects block mid e := by
  have hlist : Comes parameterList tail (.ok names) mid := .of_pays h.paid
  cases hrepeat : firstRepeat? [] names with
  | some p =>
    obtain ⟨x, sp⟩ := p
    have hfirst := firstRepeat?_nil_eq_some.mp hrepeat
    have hrejects : Rejects (function keyword) (⟨.symbol .leftParen, paren⟩ :: tail)
        (.duplicateParameter x sp) := by
      refine (Rejects.of_comes hlist ⟨mid, .of_done ?_⟩).of_eq (expect_bind_mark _)
      rw [hrepeat]
      rfl
    constructor
    · exact fun he => .inl ⟨x, sp, hfirst, he.unique hrejects⟩
    · rintro (⟨y, sp', hy, rfl⟩ | ⟨hnodup, -⟩)
      · cases hrepeat.symm.trans (firstRepeat?_nil_eq_some.mpr hy)
        exact hrejects
      · cases hrepeat.symm.trans (firstRepeat?_nil_eq_none.mpr hnodup)
  | none =>
    have hnodup := firstRepeat?_nil_eq_none.mp hrepeat
    rcases comes_block mid with ⟨b, rest, hb⟩ | ⟨e', he'⟩
    · -- The function is read, and so neither of the two fails.
      have hfunction : Comes (function keyword) (⟨.symbol .leftParen, paren⟩ :: tail)
          (.ok ⟨names.map Prod.fst, b.body, keyword.span.join b.span⟩) rest := by
        refine (hlist.bind ?_).of_eq (expect_bind_mark _)
        rw [hrepeat]
        exact hb.bind (.of_done rfl)
      constructor
      · rintro ⟨rest', he⟩
        cases he.unique hfunction
      · rintro (⟨x, sp, hfirst, -⟩ | ⟨-, rest', he⟩)
        · cases hrepeat.symm.trans (firstRepeat?_nil_eq_some.mpr hfirst)
        · cases he.unique hb
    · have hrejects : Rejects (function keyword) (⟨.symbol .leftParen, paren⟩ :: tail) e' := by
        refine (Rejects.of_comes hlist ?_).of_eq (expect_bind_mark _)
        rw [hrepeat]
        exact he'.bind
      constructor
      · exact fun he => .inr ⟨hnodup, hrejects.unique he ▸ he'⟩
      · rintro (⟨x, sp, hfirst, -⟩ | ⟨-, he⟩)
        · cases hrepeat.symm.trans (firstRepeat?_nil_eq_some.mpr hfirst)
        · exact he'.unique he ▸ hrejects

/-- **A function is refused for a repeated parameter** if its parameters are well formed and one of
them repeats an earlier one, or if that is so of a function in its body. -/
theorem rejects_function_iff {x : String} {sp : Span} :
    Rejects (function keyword) ls (.duplicateParameter x sp) ↔
      ∃ paren tail names mid, ls = ⟨.symbol .leftParen, paren⟩ :: tail ∧
        Reads (.parameterList names) tail mid ∧
        (FirstRepeat names x sp ∨
          (names.map Prod.fst).Nodup ∧ Rejects block mid (.duplicateParameter x sp)) := by
  constructor
  · intro h
    rcases ls with _ | ⟨⟨token, paren⟩, tail⟩
    · cases h.unique ⟨_, .of_done rfl⟩
    by_cases hparen : token = .symbol .leftParen
    · subst hparen
      rcases reads_parameterList_or tail with ⟨names, mid, hreads⟩ | ⟨e, he, hother⟩
      · refine ⟨paren, tail, names, mid, rfl, hreads, ?_⟩
        rcases (rejects_function_of_reads hreads).mp h with ⟨y, sp', hfirst, heq⟩ | hbody
        · cases heq
          exact .inl hfirst
        · exact .inr hbody
      · have hrejects : Rejects (function keyword) (⟨.symbol .leftParen, paren⟩ :: tail) e :=
          he.bind.of_eq (expect_bind_mark _)
        exact absurd (hrejects.unique h) (hother x sp)
    · cases h.unique ⟨_, .of_done (expect_bind_of_ne _ hparen)⟩
  · rintro ⟨paren, tail, names, mid, rfl, hreads, hcase⟩
    refine (rejects_function_of_reads hreads).mpr ?_
    exact hcase.imp (fun hfirst => ⟨x, sp, hfirst, rfl⟩) id

/-- Well-formed parameters repeat one another exactly if there is a first one that does, and that is
the one that the function is refused for. -/
theorem not_nodup_iff (h : Reads (.parameterList names) tail mid) :
    ¬ (names.map Prod.fst).Nodup ↔ ∃ x sp, FirstRepeat names x sp ∧
      Rejects (function keyword) (⟨.symbol .leftParen, paren⟩ :: tail)
        (.duplicateParameter x sp) := by
  rw [← firstRepeat?_nil_eq_none]
  constructor
  · intro hsome
    obtain ⟨⟨x, sp⟩, hrepeat⟩ := Option.ne_none_iff_exists'.mp hsome
    have hfirst := firstRepeat?_nil_eq_some.mp hrepeat
    exact ⟨x, sp, hfirst, (rejects_function_of_reads h).mpr (.inl ⟨x, sp, hfirst, rfl⟩)⟩
  · rintro ⟨x, sp, hfirst, -⟩ hnone
    cases hnone.symm.trans (firstRepeat?_nil_eq_some.mpr hfirst)

end Parse

/-- **Every call hands all its arguments over by position.**  The parameters of a function in a
program have different names, wherever the function stands.  So a call of a value that was made from
it, in whatever scope, is refused at the limit, or the body begins in a new scope that has received
the arguments.  The parser sees to that: it refuses the parameters of a function at the first one
that repeats an earlier one, and only if there is one. -/
theorem Program.call_receives_arguments :
    (∀ (lexemes : List Lexeme) (program : Program), Program.parse lexemes = .ok program →
      ∀ root ∈ program.nodes, ∀ (m : Node) (f : Function), root.Within m → m.Makes f →
        f.parameters.Nodup ∧
        ∀ (limit identity : Nat) (name : Option String) (closure scope : Scope)
          (arguments : List Value) (span : Span) (state : State),
          (limit ≤ state.depth →
            Eval.call limit (.function identity name f closure) arguments span scope state =
              .done (.error (.stackOverflow limit span)) state) ∧
          (state.depth < limit → ∃ inner store next,
            Eval.call limit (.function identity name f closure) arguments span scope state =
              .ask (.invocation f.body inner)
                { state with store := store, depth := state.depth + 1 } next ∧
            state.store.Received closure f.parameters arguments inner store)) ∧
    (∀ (keyword : Lexeme) (ls : List Lexeme) (x : String) (sp : Span),
      Parse.Rejects (Parse.function keyword) ls (.duplicateParameter x sp) ↔
        ∃ paren tail names mid, ls = ⟨.symbol .leftParen, paren⟩ :: tail ∧
          Reads (.parameterList names) tail mid ∧
          (Parse.FirstRepeat names x sp ∨
            (names.map Prod.fst).Nodup ∧
              Parse.Rejects Parse.block mid (.duplicateParameter x sp))) ∧
    (∀ (keyword : Lexeme) (paren : Span) (tail mid : List Lexeme) (names : List (String × Span)),
      Reads (.parameterList names) tail mid →
        (¬ (names.map Prod.fst).Nodup ↔ ∃ x sp, Parse.FirstRepeat names x sp ∧
          Parse.Rejects (Parse.function keyword) (⟨.symbol .leftParen, paren⟩ :: tail)
            (.duplicateParameter x sp))) := by
  refine ⟨fun lexemes program hparse root hroot m f hm hf => ?_,
    fun _ _ _ _ => Parse.rejects_function_iff, fun _ _ _ _ _ => Parse.not_nodup_iff⟩
  have hnodup := nodup_parameters hparse hroot hm hf
  refine ⟨hnodup, fun limit identity name closure scope arguments span state =>
    ⟨Eval.call_function_of_le, fun hlt => ?_⟩⟩
  obtain ⟨next, hcall⟩ := Eval.call_function_of_lt hlt
  exact ⟨_, _, next, hcall, state.store.received_newInner closure arguments hnodup⟩

/-- A function inside another one. -/
theorem Program.parse_nested_function :
    Program.parse [⟨.keyword .functionWord, .none⟩, ⟨.identifier "f", .none⟩,
      ⟨.symbol .leftParen, .none⟩, ⟨.symbol .rightParen, .none⟩, ⟨.symbol .leftBrace, .none⟩,
      ⟨.keyword .functionWord, .none⟩, ⟨.symbol .leftParen, .none⟩, ⟨.identifier "a", .none⟩,
      ⟨.symbol .comma, .none⟩, ⟨.identifier "b", .none⟩, ⟨.symbol .rightParen, .none⟩,
      ⟨.symbol .leftBrace, .none⟩, ⟨.symbol .rightBrace, .none⟩, ⟨.symbol .rightBrace, .none⟩,
      ⟨.endOfFile, .none⟩] =
    .ok ⟨[.function "f" ⟨[], [.expr (.function none ⟨["a", "b"], [], .none⟩)], .none⟩], [],
      .none⟩ := rfl

/-- The function inside the other one is called with one argument for its two parameters; and a
function with two parameters of one name is refused. -/
theorem Program.call_receives_arguments_missing :
    (∃ lexemes program root m f,
      Program.parse lexemes = .ok program ∧ root ∈ program.nodes ∧ root.Within m ∧ m ≠ root ∧
      m.Makes f ∧ f.parameters = ["a", "b"] ∧
      ∃ inner store next,
        Eval.call 1 (.function 0 none f (.root 0)) [.boolean true] .none (.root 0)
            (.initial .unbounded) =
          .ask (.invocation f.body inner)
            { State.initial .unbounded with store := store, depth := 1 } next ∧
        (store.bindings inner.frame).lookup "a" = some (.boolean true) ∧
        (store.bindings inner.frame).lookup "b" = some .undefined) ∧
    Parse.Rejects (Parse.function ⟨.keyword .functionWord, .none⟩)
      [⟨.symbol .leftParen, .none⟩, ⟨.identifier "a", .none⟩, ⟨.symbol .comma, .none⟩,
        ⟨.identifier "a", ⟨⟨3, 0, 3⟩, ⟨4, 0, 4⟩⟩⟩, ⟨.symbol .rightParen, .none⟩]
      (.duplicateParameter "a" ⟨⟨3, 0, 3⟩, ⟨4, 0, 4⟩⟩) := by
  constructor
  · have hwithin : Node.Within
        (.function "f" ⟨[], [.expr (.function none ⟨["a", "b"], [], .none⟩)], .none⟩)
        (.expr (.function none ⟨["a", "b"], [], .none⟩)) := .child .self List.mem_cons_self
    obtain ⟨-, hcall⟩ := call_receives_arguments.1 _ _ parse_nested_function _
      List.mem_cons_self _ _ hwithin .expr
    obtain ⟨inner, store, next, heq, hreceived⟩ :=
      (hcall 1 0 none (.root 0) (.root 0) [.boolean true] .none (.initial .unbounded)).2
        Nat.zero_lt_one
    exact ⟨_, _, _, _, _, parse_nested_function, List.mem_cons_self, hwithin, nofun, .expr, rfl,
      inner, store, next, heq, hreceived.bound 0 "a" rfl, hreceived.bound 1 "b" rfl⟩
  · refine (call_receives_arguments.2.1 _ _ _ _).mpr ⟨_, _, _, [], rfl,
      .parameterListSome (.parametersMore rfl (.parametersLast rfl)), .inl ⟨[_], [], rfl, ?_, ?_⟩⟩
    · exact List.mem_cons_self
    · exact List.pairwise_singleton _ _

end Script
