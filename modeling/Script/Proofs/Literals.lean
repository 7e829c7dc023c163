import Mathlib.Data.Set.List
import Script.Proofs.Lexer.Rendering
import Script.Proofs.Number.ReadBack
import Script.Proofs.Parser.RoundTrip
import Script.Proofs.Routine
import Script.Proofs.Sources
import Script.Proofs.Values

/-!
# The display form of data is a program for it

Numbers, strings, constants, and arrays and objects of them are written in the display form as they
are written in a source.  A `Literal` brings together what that means for a value: its text renders
some tokens, the grammar makes an expression of them, and the expression evaluates to a value that
is equal by contents, whatever scope it stands in and without a change to any variable.  All data
has a literal (`Value.Data.exists_literal`), put together from the literals of what it holds.  So
the display form of an array can be run as a source (`Session.run_display`).
-/

namespace Script

/-! ## Work that makes something -/

/-- The work goes well from every state, changes nothing but which identities are given out, and
comes to a result of the given kind. -/
def Eval.Makes {α : Type} (limit : Nat) (work : Eval α) (kind : α → Prop) : Prop :=
  ∀ s : State, ∃ a next k, kind a ∧
    Routine.Ends (Eval.body limit) (work s) (.ok a) { s with nextIdentity := next } k

namespace Eval

variable {α β : Type} {limit : Nat} {scope : Scope} {kind : α → Prop}

theorem makes_pure {a : α} (h : kind a) : Makes limit (pure a) kind :=
  fun s => ⟨a, s.nextIdentity, 0, h, .done _ _⟩

theorem makes_freshIdentity : Makes limit freshIdentity fun _ => True :=
  fun s => ⟨s.nextIdentity, s.nextIdentity + 1, 0, trivial, .done _ _⟩

theorem Makes.bind {first : Eval α} {next : α → Eval β} {kind' : β → Prop}
    (h : Makes limit first kind) (hnext : ∀ a, kind a → Makes limit (next a) kind') :
    Makes limit (first >>= next) kind' := by
  intro s
  obtain ⟨a, n, k, ha, hfirst⟩ := h s
  obtain ⟨b, n', k', hb, hsecond⟩ := hnext a ha { s with nextIdentity := n }
  obtain ⟨k'', -, hends⟩ := Action.ends_bind hfirst hsecond
  exact ⟨b, n', k'', hb, hends⟩

theorem Makes.mono {work : Eval α} {kind' : α → Prop} (h : Makes limit work kind)
    (hle : ∀ a, kind a → kind' a) : Makes limit work kind' := by
  intro s
  obtain ⟨a, n, k, ha, hends⟩ := h s
  exact ⟨a, n, k, hle a ha, hends⟩

/-- To ask for a task is to do what it says. -/
theorem Makes.call {task : Task} {kind : Value → Prop} (h : Makes limit (body limit task) kind) :
    Makes limit (Action.call task) kind := by
  intro s
  obtain ⟨a, n, k, ha, hends⟩ := h s
  exact ⟨a, n, k + 1, ha, .call hends⟩

end Eval

open Eval (Makes)

/-! ## What expressions denote -/

/-- Wherever the parts of the expression stand and in whatever scope it is evaluated, it makes a
value that is equal by contents to the given one. -/
def Expr.Denotes (e : Expr) (v : Value) : Prop :=
  ∀ e' : Expr, e'.bare = e.bare → ∀ limit scope,
    Makes limit (Eval.exprBody limit scope e') fun w => w.same v = true

/-- The property has the given key and a value as given. -/
def Property.Denotes (q : Property) (p : String × Value) : Prop :=
  ∀ q' : Property, q'.bare = q.bare → ∃ e sp, q' = .keyed p.1 e sp ∧ ∀ limit scope,
    Makes limit (Eval.exprBody limit scope e) fun w => w.same p.2 = true

section

variable {limit : Nat} {scope : Scope}

theorem Expr.denotes_number {x y : Number} (h : x.eq y = true) :
    (Expr.number x .none).Denotes (.number y) := by
  intro e' he limit scope
  obtain ⟨sp, rfl⟩ := eq_number_of_bare he
  exact Eval.makes_pure (Value.same_number h)

theorem Expr.denotes_negated {x y : Number} (h : x.neg.eq y = true) :
    (Expr.unary .negate (.number x .none) .none).Denotes (.number y) := by
  intro e' he limit scope
  obtain ⟨operand, sp, rfl, hoperand⟩ := eq_unary_of_bare he
  obtain ⟨sp', rfl⟩ := eq_number_of_bare hoperand
  have hmakes : Makes limit (Eval.expr scope (.number x sp')) (· = .number x) :=
    .call (Eval.makes_pure rfl)
  refine hmakes.bind ?_
  rintro _ rfl
  exact Eval.makes_pure (Value.same_number h)

theorem Expr.denotes_string (s : String) : (Expr.string s .none).Denotes (.string s) := by
  intro e' he limit scope
  obtain ⟨sp, rfl⟩ := eq_string_of_bare he
  exact Eval.makes_pure (Value.same_string s)

theorem Expr.denotes_constant (c : Constant) :
    (Expr.constant c .none).Denotes (.ofConstant c) := by
  intro e' he limit scope
  obtain ⟨sp, rfl⟩ := eq_constant_of_bare he
  exact Eval.makes_pure (Value.same_ofConstant c)

/-- Expressions that denote values one by one make them one after another. -/
theorem Eval.makes_values {vs : List Value} {es es' : List Expr}
    (h : List.Forall₂ (fun v (e : Expr) => e.Denotes v) vs es)
    (hes : bareExprs es' = bareExprs es) (done : List Value) :
    Makes limit (values scope done es') fun ws => ∃ more, ws = done.reverse ++ more ∧
      List.Forall₂ (fun w v => w.same v = true) more vs := by
  induction h generalizing es' done with
  | nil =>
    cases es' with
    | nil => exact makes_pure ⟨[], (List.append_nil _).symm, .nil⟩
    | cons e' es' => simp at hes
  | @cons v e vs es hv _ ih =>
    cases es' with
    | nil => simp at hes
    | cons e' es' =>
      obtain ⟨he, hrest⟩ := List.cons.inj hes
      have hfirst : Makes limit (expr scope e') fun w => w.same v = true :=
        .call (hv e' he limit scope)
      refine hfirst.bind fun w hw => (ih hrest (w :: done)).mono ?_
      rintro _ ⟨more, rfl, hmore⟩
      refine ⟨w :: more, ?_, .cons hw hmore⟩
      rw [List.reverse_cons, List.append_assoc, List.singleton_append]

theorem Expr.denotes_array {vs : List Value} {es : List Expr}
    (h : List.Forall₂ (fun v (e : Expr) => e.Denotes v) vs es) (identity : Nat) :
    (Expr.array es .none).Denotes (.array identity vs) := by
  intro e' he limit scope
  obtain ⟨es', sp, rfl, hes⟩ := eq_array_of_bare he
  refine (Eval.makes_values h hes []).bind ?_
  rintro _ ⟨ws, rfl, hws⟩
  exact Eval.makes_freshIdentity.bind fun i _ => Eval.makes_pure (Value.same_array i identity hws)

theorem Expr.Denotes.keyed {e : Expr} {v : Value} (h : e.Denotes v) (key : String) :
    (Property.keyed key e .none).Denotes (key, v) := by
  intro q' hq
  obtain ⟨e', sp, rfl, he⟩ := Property.eq_keyed_of_bare hq
  exact ⟨e', sp, rfl, h e' he⟩

/-- Properties with distinct keys are made one after another. -/
theorem Eval.makes_properties {ps : List (String × Value)} {qs qs' : List Property}
    (h : List.Forall₂ (fun p (q : Property) => q.Denotes p) ps qs)
    (hqs : bareProperties qs' = bareProperties qs) (done : List (String × Value))
    (hkeys : ((done ++ ps).map Prod.fst).Nodup) :
    Makes limit (properties scope done qs') fun rs => ∃ more, rs = done ++ more ∧
      List.Forall₂ Value.SameAt more ps := by
  induction h generalizing qs' done with
  | nil =>
    cases qs' with
    | nil => exact makes_pure ⟨[], (List.append_nil _).symm, .nil⟩
    | cons q' qs' => simp at hqs
  | @cons p q ps qs hp _ ih =>
    cases qs' with
    | nil => simp at hqs
    | cons q' qs' =>
      obtain ⟨hq, hrest⟩ := List.cons.inj hqs
      obtain ⟨e, sp, rfl, hmakes⟩ := hp q' hq
      have hfirst : Makes limit (expr scope e) fun w => w.same p.2 = true :=
        .call (hmakes limit scope)
      -- As the keys are distinct, each new one goes behind those that are there.
      have hfresh : p.1 ∉ done.map Prod.fst := by
        rw [List.map_append, List.map_cons] at hkeys
        have hapart := (List.nodup_append.mp hkeys).2.2
        exact fun hmem => hapart p.1 hmem p.1 List.mem_cons_self rfl
      refine hfirst.bind fun w hw => ?_
      have hkeys' : ((done ++ [(p.1, w)] ++ ps).map Prod.fst).Nodup := by simpa using hkeys
      rw [insertProperty_of_notMem w hfresh]
      refine (ih hrest (done ++ [(p.1, w)]) hkeys').mono ?_
      rintro _ ⟨more, rfl, hmore⟩
      refine ⟨(p.1, w) :: more, ?_, .cons ⟨rfl, hw⟩ hmore⟩
      rw [List.append_assoc, List.singleton_append]

theorem Expr.denotes_object {ps : List (String × Value)} {qs : List Property}
    (h : List.Forall₂ (fun p (q : Property) => q.Denotes p) ps qs)
    (hkeys : (ps.map Prod.fst).Nodup) (identity : Nat) :
    (Expr.object qs .none).Denotes (.object identity ps) := by
  intro e' he limit scope
  obtain ⟨qs', sp, rfl, hqs⟩ := eq_object_of_bare he
  refine (Eval.makes_properties h hqs [] hkeys).bind ?_
  rintro _ ⟨rs, rfl, hrs⟩
  exact Eval.makes_freshIdentity.bind fun i _ =>
    Eval.makes_pure (Value.same_object i identity hkeys hrs)

end

/-! ## Data -/

/-- The text can stand for a name: it begins with a letter or an underscore, goes on with letters,
digits and underscores, and is not reserved. -/
structure IsName (name : String) : Prop where
  shape : ∃ c cs, name.toList = c :: cs ∧ Lexeme.isNameStart c = true ∧
    ∀ d ∈ cs, Lexeme.isNamePart d = true
  free : Keyword.ofSpelling? name = none

theorem IsName.spells {name : String} (h : IsName name) :
    Lexeme.Spells (.identifier name) name.toList := by
  obtain ⟨c, cs, hname, start, parts⟩ := h.shape
  have hfree := h.free
  rw [← String.ofList_toList (s := name), hname] at hfree ⊢
  rw [String.toList_ofList]
  exact .identifier start parts hfree

/-- The values that can be written down: finite numbers, strings without a double quote, constants,
and arrays and objects of such values.  The keys of an object are names, each of them once. -/
inductive Value.Data : Value → Prop
  | number {x : Number} (finite : x.isFinite = true) : Data (.number x)
  | string {s : String} (plain : '"' ∉ s.toList) : Data (.string s)
  | boolean (b : Bool) : Data (.boolean b)
  | null : Data .null
  | undefined : Data .undefined
  | array {identity : Nat} {vs : List Value} (inside : ∀ v ∈ vs, Data v) :
      Data (.array identity vs)
  | object {identity : Nat} {ps : List (String × Value)} (distinct : (ps.map Prod.fst).Nodup)
      (names : ∀ p ∈ ps, IsName p.1) (inside : ∀ p ∈ ps, Data p.2) : Data (.object identity ps)

/-! ## Literals -/

/-- A value with a way to write it down: an expression that denotes it, and tokens for the
expression, which the form of the value inside others renders. -/
structure Literal where
  value : Value
  expr : Expr
  tokens : List Token
  yields : Yields 1 (.expr (.level .logical) expr) tokens
  named : expr.WellNamed
  denotes : expr.Denotes value
  leads : Lexeme.Leads tokens value.nestedForm

/-- A property with a way to write it down. -/
structure Literal.Entry where
  key : String
  name : IsName key
  literal : Literal

open Token Lexeme

namespace Literal

theorem exists_number {x : Number} (h : x.isFinite = true) :
    ∃ literal : Literal, literal.value = .number x := by
  obtain ⟨ds, hspells, hdisplay⟩ := Number.spells_display h
  have hform : (Value.number x).nestedForm = x.display.toList := Value.nestedForm_of_text rfl rfl
  by_cases hneg : x.isNegative = true ∧ x.isZero = false
  · have hyields : Yields 1 (.expr .sign (.unary .negate (.number x.absolute .none) .none))
        [symbol .minus, number x.absolute] := .sign Yields.number.ofPrimaryAt
    have hequal : x.absolute.neg.eq x = true := by
      rw [Number.neg_absolute h hneg.1]
      exact Number.eq_of_key h h rfl
    refine ⟨⟨.number x, _, _, hyields.loosen (by decide), trivial, Expr.denotes_negated hequal, ?_⟩,
      rfl⟩
    rw [hform, hdisplay, if_pos hneg]
    exact leads_negated hspells
  · refine ⟨⟨.number x, _, _, Yields.number.ofPrimaryAt, trivial,
      Expr.denotes_number (Number.absolute_eq h hneg), ?_⟩, rfl⟩
    rw [hform, hdisplay, if_neg hneg]
    exact leads_number hspells

def ofString (s : String) (h : '"' ∉ s.toList) : Literal where
  value := .string s
  expr := .string s .none
  tokens := [string s]
  yields := Yields.string.ofPrimaryAt
  named := trivial
  denotes := Expr.denotes_string s
  leads := by
    have hspells : Spells (.string (String.ofList s.toList)) ('"' :: (s.toList ++ ['"'])) :=
      .string rfl h
    rw [String.ofList_toList] at hspells
    rw [Value.nestedForm_string]
    exact leads_string hspells

def ofConstant (c : Constant) : Literal where
  value := .ofConstant c
  expr := .constant c .none
  tokens := [identifier c.spelling]
  yields := Yields.constant.ofPrimaryAt
  named := trivial
  denotes := Expr.denotes_constant c
  leads := by
    have hform : (Value.ofConstant c).nestedForm = c.spelling.toList := by
      cases c <;> exact Value.nestedForm_of_text rfl rfl
    have hspells : Spells (.identifier c.spelling) c.spelling.toList := by
      cases c <;> exact .identifier rfl (List.all_eq_true.mp rfl) rfl
    rw [hform]
    exact leads_identifier hspells

/-! ### Lists of literals -/

/-- What holds of two sides of each member holds of the lists of both. -/
theorem forall₂_sides {α β γ : Type} {r : α → β → Prop} {f : γ → α} {g : γ → β} (xs : List γ)
    (h : ∀ x, r (f x) (g x)) : List.Forall₂ r (xs.map f) (xs.map g) :=
  List.forall₂_map_left_iff.mpr (List.forall₂_map_right_iff.mpr (List.forall₂_same.mpr
    fun x _ => h x))

theorem yields_items (literals : List Literal) (hne : literals ≠ []) :
    Yields 1 (.items (.level .logical) (literals.map expr))
      ([symbol .comma].intercalate (literals.map tokens)) := by
  induction literals with
  | nil => exact absurd rfl hne
  | cons literal literals ih =>
    cases literals with
    | nil =>
      rw [List.map_singleton, List.map_singleton, List.intercalate_singleton]
      exact .itemsLast literal.yields
    | cons next literals =>
      simp only [List.map_cons, List.intercalate_cons_cons, List.append_assoc] at ih ⊢
      exact .itemsMore literal.yields (ih (List.cons_ne_nil _ _))

theorem yields_list (literals : List Literal) :
    Yields 1 (.list (.level .logical) (literals.map expr))
      ([symbol .comma].intercalate (literals.map tokens)) := by
  by_cases hne : literals = []
  · rw [hne]
    exact .listNone
  · exact .listSome (yields_items literals hne)

theorem named_map (literals : List Literal) : exprsWellNamed (literals.map expr) := by
  induction literals with
  | nil => trivial
  | cons literal literals ih => exact ⟨literal.named, ih⟩

/-- An array of values that can be written down can be. -/
def ofArray (identity : Nat) (literals : List Literal) : Literal where
  value := .array identity (literals.map value)
  expr := .array (literals.map expr) .none
  tokens := symbol .leftBracket :: [symbol .comma].intercalate (literals.map tokens) ++
    [symbol .rightBracket]
  yields := (yields_list literals).array.ofPrimaryAt
  named := named_map literals
  denotes := Expr.denotes_array (forall₂_sides literals denotes) identity
  leads := by
    have hform : (Value.array identity (literals.map value)).nestedForm =
        '[' :: ([',', ' '].intercalate ((literals.map value).map Value.nestedForm) ++ [']']) :=
      Value.toList_display_array identity _
    rw [hform, List.map_map]
    exact (Leads.intercalate (forall₂_sides literals leads)).bracketed

namespace Entry

def pair (entry : Entry) : String × Value := (entry.key, entry.literal.value)

def property (entry : Entry) : Property := .keyed entry.key entry.literal.expr .none

def tokens (entry : Entry) : List Token :=
  identifier entry.key :: symbol .colon :: entry.literal.tokens

theorem yields (entry : Entry) : Yields 1 (.property entry.property) entry.tokens :=
  .nameProperty entry.literal.yields.ofLogical

theorem denotes (entry : Entry) : entry.property.Denotes entry.pair :=
  entry.literal.denotes.keyed entry.key

theorem leads (entry : Entry) : Leads entry.tokens (Value.propertyForm entry.pair) :=
  entry.literal.leads.keyed entry.name.spells

theorem yields_properties (entries : List Entry) :
    Yields 1 (.properties (entries.map property))
      ([symbol .comma].intercalate (entries.map tokens)) := by
  induction entries with
  | nil => exact .propertiesNone
  | cons entry entries ih =>
    cases entries with
    | nil =>
      rw [List.map_singleton, List.map_singleton, List.intercalate_singleton]
      exact .propertiesLast entry.yields
    | cons next entries =>
      simp only [List.map_cons, List.intercalate_cons_cons, List.append_assoc] at ih ⊢
      exact .propertiesMore entry.yields ih

theorem named_map (entries : List Entry) : propertiesWellNamed (entries.map property) := by
  induction entries with
  | nil => trivial
  | cons entry entries ih => exact ⟨entry.literal.named, ih⟩

end Entry

/-- An object of values that can be written down can be, if its keys are names. -/
def ofObject (identity : Nat) (entries : List Entry)
    (distinct : ((entries.map Entry.pair).map Prod.fst).Nodup) : Literal where
  value := .object identity (entries.map Entry.pair)
  expr := .object (entries.map Entry.property) .none
  tokens := symbol .leftBrace :: [symbol .comma].intercalate (entries.map Entry.tokens) ++
    [symbol .rightBrace]
  yields := (Entry.yields_properties entries).object.ofPrimaryAt
  named := Entry.named_map entries
  denotes := Expr.denotes_object (forall₂_sides entries Entry.denotes) distinct identity
  leads := by
    cases entries with
    | nil =>
      have hform : (Value.object identity (List.map Entry.pair [])).nestedForm =
          ['\x7b', '\x7d'] := Value.toList_display_object_nil identity
      rw [hform]
      intro us rest _ hrest
      exact .single rfl (fun _ => rfl) (by decide) (.single rfl (fun _ => rfl) (by decide) hrest)
    | cons entry entries =>
      have hform : (Value.object identity ((entry :: entries).map Entry.pair)).nestedForm =
          '\x7b' :: ' ' :: ([',', ' '].intercalate
            (((entry :: entries).map Entry.pair).map Value.propertyForm) ++ [' ', '\x7d']) :=
        Value.toList_display_object_cons identity _ _
      rw [hform, List.map_map]
      exact (Leads.intercalate (forall₂_sides (entry :: entries) Entry.leads)).braced

end Literal

/-- **All data has a literal.**  By induction on how the data is put together. -/
theorem Value.Data.exists_literal {v : Value} (h : v.Data) :
    ∃ literal : Literal, literal.value = v := by
  induction h with
  | number finite => exact Literal.exists_number finite
  | string plain => exact ⟨.ofString _ plain, rfl⟩
  | boolean b =>
    cases b with
    | true => exact ⟨.ofConstant .true, rfl⟩
    | false => exact ⟨.ofConstant .false, rfl⟩
  | null => exact ⟨.ofConstant .null, rfl⟩
  | undefined => exact ⟨.ofConstant .undefined, rfl⟩
  | @array identity vs _ ih =>
    obtain ⟨literals, rfl⟩ : vs ∈ Set.range (List.map Literal.value) := by
      rw [Set.range_list_map]
      exact ih
    exact ⟨.ofArray identity literals, rfl⟩
  | @object identity ps distinct names _ ih =>
    obtain ⟨entries, rfl⟩ : ps ∈ Set.range (List.map Literal.Entry.pair) := by
      rw [Set.range_list_map]
      intro p hp
      obtain ⟨literal, hvalue⟩ := ih p hp
      exact ⟨⟨p.1, names p hp, literal⟩, congrArg (p.1, ·) hvalue⟩
    exact ⟨.ofObject identity entries distinct, rfl⟩

/-! ## Running the display form -/

namespace Literal

/-- A value whose display form looks the same inside others is read back as an expression for it,
if the form does not look like a statement. -/
theorem exists_program (literal : Literal) (plain : opensStatement literal.tokens = false)
    (hdisplay : literal.value.nestedForm = literal.value.display.toList) (file : String) :
    ∃ program e, Program.ofSource file literal.value.display = .ok program ∧
      program.body = [.expr e] ∧ e.bare = literal.expr.bare := by
  have hrenders := literal.leads [] [] (by simp) .done
  rw [List.append_nil, List.append_nil, hdisplay] at hrenders
  obtain ⟨lexemes, hscan, htokens⟩ := scan_of_renders hrenders
  have hyields := Yields.statementsSome (.expressionStatement plain literal.yields.ofLogical)
    .statementsNone (absurd rfl)
  rw [List.append_nil] at hyields
  have hfilter : ((lexemes.map Lexeme.token).filter fun token => !token.isComment) =
      literal.tokens ++ [endOfFile] := by
    rw [htokens, List.filter_append,
      List.filter_eq_self.mpr (List.all_eq_true.mp literal.yields.plain)]
    rfl
  have hnamed : stmtsWellNamed [.expr literal.expr] := ⟨literal.named, trivial⟩
  obtain ⟨program, hparse, hbare⟩ := Program.exists_parse_of_yields hnamed hyields hfilter
  obtain ⟨e, hbody, he⟩ := eq_expr_of_bareStmts hbare
  exact ⟨program, e, Program.ofSource_eq_ok_iff.mpr ⟨lexemes, hscan, hparse⟩, hbody, he⟩

/-- A program that is one expression makes what the expression does. -/
theorem makes_program {limit : Nat} {e : Expr} {scope : Scope} {kind : Value → Prop}
    (h : Makes limit (Eval.exprBody limit scope e) kind) :
    Makes limit (Eval.body limit (.program [.expr e] scope)) kind := by
  have hexpr : Makes limit (Eval.expr scope e) kind := .call h
  have hstmt : Makes limit (Eval.stmt scope (.expr e)) kind := .call hexpr
  exact hstmt.bind fun _ hw => Eval.makes_pure hw

end Literal

namespace Session

/-- The display form of a literal's value runs to such a value. -/
theorem run_literal (session : Session) (file : String) (literal : Literal)
    (plain : opensStatement literal.tokens = false)
    (hdisplay : literal.value.nestedForm = literal.value.display.toList) :
    ∃ w next needed, w.same literal.value = true ∧ ∀ steps, needed ≤ steps →
      session.run steps file literal.value.display =
        some (.ok w, { session with state := { session.state with nextIdentity := next } }) := by
  obtain ⟨program, e, hprogram, hbody, he⟩ := literal.exists_program plain hdisplay file
  have hmakes := Literal.makes_program (literal.denotes e he session.callLimit session.scope)
  obtain ⟨w, next, k, hw, hends⟩ := hmakes session.state
  refine ⟨w, next, k + 2, hw, fun steps hsteps => ?_⟩
  rw [run_eq_evaluate hprogram]
  refine evaluate_eq_some_iff.mpr ⟨.ok w, _, ?_, rfl⟩
  rw [hbody]
  exact hends.perform hsteps

/-- **The display form of data is a program for it.**  The display form of an array of data, run as
a source in any session, gives an array that is equal by contents.  Given enough steps the run
always ends, and it changes nothing but which identities are given out. -/
theorem run_display {identity : Nat} {vs : List Value} (h : (Value.array identity vs).Data)
    (session : Session) (file : String) :
    ∃ w next needed, w.same (.array identity vs) = true ∧ ∀ steps, needed ≤ steps →
      session.run steps file (Value.array identity vs).display =
        some (.ok w, { session with state := { session.state with nextIdentity := next } }) := by
  obtain ⟨literals, rfl⟩ : vs ∈ Set.range (List.map Literal.value) := by
    rw [Set.range_list_map]
    cases h with
    | array inside => exact fun v hv => (inside v hv).exists_literal
  exact run_literal session file (.ofArray identity literals) rfl rfl

/-- The numbers here are minus one and a half, and the negative zero. -/
theorem run_display_nested :
    let v := Value.array 0 [.number ⟨0xbff8000000000000⟩, .number ⟨0x8000000000000000⟩,
      .string "a\n'b'", .object 1 [("k", .array 2 [.null, .boolean true]), ("_", .object 3 [])]]
    v.Data ∧ ∃ w next needed, w.same v = true ∧ ∀ steps, needed ≤ steps →
      (start 0 .unbounded).run steps "data" v.display = some (.ok w, { start 0 .unbounded with
        state := { (start 0 .unbounded).state with nextIdentity := next } }) := by
  intro v
  have hk : IsName "k" := ⟨⟨'k', [], rfl, rfl, List.forall_mem_nil _⟩, rfl⟩
  have hunderscore : IsName "_" := ⟨⟨'_', [], rfl, rfl, List.forall_mem_nil _⟩, rfl⟩
  have hinner : (Value.array 2 [.null, .boolean true]).Data := .array <|
    List.forall_mem_cons.mpr ⟨.null, List.forall_mem_cons.mpr ⟨.boolean true,
      List.forall_mem_nil _⟩⟩
  have hempty : (Value.object 3 []).Data :=
    .object List.nodup_nil (List.forall_mem_nil _) (List.forall_mem_nil _)
  have hobject : (Value.object 1 [("k", .array 2 [.null, .boolean true]),
      ("_", .object 3 [])]).Data := .object (by decide)
    (List.forall_mem_cons.mpr ⟨hk, List.forall_mem_cons.mpr ⟨hunderscore, List.forall_mem_nil _⟩⟩)
    (List.forall_mem_cons.mpr ⟨hinner, List.forall_mem_cons.mpr ⟨hempty, List.forall_mem_nil _⟩⟩)
  have hv : v.Data := .array <|
    List.forall_mem_cons.mpr ⟨.number rfl, List.forall_mem_cons.mpr ⟨.number rfl,
      List.forall_mem_cons.mpr ⟨.string (by decide),
        List.forall_mem_cons.mpr ⟨hobject, List.forall_mem_nil _⟩⟩⟩⟩
  exact ⟨hv, run_display hv (start 0 .unbounded) "data"⟩

end Session

end Script
