import Script.Proofs.Lockstep.Likeness
import Script.Syntax.Node

/-!
# The same syntax on both sides

Where two evaluations are of the same tree, a piece of syntax is like itself as soon as its parts
may be asked for.  Which parts may be is a condition on nodes that passes to their children.
-/

namespace Script

/-- Both sides may ask for the same pieces of syntax, those that are granted. -/
def Trees.same (grant : Node → Prop) : Trees where
  expr e e' := e = e' ∧ grant (.expr e)
  stmt t t' := t = t' ∧ grant (.ofStmt t)
  loop e b e' b' := e = e' ∧ b = b' ∧ ∃ span, grant (.loop e b span)

/-- The failures of a node itself, as opposed to those of its parts. -/
inductive Node.Raises : Node → RuntimeError → Prop
  | var {x : String} {span : Span} : Raises (.expr (.var x span)) (.unknownVariable x span)
  | shorthand {x : String} {span : Span} :
      Raises (.property (.shorthand x span)) (.unknownVariable x span)
  | assign {x : String} {op : AssignOp} {e : Expr} {span : Span} :
      Raises (.expr (.assign x op e span)) (.assignmentToUndeclared x span)
  | member {e : Expr} {x : String} {span : Span} (typeName : String) :
      Raises (.expr (.member e x span)) (.notIndexable typeName span)
  | index {e k : Expr} {span : Span} (typeName : String) :
      Raises (.expr (.index e k span)) (.notIndexable typeName span)
  | callee {e : Expr} {es : List Expr} {span : Span} (typeName : String) :
      Raises (.expr (.call e es span)) (.notCallable typeName span)
  | native {e : Expr} {es : List Expr} {span : Span} (message : String) :
      Raises (.expr (.call e es span)) (.nativeFailure message span)
  | overflow {e : Expr} {es : List Expr} {span : Span} (limit : Nat) :
      Raises (.expr (.call e es span)) (.stackOverflow limit span)
  | declarator {d : Declarator} : Raises (.declarator d) (.redeclaration d.name d.span)
  | function {x : String} {f : Function} : Raises (.function x f) (.redeclaration x f.span)

/-- A failure points at the node that it is of. -/
theorem Node.Raises.span_eq {m : Node} {e : RuntimeError} (h : m.Raises e) : e.span = m.span := by
  cases h <;> rfl

/-- The names that a node itself looks up or assigns. -/
inductive Node.Uses : Node → String → Prop
  | var {x : String} {span : Span} : Uses (.expr (.var x span)) x
  | assign {x : String} {op : AssignOp} {e : Expr} {span : Span} :
      Uses (.expr (.assign x op e span)) x
  | shorthand {x : String} {span : Span} : Uses (.property (.shorthand x span)) x

/-- The name that a node itself declares where it stands. -/
inductive Node.Declares : Node → String → Prop
  | declarator {d : Declarator} : Declares (.declarator d) d.name
  | function {x : String} {f : Function} : Declares (.function x f) x

/-- The function that a node makes. -/
inductive Node.Makes : Node → Function → Prop
  | expr {name : Option String} {f : Function} : Makes (.expr (.function name f)) f
  | stmt {x : String} {f : Function} : Makes (.function x f) f

theorem Node.Makes.mem_children {m : Node} {f : Function} {t : Stmt} (h : m.Makes f)
    (ht : t ∈ f.body) : .ofStmt t ∈ m.children := by
  cases h with
  | expr => exact List.mem_map_of_mem ht
  | stmt => exact List.mem_map_of_mem ht

/-- What a node does itself, as opposed to its parts, is like itself. -/
structure Likeness.Suits (L : Likeness) (m : Node) : Prop where
  uses {x : String} : m.Uses x → L.name x
  declares {x : String} : m.Declares x → L.binder x
  makes {f : Function} : m.Makes f → L.function f f
  raises {e : RuntimeError} : m.Raises e → L.error e e

/-- Syntax that is granted is like itself. -/
structure Likeness.Admits (L : Likeness) (grant : Node → Prop) : Prop where
  children {m k : Node} : grant m → k ∈ m.children → grant k
  suits {m : Node} : grant m → L.Suits m

namespace Likeness.Admits

variable {L : Likeness} {grant : Node → Prop} (hA : L.Admits grant)

omit hA in
theorem sequence_same {b : List Stmt} (h : ∀ k ∈ b.map Node.ofStmt, grant k) :
    List.Forall₂ (Trees.same grant).stmt b b :=
  List.forall₂_same.mpr fun _ ht => ⟨rfl, h _ (List.mem_map_of_mem ht)⟩

omit hA in
theorem values_same {es : List Expr} (h : ∀ k ∈ es.map Node.expr, grant k) :
    List.Forall₂ (Trees.same grant).expr es es :=
  List.forall₂_same.mpr fun _ he => ⟨rfl, h _ (List.mem_map_of_mem he)⟩

include hA

theorem property_same {p : Property} (h : grant (.property p)) :
    Property.Like L (Trees.same grant) p p := by
  cases p with
  | keyed key value span => exact .keyed ⟨rfl, hA.children h List.mem_cons_self⟩
  | shorthand x span =>
    exact .shorthand ((hA.suits h).uses .shorthand) ((hA.suits h).raises .shorthand)

theorem declarator_same {d : Declarator} (h : grant (.declarator d)) :
    Declarator.Like L (Trees.same grant) d d where
  name_eq := rfl
  binder := (hA.suits h).declares .declarator
  value := ⟨rfl, hA.children h List.mem_cons_self⟩
  taken := (hA.suits h).raises .declarator

theorem block_same {b : Block} (h : grant (.block b)) : Block.Like (Trees.same grant) b b :=
  sequence_same fun _ hk => hA.children h hk

/-- An expression is like itself if its parts are granted and what it does itself is like
itself. -/
theorem expr_same {e : Expr} (h : ∀ k ∈ (Node.expr e).children, grant k)
    (own : L.Suits (.expr e)) :
    Expr.Like L (Trees.same grant) e e := by
  cases e with
  | number n span => exact .number n
  | string s span => exact .string s
  | constant c span => exact .constant c
  | var x span => exact .var (own.uses .var) (own.raises .var)
  | array elements span => exact .array (values_same h)
  | object properties span =>
    refine .object (List.forall₂_same.mpr fun p hp => hA.property_same (h _ ?_))
    exact List.mem_map_of_mem hp
  | function name f => exact .function name (own.makes .expr)
  | assign x op value span =>
    exact .assign op (own.uses .assign) (own.raises .assign) ⟨rfl, h _ List.mem_cons_self⟩
  | member object x span =>
    exact .member x ⟨rfl, h _ List.mem_cons_self⟩ fun t => own.raises (.member t)
  | index object key span =>
    refine .index ⟨rfl, h _ List.mem_cons_self⟩ ⟨rfl, h _ ?_⟩ fun t => own.raises (.index t)
    exact List.mem_cons_of_mem _ List.mem_cons_self
  | call callee arguments span =>
    have hparts : ∀ k ∈ Node.expr callee :: arguments.map Node.expr, grant k := h
    have hsite : L.Site span span :=
      ⟨fun t => own.raises (.callee t), fun m => own.raises (.native m),
        fun h => h ▸ own.raises (.overflow _)⟩
    refine .call ⟨rfl, hparts _ List.mem_cons_self⟩ (values_same fun k hk => ?_) hsite
    exact hparts k (List.mem_cons_of_mem _ hk)
  | logical op left right span =>
    refine .logical op ⟨rfl, h _ List.mem_cons_self⟩ ⟨rfl, h _ ?_⟩
    exact List.mem_cons_of_mem _ List.mem_cons_self
  | binary op left right span =>
    refine .binary op ⟨rfl, h _ List.mem_cons_self⟩ ⟨rfl, h _ ?_⟩
    exact List.mem_cons_of_mem _ List.mem_cons_self
  | unary op operand span => exact .unary op ⟨rfl, h _ List.mem_cons_self⟩

theorem conditional_same {c : Conditional} (h : ∀ k ∈ (Node.conditional c).children, grant k) :
    Conditional.Like (Trees.same grant) c c where
  condition := ⟨rfl, h _ List.mem_cons_self⟩
  consequent := hA.block_same (h _ (List.mem_cons_of_mem _ List.mem_cons_self))
  alternate := by
    have halternate : ∀ k ∈ Node.ofAlternate c.alternate, grant k := by
      intro k hk
      exact h k (List.mem_cons_of_mem _ (List.mem_cons_of_mem _ hk))
    cases hc : c.alternate with
    | absent => exact .absent
    | block b => exact .block (hA.block_same (halternate _ (hc ▸ List.mem_cons_self)))
    | conditional c' => exact .conditional ⟨rfl, halternate _ (hc ▸ List.mem_cons_self)⟩

/-- A statement is like itself if its parts are granted and what it does itself is like itself.  An
expression or a loop has to be granted itself: the one is asked for as an expression, the other one
again and again. -/
theorem stmt_same {t : Stmt} (h : ∀ k ∈ (Node.ofStmt t).children, grant k)
    (own : L.Suits (.ofStmt t))
    (self : (∃ e, t = .expr e) ∨ (∃ e b span, t = .loop e b span) → grant (.ofStmt t)) :
    Stmt.Like L (Trees.same grant) t t := by
  cases t with
  | expr e => exact .expr ⟨rfl, self (.inl ⟨e, rfl⟩)⟩
  | declaration kind declarators span =>
    refine .declaration (List.forall₂_same.mpr fun d hd => hA.declarator_same (h _ ?_))
    exact List.mem_map_of_mem hd
  | function x f =>
    exact .function (own.declares .function) (own.makes .stmt) (own.raises .function)
  | conditional c => exact .conditional (hA.conditional_same h)
  | loop condition body span =>
    have hbody := h (.block body) (List.mem_cons_of_mem _ List.mem_cons_self)
    have hself := self (.inr ⟨condition, body, span, rfl⟩)
    exact .loop ⟨rfl, h _ List.mem_cons_self⟩ (hA.block_same hbody) ⟨rfl, rfl, span, hself⟩
  | block b => exact .block (sequence_same h)

/-- What is granted is made of what is granted, if that is so of the functions that are alike. -/
theorem closed (hbody : ∀ f f', L.function f f' → f = f' ∧ ∀ t ∈ f.body, grant (.ofStmt t)) :
    L.Closed (Trees.same grant) := by
  rintro w _ _ (⟨function, place⟩ | ⟨⟨rfl, here⟩, scope⟩ | ⟨⟨rfl, here⟩, scope, place⟩ |
    ⟨⟨rfl, rfl, span, here⟩, scope, last⟩)
  · obtain ⟨rfl, hgrant⟩ := hbody _ _ function
    exact .invocation (List.forall₂_same.mpr fun t ht => ⟨rfl, hgrant t ht⟩) place
  · exact .expr (hA.expr_same (fun _ hk => hA.children here hk) (hA.suits here)) scope
  · refine .of_stmt (hA.stmt_same (fun _ hk => hA.children here hk) (hA.suits here) ?_) scope place
    exact fun _ => here
  · have hcondition := hA.children here List.mem_cons_self
    have hblock := hA.children here (List.mem_cons_of_mem _ List.mem_cons_self)
    exact .loop ⟨rfl, hcondition⟩ (hA.block_same hblock) ⟨rfl, rfl, span, here⟩ scope last

end Likeness.Admits

/-- Syntax that is granted is like itself, and so are all names and all failures. -/
structure Likeness.Reflexive (L : Likeness) (grant : Node → Prop) : Prop where
  children {m k : Node} : grant m → k ∈ m.children → grant k
  function {f : Function} : (∀ t ∈ f.body, grant (.ofStmt t)) → L.function f f
  name (x : String) : L.name x
  binder (x : String) : L.binder x
  place {w : L.World} {s s' : Scope} : L.scope w s s' → L.place w s s'
  error (e : RuntimeError) : L.error e e

namespace Likeness.Reflexive

variable {L : Likeness} {grant : Node → Prop} (hR : L.Reflexive grant)
include hR

theorem suits {m : Node} (h : ∀ k ∈ m.children, grant k) : L.Suits m where
  uses _ := hR.name _
  declares _ := hR.binder _
  makes hf := hR.function fun _ ht => h _ (hf.mem_children ht)
  raises _ := hR.error _

theorem admits : L.Admits grant := ⟨hR.children, fun hm => hR.suits fun _ hk => hR.children hm hk⟩

theorem expr_same {e : Expr} (h : ∀ k ∈ (Node.expr e).children, grant k) :
    Expr.Like L (Trees.same grant) e e :=
  hR.admits.expr_same h (hR.suits h)

theorem stmt_same {t : Stmt} (h : ∀ k ∈ (Node.ofStmt t).children, grant k)
    (self : (∃ e, t = .expr e) ∨ (∃ e b span, t = .loop e b span) → grant (.ofStmt t)) :
    Stmt.Like L (Trees.same grant) t t :=
  hR.admits.stmt_same h (hR.suits h) self

theorem closed (hbody : ∀ f f', L.function f f' → f = f' ∧ ∀ t ∈ f.body, grant (.ofStmt t)) :
    L.Closed (Trees.same grant) :=
  hR.admits.closed hbody

end Likeness.Reflexive

/-- The same piece of work, in scopes that are alike. -/
inductive Task.Match (scope : Scope → Scope → Prop) (value : Value → Value → Prop) :
    Task → Task → Prop
  | program (b : List Stmt) {s s' : Scope} (here : scope s s') :
      Match scope value (.program b s) (.program b s')
  | invocation (b : List Stmt) {s s' : Scope} (here : scope s s') :
      Match scope value (.invocation b s) (.invocation b s')
  | expr (e : Expr) {s s' : Scope} (here : scope s s') :
      Match scope value (.expr e s) (.expr e s')
  | stmt (t : Stmt) {s s' : Scope} (here : scope s s') :
      Match scope value (.stmt t s) (.stmt t s')
  | loop (e : Expr) (b : Block) {s s' : Scope} {v v' : Value} (here : scope s s')
      (last : value v v') : Match scope value (.loop e b s v) (.loop e b s' v')

theorem Task.Match.imp {scope scope' : Scope → Scope → Prop} {value : Value → Value → Prop}
    {t t' : Task} (h : t.Match scope value t') (himp : ∀ s s', scope s s' → scope' s s') :
    t.Match scope' value t' := by
  cases h with
  | program b here => exact .program b (himp _ _ here)
  | invocation b here => exact .invocation b (himp _ _ here)
  | expr e here => exact .expr e (himp _ _ here)
  | stmt t here => exact .stmt t (himp _ _ here)
  | loop e b here last => exact .loop e b (himp _ _ here) last

/-- Where all syntax is granted, every task is made of what is granted. -/
theorem Likeness.Admits.layer {L : Likeness} {w : L.World} {t t' : Task}
    (hA : L.Admits fun _ => True)
    (h : t.Match (fun s s' => L.scope w s s' ∧ L.place w s s') (L.value w) t') :
    L.Layer (Trees.same fun _ => True) w t t' := by
  cases h with
  | program b here => exact .program (sequence_same fun _ _ => trivial) here.2
  | invocation b here => exact .invocation (sequence_same fun _ _ => trivial) here.2
  | expr e here => exact .expr (hA.expr_same (fun _ _ => trivial) (hA.suits trivial)) here.1
  | stmt t here =>
    exact .stmt (hA.stmt_same (fun _ _ => trivial) (hA.suits trivial) fun _ => trivial) here.2
  | loop e b here last =>
    exact .loop ⟨rfl, trivial⟩ (hA.block_same trivial) ⟨rfl, rfl, e.span, trivial⟩ here.1 last

theorem Likeness.Reflexive.layer {L : Likeness} {w : L.World} {t t' : Task}
    (hR : L.Reflexive fun _ => True) (h : t.Match (L.scope w) (L.value w) t') :
    L.Layer (Trees.same fun _ => True) w t t' :=
  hR.admits.layer (h.imp fun _ _ hscope => ⟨hscope, hR.place hscope⟩)

end Script
