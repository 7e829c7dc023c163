import Script.Proofs.Lexer.Partition
import Script.Proofs.Literals
import Script.Proofs.Lockstep.Same
import Script.Proofs.Nodes
import Script.Proofs.Parser.Soundness
import Script.Proofs.Sources

/-!
# The names that a program binds

A tree binds names in three places: a declaration and the declaration of a function name a variable,
and a function names its parameters.  The parser takes each of these names from an identifier that
is none of the constants (`Reads.binders`), and the scanner makes an identifier only of a word that
is not reserved.  So every name that a source binds is one that a variable may have
(`Program.binders_of_ofSource`).
-/

namespace Script

/-- A variable may have this name: it looks like a name, and it is neither reserved nor one of the
constants. -/
structure VariableName (x : String) : Prop extends IsName x where
  notConstant : Free x

namespace VariableName

variable {x : String}

theorem ne_keyword (h : VariableName x) (word : Keyword) : x ≠ word.spelling := by
  rintro rfl
  have hfree := h.free
  rw [Keyword.ofSpelling?_spelling] at hfree
  cases hfree

theorem ne_constant (h : VariableName x) (c : Constant) : x ≠ c.spelling := by
  rintro rfl
  have hfree : Constant.ofSpelling? c.spelling = none := h.notConstant
  cases c <;> cases hfree

end VariableName

/-- An identifier of a source looks like a name, and it is not reserved. -/
theorem Lexeme.Spells.isName {x : String} {text : List Char}
    (h : Lexeme.Spells (.identifier x) text) : IsName x := by
  cases h with
  | @identifier c cs start parts free =>
    exact ⟨⟨c, cs, String.toList_ofList, start, parts⟩, free⟩

namespace Node

/-- The names that a node binds itself: the one that it declares, and the parameters of the function
that it makes. -/
def Binds (m : Node) (x : String) : Prop := m.Declares x ∨ ∃ f, m.Makes f ∧ x ∈ f.parameters

/-- All names that are bound in the tree satisfy a condition. -/
def BindsOnly (name : String → Prop) (root : Node) : Prop :=
  root.Everywhere fun m => ∀ x, m.Binds x → name x

variable {name : String → Prop} {m : Node}

/-- Most nodes bind nothing themselves. -/
theorem bindsOnly_of_children (hdeclares : ∀ x, ¬ m.Declares x) (hmakes : ∀ f, ¬ m.Makes f)
    (h : ∀ k ∈ m.children, k.BindsOnly name) : m.BindsOnly name := by
  refine Everywhere.of_children ?_ h
  rintro x (hx | ⟨f, hf, -⟩)
  · exact absurd hx (hdeclares x)
  · exact absurd hf (hmakes f)

/-- A node that makes a function binds its parameters. -/
theorem bindsOnly_of_makes {f : Function} (hmakes : m.Makes f)
    (hdeclares : ∀ x, m.Declares x → name x) (hparameters : ∀ x ∈ f.parameters, name x)
    (h : ∀ t ∈ f.body, (ofStmt t).BindsOnly name) : m.BindsOnly name := by
  refine Everywhere.of_children ?_ fun k hk => ?_
  · rintro x (hx | ⟨g, hg, hx⟩)
    · exact hdeclares x hx
    · cases hmakes <;> cases hg <;> exact hparameters x hx
  · have hk : k ∈ f.body.map ofStmt := by cases hmakes <;> exact hk
    obtain ⟨t, ht, rfl⟩ := List.mem_map.mp hk
    exact h t ht

theorem bindsOnly_declarator {d : Declarator} (hname : name d.name)
    (h : (expr d.value).BindsOnly name) : (declarator d).BindsOnly name := by
  refine Everywhere.of_children ?_ fun k hk => List.mem_singleton.mp hk ▸ h
  rintro x (hx | ⟨f, hf, -⟩)
  · cases hx
    exact hname
  · cases hf

end Node

/-! ## Readings -/

/-- All identifiers that a variable may be named by satisfy a condition. -/
def Lexeme.Supply (name : String → Prop) (ls : List Lexeme) : Prop :=
  ∀ x, .identifier x ∈ ls.map Lexeme.token → Free x → name x

/-- What is read for the phrase binds only names that satisfy the condition. -/
def Phrase.BindsOnly (name : String → Prop) : Phrase → Prop
  | program body | braced body _ => ∀ t ∈ body, (Node.ofStmt t).BindsOnly name
  | block b => (Node.block b).BindsOnly name
  | statement s => (Node.ofStmt s).BindsOnly name
  | conditional c => (Node.conditional c).BindsOnly name
  | declarators ds => ∀ d ∈ ds, (Node.declarator d).BindsOnly name
  | declarator d => (Node.declarator d).BindsOnly name
  | function _ f =>
    (∀ x ∈ f.parameters, name x) ∧ ∀ t ∈ f.body, (Node.ofStmt t).BindsOnly name
  | parameterList names | parameters names => ∀ p ∈ names, name p.1
  | expression e | level _ e | unary e | primary e => (Node.expr e).BindsOnly name
  | chain _ left e | access left e =>
    (Node.expr left).BindsOnly name → (Node.expr e).BindsOnly name
  | list _ _ es _ | items _ _ es _ => ∀ e ∈ es, (Node.expr e).BindsOnly name
  | properties ps _ => ∀ p ∈ ps, (Node.property p).BindsOnly name
  | property p => (Node.property p).BindsOnly name

section Readings

variable {name : String → Prop}

namespace Lexeme.Supply

variable {ls rest : List Lexeme} {l : Lexeme} {x : String} {sp : Span}

theorem tail (h : Supply name (l :: ls)) : Supply name ls :=
  fun x hx => h x (List.mem_cons_of_mem _ hx)

theorem head (h : Supply name (⟨.identifier x, sp⟩ :: ls)) (free : Free x) : name x :=
  h x List.mem_cons_self free

/-- What a reading leaves has no more identifiers than what it began with. -/
theorem behind {phrase : Phrase} (h : Supply name ls) (hreads : Reads phrase ls rest) :
    Supply name rest := by
  obtain ⟨ts, hts, -⟩ := hreads.means
  intro x hx
  refine h x ?_
  rw [hts]
  exact List.mem_append_right _ hx

end Lexeme.Supply

namespace Phrase

theorem bindsOnly_operand {l : Level} {e : Expr} :
    (operand l e).BindsOnly name ↔ (Node.expr e).BindsOnly name := by
  cases l <;> exact Iff.rfl

theorem bindsOnly_item {kind : Item} {e : Expr} :
    (item kind e).BindsOnly name ↔ (Node.expr e).BindsOnly name := by
  cases kind <;> exact Iff.rfl

end Phrase

/-- An expression that makes no function binds what its parts do. -/
theorem Node.bindsOnly_expr {e : Expr} (hmakes : ∀ f, ¬ (Node.expr e).Makes f)
    (h : ∀ k ∈ (Node.expr e).children, k.BindsOnly name) : (Node.expr e).BindsOnly name :=
  bindsOnly_of_children nofun hmakes h

open Node in
/-- **What is read binds names that were read.** -/
theorem Reads.binders {phrase : Phrase} {ls rest : List Lexeme} (h : Reads phrase ls rest)
    (hls : Lexeme.Supply name ls) : phrase.BindsOnly name := by
  induction h with
  | programSemicolon _ ih => exact ih hls.tail
  | programDry => exact nofun
  | programEnd => exact nofun
  | programStatement _ _ first _ ih₁ ih₂ =>
    exact List.forall_mem_cons.mpr ⟨ih₁ hls, ih₂ (hls.behind first)⟩
  | bracedSemicolon _ ih => exact ih hls.tail
  | bracedClose => exact nofun
  | bracedStatement _ _ _ first _ ih₁ ih₂ =>
    exact List.forall_mem_cons.mpr ⟨ih₁ hls, ih₂ (hls.behind first)⟩
  | block _ ih => exact bindsOnly_of_children nofun nofun (List.forall_mem_map.mpr (ih hls.tail))
  | declaration _ ih =>
    exact bindsOnly_of_children nofun nofun (List.forall_mem_map.mpr (ih hls.tail))
  | functionDeclaration free _ ih =>
    obtain ⟨hparameters, hbody⟩ := ih hls.tail.tail
    refine bindsOnly_of_makes .stmt (fun x hx => ?_) hparameters hbody
    cases hx
    exact hls.tail.head free
  | conditionalStatement _ ih => exact ih hls
  | loop condition _ ih₁ ih₂ =>
    have hmid := (hls.tail.tail.behind condition).tail
    exact bindsOnly_of_children nofun nofun
      (List.forall_mem_cons.mpr ⟨ih₁ hls.tail.tail, List.forall_mem_singleton.mpr (ih₂ hmid)⟩)
  | blockStatement _ ih => exact ih hls
  | expressionStatement _ _ ih => exact ih hls
  | conditional condition _ _ ih₁ ih₂ =>
    have hmid := (hls.tail.tail.behind condition).tail
    exact bindsOnly_of_children nofun nofun
      (List.forall_mem_cons.mpr ⟨ih₁ hls.tail.tail, List.forall_mem_singleton.mpr (ih₂ hmid)⟩)
  | conditionalElse condition consequent _ _ ih₁ ih₂ ih₃ =>
    have hmid := (hls.tail.tail.behind condition).tail
    have halternate := ih₃ (hmid.behind consequent).tail
    refine bindsOnly_of_children nofun nofun (List.forall_mem_cons.mpr ⟨ih₁ hls.tail.tail, ?_⟩)
    exact List.forall_mem_cons.mpr ⟨ih₂ hmid, List.forall_mem_singleton.mpr halternate⟩
  | conditionalElseIf condition consequent _ ih₁ ih₂ ih₃ =>
    have hmid := (hls.tail.tail.behind condition).tail
    have hnested := ih₃ (hmid.behind consequent).tail
    refine bindsOnly_of_children nofun nofun (List.forall_mem_cons.mpr ⟨ih₁ hls.tail.tail, ?_⟩)
    exact List.forall_mem_cons.mpr ⟨ih₂ hmid, List.forall_mem_singleton.mpr hnested⟩
  | declaratorsLast _ _ ih => exact List.forall_mem_singleton.mpr (ih hls)
  | declaratorsMore first _ ih₁ ih₂ =>
    exact List.forall_mem_cons.mpr ⟨ih₁ hls, ih₂ (hls.behind first).tail⟩
  | declaratorValue free _ ih => exact bindsOnly_declarator (hls.head free) (ih hls.tail.tail)
  | declaratorPlain free _ =>
    exact bindsOnly_declarator (hls.head free) (bindsOnly_expr nofun nofun)
  | function parameters _ _ ih₁ ih₂ =>
    have hmid := hls.tail.behind parameters
    refine ⟨List.forall_mem_map.mpr (ih₁ hls.tail), fun t ht => ?_⟩
    exact (ih₂ hmid).child (List.mem_map_of_mem ht)
  | parameterListNone => exact nofun
  | parameterListSome _ ih => exact ih hls
  | parametersLast free => exact List.forall_mem_singleton.mpr (hls.head free)
  | parametersMore free _ ih =>
    exact List.forall_mem_cons.mpr ⟨hls.head free, ih hls.tail.tail⟩
  | assignment _ ih =>
    exact bindsOnly_expr nofun (List.forall_mem_singleton.mpr (ih hls.tail.tail))
  | value _ _ ih => exact ih hls
  | level first _ ih₁ ih₂ =>
    exact ih₂ (hls.behind first) (Phrase.bindsOnly_operand.mp (ih₁ hls))
  | chainEnd _ => exact id
  | @chainOperator l left right e ls mid rest sp op _ operand _ ih₁ ih₂ =>
    intro hleft
    refine ih₂ (hls.tail.behind operand) ?_
    have hright := Phrase.bindsOnly_operand.mp (ih₁ hls.tail)
    have hparts := List.forall_mem_cons.mpr ⟨hleft, List.forall_mem_singleton.mpr hright⟩
    cases op with
    | logical op => exact bindsOnly_expr nofun hparts
    | binary op => exact bindsOnly_expr nofun hparts
  | sign _ ih => exact bindsOnly_expr nofun (List.forall_mem_singleton.mpr (ih hls.tail))
  | accessed first _ ih₁ ih₂ => exact ih₂ (hls.behind first) (ih₁ hls)
  | number | string | constant | var => exact bindsOnly_expr nofun nofun
  | parenthesized _ ih => exact ih hls.tail
  | array _ ih => exact bindsOnly_expr nofun (List.forall_mem_map.mpr (ih hls.tail))
  | object _ ih => exact bindsOnly_expr nofun (List.forall_mem_map.mpr (ih hls.tail))
  | namedFunction _ _ ih =>
    obtain ⟨hparameters, hbody⟩ := ih hls.tail.tail
    exact bindsOnly_of_makes .expr nofun hparameters hbody
  | namelessFunction _ ih =>
    obtain ⟨hparameters, hbody⟩ := ih hls.tail
    exact bindsOnly_of_makes .expr nofun hparameters hbody
  | accessEnd _ => exact id
  | member _ ih =>
    intro hobject
    exact ih hls.tail.tail (bindsOnly_expr nofun (List.forall_mem_singleton.mpr hobject))
  | index inner _ ih₁ ih₂ =>
    intro hobject
    have hkey := ih₁ hls.tail
    refine ih₂ (hls.tail.behind inner).tail (bindsOnly_expr nofun ?_)
    exact List.forall_mem_cons.mpr ⟨hobject, List.forall_mem_singleton.mpr hkey⟩
  | call arguments _ ih₁ ih₂ =>
    intro hcallee
    refine ih₂ (hls.tail.behind arguments) (bindsOnly_expr nofun ?_)
    exact List.forall_mem_cons.mpr ⟨hcallee, List.forall_mem_map.mpr (ih₁ hls.tail)⟩
  | listNone => exact nofun
  | listSome _ _ ih => exact ih hls
  | itemsLast _ _ ih => exact List.forall_mem_singleton.mpr (Phrase.bindsOnly_item.mp (ih hls))
  | itemsMore first _ ih₁ ih₂ =>
    have hitem := Phrase.bindsOnly_item.mp (ih₁ hls)
    exact List.forall_mem_cons.mpr ⟨hitem, ih₂ (hls.behind first).tail⟩
  | propertiesNone => exact nofun
  | propertiesLast _ ih => exact List.forall_mem_singleton.mpr (ih hls)
  | propertiesMore first _ ih₁ ih₂ =>
    exact List.forall_mem_cons.mpr ⟨ih₁ hls, ih₂ (hls.behind first).tail⟩
  | nameProperty _ ih | stringProperty _ ih =>
    exact bindsOnly_of_children nofun nofun (List.forall_mem_singleton.mpr (ih hls.tail.tail))
  | shorthand _ => exact bindsOnly_of_children nofun nofun nofun

end Readings

/-! ## Sources -/

/-- **Every name that a source binds is one that a variable may have.** -/
theorem Program.binders_of_ofSource {file source : String} {program : Program}
    (h : ofSource file source = .ok program) : ∀ m ∈ program.nodes, m.BindsOnly VariableName := by
  obtain ⟨lexemes, hscan, hparse⟩ := ofSource_eq_ok_iff.mp h
  obtain ⟨hrun, -, -⟩ := parse_eq_ok_iff.mp hparse
  obtain ⟨rest, hreads⟩ := Parse.reads_of_run hrun
  refine List.forall_mem_map.mpr (hreads.binders fun x hx free => ?_)
  obtain ⟨lexeme, hmem, htoken⟩ := List.mem_map.mp hx
  obtain ⟨tokens, rfl, hcut⟩ := (Lexeme.scans_of_scan hscan).cut_start
  rcases List.mem_append.mp (List.mem_filter.mp hmem).1 with hmem | hmem
  · have hspelled := (hcut.sits lexeme hmem).spelled
    rw [htoken] at hspelled
    exact ⟨hspelled.isName, free⟩
  · rw [List.mem_singleton.mp hmem] at htoken
    cases htoken

end Script
