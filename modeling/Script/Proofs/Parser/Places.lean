import Script.Proofs.Lexer.Partition
import Script.Proofs.Nodes
import Script.Proofs.Parser.Descent
import Script.Proofs.Sources

/-!
# Where the parts of a tree stand

The span of a node runs from the start of its first lexeme to the end of its last one, parentheses
around it apart.  So the spans of a tree nest, and the children of a node stand one behind the
other.

The argument follows a reading from left to right.  The lexemes of a source are `Placed`: each
begins where the one before it ends, or later.  What is read from placed lexemes lies between the
offset where the reading begins and the one where it ends (`Reads.lies`), so two readings one
behind the other lie one behind the other.
-/

namespace Script

namespace Position

variable {source : List Char}

theorem compare_ofOffset (k l : Nat) :
    compare (ofOffset source k) (ofOffset source l) = Ord.compare k l := by
  rcases Nat.lt_trichotomy k l with hlt | rfl | hgt
  · simp [compare, ofOffset, Nat.compare_eq_lt.mpr hlt]
  · simp [compare]
  · simp [compare, ofOffset, Nat.compare_eq_gt.mpr hgt]

theorem min_ofOffset {k l : Nat} (h : k ≤ l) :
    (ofOffset source k).min (ofOffset source l) = ofOffset source k := by
  rw [min, compare_ofOffset, if_neg]
  rw [Nat.compare_eq_gt]
  omega

theorem max_ofOffset {k l : Nat} (h : k ≤ l) :
    (ofOffset source k).max (ofOffset source l) = ofOffset source l := by
  rw [max, compare_ofOffset]
  split
  · next hgt =>
    rw [Nat.compare_eq_gt] at hgt
    omega
  · rfl

end Position

/-! ## Spans in a source -/

namespace Span

/-- The span from one character offset of the source to another one. -/
def between (source : List Char) (l r : Nat) : Span := ⟨.ofOffset source l, .ofOffset source r⟩

/-- The characters of the source that the span covers. -/
def slice (source : List Char) (span : Span) : List Char :=
  (source.drop span.left.index).take (span.right.index - span.left.index)

/-- The span is a part of the other one. -/
def Inside (span outer : Span) : Prop :=
  outer.left.index ≤ span.left.index ∧ span.right.index ≤ outer.right.index

/-- The span ends where the other one starts, or earlier. -/
def Before (span later : Span) : Prop := span.right.index ≤ later.left.index

/-- The span covers characters of the source, from an offset on and up to another one. -/
structure Lies (source : List Char) (a b : Nat) (span : Span) : Prop where
  place : span = between source span.left.index span.right.index
  front : a ≤ span.left.index
  nonempty : span.left.index < span.right.index
  back : span.right.index ≤ b
  inside : span.right.index ≤ source.length

variable {source : List Char} {a b c d : Nat} {span span' : Span}

theorem Lies.mono (h : span.Lies source a b) (ha : c ≤ a) (hb : b ≤ d) : span.Lies source c d :=
  { h with front := Nat.le_trans ha h.front, back := Nat.le_trans h.back hb }

/-- The offsets of the span itself. -/
theorem Lies.tight (h : span.Lies source a b) :
    span.Lies source span.left.index span.right.index :=
  { h with front := Nat.le_refl _, back := Nat.le_refl _ }

theorem Lies.left_le (h : span.Lies source a b) : span.left.index ≤ b :=
  Nat.le_trans (Nat.le_of_lt h.nonempty) h.back

theorem Lies.le_right (h : span.Lies source a b) : a ≤ span.right.index :=
  Nat.le_trans h.front (Nat.le_of_lt h.nonempty)

theorem Lies.le (h : span.Lies source a b) : a ≤ b := Nat.le_trans h.front h.left_le

/-- The join of a span with a later one. -/
theorem Lies.join_eq (h : span.Lies source a b) (h' : span'.Lies source c d) (hle : b ≤ c) :
    span.join span' = between source span.left.index span'.right.index := by
  have hleft : span.left.index ≤ span'.left.index :=
    Nat.le_trans h.left_le (Nat.le_trans hle h'.front)
  have hright : span.right.index ≤ span'.right.index :=
    Nat.le_trans h.back (Nat.le_trans hle h'.le_right)
  rw [h.place, h'.place]
  exact congrArg₂ Span.mk (Position.min_ofOffset hleft) (Position.max_ofOffset hright)

theorem Lies.join_left_index (h : span.Lies source a b) (h' : span'.Lies source c d)
    (hle : b ≤ c) : (span.join span').left.index = span.left.index := by
  rw [h.join_eq h' hle]
  rfl

theorem Lies.join_right_index (h : span.Lies source a b) (h' : span'.Lies source c d)
    (hle : b ≤ c) : (span.join span').right.index = span'.right.index := by
  rw [h.join_eq h' hle]
  rfl

theorem Lies.join (h : span.Lies source a b) (h' : span'.Lies source c d) (hle : b ≤ c) :
    (span.join span').Lies source a d := by
  rw [h.join_eq h' hle]
  have hlt : span.left.index < span'.right.index :=
    Nat.lt_of_lt_of_le h.nonempty (Nat.le_trans h.back (Nat.le_trans hle h'.le_right))
  exact ⟨rfl, h.front, hlt, h'.back, h'.inside⟩

/-- The join begins with the characters of the first span. -/
theorem Lies.slice_isPrefix (h : span.Lies source a b) (h' : span'.Lies source c d)
    (hle : b ≤ c) : span.slice source <+: (span.join span').slice source := by
  rw [slice, slice, h.join_left_index h' hle, h.join_right_index h' hle]
  refine List.take_prefix_take_left (Nat.sub_le_sub_right ?_ _)
  exact Nat.le_trans h.back (Nat.le_trans hle h'.le_right)

theorem Lies.join_self (h : span.Lies source a b) : span.join span = span := by
  rw [h.place]
  exact congrArg₂ Span.mk (Position.min_ofOffset (Nat.le_refl _))
    (Position.max_ofOffset (Nat.le_refl _))

end Span

/-! ## Nodes in a source -/

namespace Node

/-- Where a node is named by what stands in the source, the source has that name there. -/
def Spelled (source : List Char) : Node → Prop
  | expr (.var name span) => span.slice source = name.toList
  | property (.shorthand name span) => span.slice source = name.toList
  | expr (.assign name _ _ span) => name.toList <+: span.slice source
  | _ => True

/-- The node has its place in the source, and its children have theirs inside of it, one behind the
other. -/
structure Stands (source : List Char) (m : Node) : Prop where
  place : m.span.Lies source m.span.left.index m.span.right.index
  inside : ∀ k ∈ m.children, k.span.Inside m.span
  ordered : m.children.Pairwise fun k k' => k.span.Before k'.span
  spelled : m.Spelled source

/-- The whole tree stands in the source, from an offset on and up to another one. -/
structure Lies (source : List Char) (a b : Nat) (m : Node) : Prop where
  stands : m.Everywhere (Stands source)
  front : a ≤ m.span.left.index
  back : m.span.right.index ≤ b

/-- The trees stand in the source one behind the other, between two offsets. -/
structure Row (source : List Char) (a b : Nat) (ms : List Node) : Prop where
  lies : ∀ m ∈ ms, m.Lies source a b
  ordered : ms.Pairwise fun k k' => k.span.Before k'.span

variable {source : List Char} {a b c d : Nat} {m k : Node} {ms : List Node}

theorem Lies.span (h : m.Lies source a b) : m.span.Lies source a b :=
  { h.stands.here.place with front := h.front, back := h.back }

theorem Lies.mono (h : m.Lies source a b) (ha : c ≤ a) (hb : b ≤ d) : m.Lies source c d :=
  ⟨h.stands, Nat.le_trans ha h.front, Nat.le_trans h.back hb⟩

/-- The end may be that of the node itself. -/
theorem Lies.upTo (h : m.Lies source a b) : m.Lies source a m.span.right.index :=
  ⟨h.stands, h.front, Nat.le_refl _⟩

/-- The start may be that of the node itself. -/
theorem Lies.onward (h : m.Lies source a b) : m.Lies source m.span.left.index b :=
  ⟨h.stands, Nat.le_refl _, h.back⟩

/-- The children of a node stand in its place. -/
theorem Lies.row (h : m.Lies source a b) :
    Row source m.span.left.index m.span.right.index m.children where
  lies k hk := by
    obtain ⟨hfront, hback⟩ := h.stands.here.inside k hk
    exact ⟨h.stands.child hk, hfront, hback⟩
  ordered := h.stands.here.ordered

namespace Row

theorem nil : Row source a b [] := ⟨nofun, .nil⟩

theorem mono (h : Row source a b ms) (ha : c ≤ a) (hb : b ≤ d) : Row source c d ms :=
  ⟨fun m hm => (h.lies m hm).mono ha hb, h.ordered⟩

theorem cons (first : m.Lies source a c) (more : Row source c b ms) (hle : c ≤ b) :
    Row source a b (m :: ms) := by
  refine ⟨List.forall_mem_cons.mpr ⟨first.mono (Nat.le_refl _) hle, fun k hk => ?_⟩, ?_⟩
  · exact (more.lies k hk).mono first.span.le (Nat.le_refl _)
  · refine List.pairwise_cons.mpr ⟨fun k hk => ?_, more.ordered⟩
    exact Nat.le_trans first.back (more.lies k hk).front

theorem single (h : m.Lies source a b) : Row source a b [m] :=
  .cons h .nil (Nat.le_refl _)

end Row

theorem lies_of_row (hspan : m.span.Lies source a b)
    (hrow : Row source m.span.left.index m.span.right.index m.children)
    (hspelled : m.Spelled source) : m.Lies source a b := by
  have hstands : m.Stands source :=
    ⟨hspan.tight, fun k hk => ⟨(hrow.lies k hk).front, (hrow.lies k hk).back⟩, hrow.ordered,
      hspelled⟩
  exact ⟨.of_children hstands fun k hk => (hrow.lies k hk).stands, hspan.front, hspan.back⟩

/-- A node whose span is that of its first and its last part. -/
theorem lies_of_join {first last : Span} (hspan : m.span = first.join last)
    (hfirst : first.Lies source a c) (hlast : last.Lies source d b) (hle : c ≤ d)
    (hrow : Row source first.left.index last.right.index m.children)
    (hspelled : m.Spelled source) : m.Lies source a b := by
  have hjoin := hfirst.join_eq hlast hle
  refine lies_of_row (hspan ▸ hfirst.join hlast hle) ?_ hspelled
  rw [hspan, hjoin]
  exact hrow

/-- Nodes one behind the other, and behind them a lexeme that closes the list. -/
def RowClosed (source : List Char) (a b : Nat) (ms : List Node) (close : Span) : Prop :=
  ∃ c, a ≤ c ∧ Row source a c ms ∧ close.Lies source c b

theorem RowClosed.cons {close : Span} (first : m.Lies source a c) (hle : c ≤ d)
    (more : RowClosed source d b ms close) : RowClosed source a b (m :: ms) close := by
  obtain ⟨e, hde, hrow, hclose⟩ := more
  have hce : c ≤ e := Nat.le_trans hle hde
  refine ⟨e, Nat.le_trans first.span.le hce, ?_, hclose⟩
  exact .cons first (hrow.mono hle (Nat.le_refl _)) hce

theorem RowClosed.mono {close : Span} (h : RowClosed source a b ms close) (ha : c ≤ a) :
    RowClosed source c b ms close := by
  obtain ⟨d, had, hrow, hclose⟩ := h
  exact ⟨d, Nat.le_trans ha had, hrow.mono ha (Nat.le_refl _), hclose⟩

/-- A node from an opening lexeme to the closing one. -/
theorem RowClosed.lies {first close : Span} (h : RowClosed source c b m.children close)
    (hfirst : first.Lies source a c) (hspan : m.span = first.join close)
    (hspelled : m.Spelled source) : m.Lies source a b := by
  obtain ⟨d, hcd, hrow, hclose⟩ := h
  refine lies_of_join hspan hfirst hclose hcd (hrow.mono ?_ ?_) hspelled
  · exact hfirst.left_le
  · exact hclose.le_right

end Node

/-! ## Lexemes in a source -/

/-- The lexemes have their places in the source from an offset on, one behind the other, up to the
end of the file. -/
inductive Placed (source : List Char) : Nat → List Lexeme → Prop
  | nil {a : Nat} : Placed source a []
  | ending {a : Nat} {l : Lexeme} {ls : List Lexeme} (h : l.token = .endOfFile) :
      Placed source a (l :: ls)
  | cons {a : Nat} {l : Lexeme} {ls : List Lexeme} (lies : l.span.Lies source a l.span.right.index)
      (spelled : Lexeme.Spells l.token (l.span.slice source))
      (more : Placed source l.span.right.index ls) : Placed source a (l :: ls)

theorem Placed.step {source : List Char} {a : Nat} {l : Lexeme} {ls : List Lexeme}
    (h : Placed source a (l :: ls)) (hl : l.token ≠ .endOfFile) :
    l.span.Lies source a l.span.right.index ∧ Lexeme.Spells l.token (l.span.slice source) ∧
      Placed source l.span.right.index ls := by
  cases h with
  | ending h => exact absurd h hl
  | cons lies spelled more => exact ⟨lies, spelled, more⟩

/-- Tokens that sit one behind the other are placed. -/
theorem placed_of_sits {source : List Char} {tokens rest : List Lexeme} {a : Nat} {sp : Span}
    (sits : ∀ x ∈ tokens, x.Sits source) (behind : ∀ x ∈ tokens, a ≤ x.span.left.index)
    (ordered : tokens.Pairwise fun x y => x.span.right.index ≤ y.span.left.index) :
    Placed source a (tokens ++ ⟨.endOfFile, sp⟩ :: rest) := by
  induction tokens generalizing a with
  | nil => exact .ending rfl
  | cons x tokens ih =>
    obtain ⟨hx, hsits⟩ := List.forall_mem_cons.mp sits
    obtain ⟨hbehind, hordered⟩ := List.pairwise_cons.mp ordered
    have hplace : x.span = .between source x.span.left.index x.span.right.index :=
      congrArg₂ Span.mk hx.left hx.right
    refine .cons ⟨hplace, behind x List.mem_cons_self, hx.nonempty, Nat.le_refl _, hx.inside⟩
      hx.spelled ?_
    exact ih hsits hbehind hordered

/-- The lexemes of a source are placed, also without its comments. -/
theorem placed_of_scan {source : String} {lexemes : List Lexeme}
    (h : Lexeme.scan source = .ok lexemes) (keep : Lexeme → Bool)
    (hkeep : ∀ span, keep ⟨.endOfFile, span⟩ = true) :
    Placed source.toList 0 (lexemes.filter keep) := by
  obtain ⟨tokens, rfl, hcut⟩ := (Lexeme.scans_of_scan h).cut_start
  rw [List.filter_append, List.filter_cons_of_pos (hkeep _)]
  refine placed_of_sits (fun x hx => ?_) (fun x _ => Nat.zero_le _) (hcut.ordered.filter keep)
  exact hcut.sits x (List.mem_filter.mp hx).1

/-! ## Readings -/

open Node

/-- What is read for the phrase stands in the source between two offsets. -/
def Phrase.Lies (source : List Char) (a b : Nat) : Phrase → Prop
  | program body => Row source a b (body.map .ofStmt)
  | braced body close => RowClosed source a b (body.map .ofStmt) close
  | block b' => (Node.block b').Lies source a b
  | statement s => (Node.ofStmt s).Lies source a b
  | conditional c => (Node.conditional c).Lies source a b
  | declarators ds => Row source a b (ds.map .declarator)
  | declarator d => (Node.declarator d).Lies source a b
  | function keyword f => ∀ c, keyword.Lies source c a →
      f.span.Lies source c b ∧
        Row source f.span.left.index f.span.right.index (f.body.map .ofStmt)
  | parameterList _ | parameters _ => True
  | expression e | level _ e | unary e | primary e => (Node.expr e).Lies source a b
  | chain _ left e | access left e =>
      ∀ c, (Node.expr left).Lies source c a → (Node.expr e).Lies source c b
  | list _ _ es close | items _ _ es close => RowClosed source a b (es.map .expr) close
  | properties ps close => RowClosed source a b (ps.map .property) close
  | property p => (Node.property p).Lies source a b

namespace Phrase

variable {source : List Char} {a b : Nat}

theorem lies_operand {l : Level} {e : Expr} :
    (operand l e).Lies source a b ↔ (Node.expr e).Lies source a b := by
  cases l <;> exact Iff.rfl

theorem lies_item {kind : Item} {e : Expr} :
    (item kind e).Lies source a b ↔ (Node.expr e).Lies source a b := by
  cases kind <;> exact Iff.rfl

end Phrase

theorem Lexeme.Spells.identifier_text {name : String} {text : List Char}
    (h : Lexeme.Spells (.identifier name) text) : text = name.toList := by
  cases h
  rw [String.toList_ofList]

namespace Node

variable {source : List Char} {a b c d : Nat} {sp : Span}

theorem lies_leaf {m : Node} (hspan : m.span.Lies source a b) (hchildren : m.children = [])
    (hspelled : m.Spelled source) : m.Lies source a b :=
  lies_of_row hspan (hchildren ▸ .nil) hspelled

/-- A node of which one child is all but the front. -/
theorem lies_before {m k : Node} {first : Span} (hspan : m.span = first.join k.span)
    (hchildren : m.children = [k]) (hfirst : first.Lies source a c) (hk : k.Lies source d b)
    (hle : c ≤ d) (hspelled : m.Spelled source) : m.Lies source a b := by
  refine lies_of_join hspan hfirst hk.span hle ?_ hspelled
  rw [hchildren]
  exact .single (hk.upTo.mono (Nat.le_trans hfirst.left_le hle) (Nat.le_refl _))

/-- Two operands with an operator between them. -/
theorem lies_connective {op : Connective} {left right : Expr}
    (hleft : (Node.expr left).Lies source a c) (hright : (Node.expr right).Lies source d b)
    (hle : c ≤ d) : (Node.expr (op.join left right)).Lies source a b := by
  have hrow : Row source left.span.left.index right.span.right.index
      [Node.expr left, Node.expr right] :=
    .cons (hleft.onward.mono (Nat.le_refl _) hle) (.single hright.upTo) hright.span.le_right
  cases op with
  | logical op => exact lies_of_join rfl hleft.span hright.span hle hrow trivial
  | binary op => exact lies_of_join rfl hleft.span hright.span hle hrow trivial

/-- The span of a declaration runs from its keyword over all of its names. -/
theorem declarationSpan_lies {ds : List Declarator} (hsp : sp.Lies source a c) (hle : c ≤ b)
    (hrow : Row source c b (ds.map .declarator)) :
    (Parse.declarationSpan sp ds).Lies source a b ∧
      Row source (Parse.declarationSpan sp ds).left.index
        (Parse.declarationSpan sp ds).right.index (ds.map .declarator) := by
  -- The join with the next name keeps the start, so it is the start that goes through.
  suffices h : (Parse.declarationSpan sp ds).Lies source a b ∧
      (Parse.declarationSpan sp ds).left.index = sp.left.index ∧
      sp.right.index ≤ (Parse.declarationSpan sp ds).right.index ∧
      ∀ d ∈ ds, d.span.right.index ≤ (Parse.declarationSpan sp ds).right.index by
    obtain ⟨hlies, hleft, -, hright⟩ := h
    refine ⟨hlies, fun m hm => ?_, hrow.ordered⟩
    obtain ⟨d, hd, rfl⟩ := List.mem_map.mp hm
    have hfront := (hrow.lies _ hm).front
    refine ⟨(hrow.lies _ hm).stands, ?_, hright d hd⟩
    exact hleft ▸ Nat.le_trans hsp.left_le hfront
  induction ds generalizing sp c with
  | nil => exact ⟨hsp.mono (Nat.le_refl _) hle, rfl, Nat.le_refl _, nofun⟩
  | cons d ds ih =>
    have hd : (Node.declarator d).Lies source c b := hrow.lies _ List.mem_cons_self
    have hspan : d.span.Lies source c b := hd.span
    obtain ⟨hbehind, hordered⟩ := List.pairwise_cons.mp hrow.ordered
    have hboth : (sp.join d.span).Lies source a d.span.right.index :=
      hsp.join hspan.tight hspan.front
    have hmore : Row source d.span.right.index b (ds.map .declarator) := by
      refine ⟨fun m hm => ?_, hordered⟩
      have hm' := hrow.lies m (List.mem_cons_of_mem _ hm)
      exact ⟨hm'.stands, hbehind m hm, hm'.back⟩
    obtain ⟨hlies, hleft, hright, hothers⟩ := ih hboth hd.back hmore
    rw [hsp.join_left_index hspan (Nat.le_refl _)] at hleft
    rw [hsp.join_right_index hspan (Nat.le_refl _)] at hright
    refine ⟨hlies, hleft, ?_, List.forall_mem_cons.mpr ⟨hright, hothers⟩⟩
    exact Nat.le_trans hsp.back (Nat.le_trans hspan.le_right hright)

/-- A node that is a keyword, a condition and a block. -/
theorem lies_branch {m : Node} {e : Expr} {b' : Block} (hspan : m.span = sp.join b'.span)
    (hchildren : m.children = [.expr e, .block b']) (hword : sp.Lies source a c)
    (hcondition : (Node.expr e).Lies source c d) (hblock : (Node.block b').Lies source d b)
    (hspelled : m.Spelled source) : m.Lies source a b := by
  refine lies_of_join hspan hword hblock.span hcondition.span.le ?_ hspelled
  rw [hchildren]
  exact .cons (hcondition.mono hword.left_le (Nat.le_refl _)) (.single hblock.upTo)
    hblock.span.le_right

/-- A conditional with a second branch. -/
theorem lies_branches {m k : Node} {e : Expr} {b' : Block} {r : Nat}
    (hspan : m.span = (sp.join b'.span).join k.span)
    (hchildren : m.children = [.expr e, .block b', k]) (hword : sp.Lies source a c)
    (hcondition : (Node.expr e).Lies source c d) (hblock : (Node.block b').Lies source d r)
    (halternate : k.Lies source r b) (hspelled : m.Spelled source) : m.Lies source a b := by
  have hblockSpan : b'.span.Lies source d r := hblock.span
  have hfirst : (sp.join b'.span).Lies source a r := hword.join hblockSpan hcondition.span.le
  refine lies_of_join hspan hfirst halternate.span (Nat.le_refl _) ?_ hspelled
  rw [hchildren, hword.join_left_index hblockSpan hcondition.span.le]
  exact .cons (hcondition.mono hword.left_le (Nat.le_refl _))
    (.cons hblock (.single halternate.upTo) halternate.span.le_right)
    (Nat.le_trans hblock.span.le halternate.span.le_right)

end Node

section Readings

variable {source : List Char} {phrase : Phrase} {ls rest : List Lexeme} {a : Nat}

/-- **What is read stands where it was read.**  The reading begins at the offset `a` and ends at
some offset `b`; all that it yields lies between them. -/
theorem Reads.lies (h : Reads phrase ls rest) (hp : Placed source a ls) :
    ∃ b, a ≤ b ∧ Placed source b rest ∧ phrase.Lies source a b := by
  induction h generalizing a with
  | programSemicolon _ ih =>
    obtain ⟨hmark, -, hp⟩ := hp.step nofun
    obtain ⟨b, hle, hp, hrow⟩ := ih hp
    exact ⟨b, hmark.le.trans hle, hp, Row.mono hrow hmark.le (Nat.le_refl _)⟩
  | programDry => exact ⟨a, Nat.le_refl _, hp, .nil⟩
  | programEnd => exact ⟨a, Nat.le_refl _, hp, .nil⟩
  | programStatement _ _ _ _ ih₁ ih₂ =>
    obtain ⟨c, hle₁, hp, hfirst⟩ := ih₁ hp
    obtain ⟨b, hle₂, hp, hmore⟩ := ih₂ hp
    exact ⟨b, hle₁.trans hle₂, hp, .cons hfirst hmore hle₂⟩
  | bracedSemicolon _ ih =>
    obtain ⟨hmark, -, hp⟩ := hp.step nofun
    obtain ⟨b, hle, hp, hrow⟩ := ih hp
    exact ⟨b, hmark.le.trans hle, hp, RowClosed.mono hrow hmark.le⟩
  | bracedClose =>
    obtain ⟨hmark, -, hp⟩ := hp.step nofun
    exact ⟨_, hmark.le, hp, a, Nat.le_refl _, .nil, hmark⟩
  | bracedStatement _ _ _ _ _ ih₁ ih₂ =>
    obtain ⟨c, hle₁, hp, hfirst⟩ := ih₁ hp
    obtain ⟨b, hle₂, hp, hmore⟩ := ih₂ hp
    exact ⟨b, hle₁.trans hle₂, hp, RowClosed.cons hfirst (Nat.le_refl _) hmore⟩
  | block _ ih =>
    obtain ⟨hmark, -, hp⟩ := hp.step nofun
    obtain ⟨b, hle, hp, hrow⟩ := ih hp
    exact ⟨b, hmark.le.trans hle, hp, RowClosed.lies hrow hmark rfl trivial⟩
  | declaration _ ih =>
    obtain ⟨hword, -, hp⟩ := hp.step nofun
    obtain ⟨b, hle, hp, hrow⟩ := ih hp
    obtain ⟨hspan, hrow⟩ := declarationSpan_lies hword hle hrow
    exact ⟨b, hword.le.trans hle, hp, lies_of_row hspan hrow trivial⟩
  | functionDeclaration _ _ ih =>
    obtain ⟨hword, -, hp⟩ := hp.step nofun
    obtain ⟨hname, -, hp⟩ := hp.step nofun
    obtain ⟨b, hle, hp, hfunction⟩ := ih hp
    obtain ⟨hspan, hrow⟩ := hfunction a (hword.mono (Nat.le_refl _) hname.le)
    exact ⟨b, hspan.le, hp, lies_of_row hspan hrow trivial⟩
  | conditionalStatement _ ih => exact ih hp
  | loop _ _ ih₁ ih₂ =>
    obtain ⟨hword, -, hp⟩ := hp.step nofun
    obtain ⟨hopen, -, hp⟩ := hp.step nofun
    obtain ⟨c, hle₁, hp, hcondition⟩ := ih₁ hp
    obtain ⟨hclose, -, hp⟩ := hp.step nofun
    obtain ⟨b, hle₂, hp, hblock⟩ := ih₂ hp
    refine ⟨b, hword.le.trans (hopen.le.trans (hle₁.trans (hclose.le.trans hle₂))), hp, ?_⟩
    exact lies_branch rfl rfl hword (hcondition.mono hopen.le (Nat.le_refl _))
      (hblock.mono hclose.le (Nat.le_refl _)) trivial
  | blockStatement _ ih => exact ih hp
  | expressionStatement _ _ ih => exact ih hp
  | conditional _ _ _ ih₁ ih₂ =>
    obtain ⟨hword, -, hp⟩ := hp.step nofun
    obtain ⟨hopen, -, hp⟩ := hp.step nofun
    obtain ⟨c, hle₁, hp, hcondition⟩ := ih₁ hp
    obtain ⟨hclose, -, hp⟩ := hp.step nofun
    obtain ⟨b, hle₂, hp, hblock⟩ := ih₂ hp
    refine ⟨b, hword.le.trans (hopen.le.trans (hle₁.trans (hclose.le.trans hle₂))), hp, ?_⟩
    exact lies_branch rfl rfl hword (hcondition.mono hopen.le (Nat.le_refl _))
      (hblock.mono hclose.le (Nat.le_refl _)) trivial
  | conditionalElse _ _ _ _ ih₁ ih₂ ih₃ =>
    obtain ⟨hword, -, hp⟩ := hp.step nofun
    obtain ⟨hopen, -, hp⟩ := hp.step nofun
    obtain ⟨c, hle₁, hp, hcondition⟩ := ih₁ hp
    obtain ⟨hclose, -, hp⟩ := hp.step nofun
    obtain ⟨d, hle₂, hp, hblock⟩ := ih₂ hp
    obtain ⟨helse, -, hp⟩ := hp.step nofun
    obtain ⟨b, hle₃, hp, halternate⟩ := ih₃ hp
    refine ⟨b, ?_, hp, ?_⟩
    · exact hword.le.trans (hopen.le.trans (hle₁.trans (hclose.le.trans
        (hle₂.trans (helse.le.trans hle₃)))))
    · exact lies_branches rfl rfl hword (hcondition.mono hopen.le (Nat.le_refl _))
        (hblock.mono hclose.le (Nat.le_refl _)) (halternate.mono helse.le (Nat.le_refl _)) trivial
  | conditionalElseIf _ _ _ ih₁ ih₂ ih₃ =>
    obtain ⟨hword, -, hp⟩ := hp.step nofun
    obtain ⟨hopen, -, hp⟩ := hp.step nofun
    obtain ⟨c, hle₁, hp, hcondition⟩ := ih₁ hp
    obtain ⟨hclose, -, hp⟩ := hp.step nofun
    obtain ⟨d, hle₂, hp, hblock⟩ := ih₂ hp
    obtain ⟨helse, -, hp⟩ := hp.step nofun
    obtain ⟨b, hle₃, hp, halternate⟩ := ih₃ hp
    refine ⟨b, ?_, hp, ?_⟩
    · exact hword.le.trans (hopen.le.trans (hle₁.trans (hclose.le.trans
        (hle₂.trans (helse.le.trans hle₃)))))
    · exact lies_branches rfl rfl hword (hcondition.mono hopen.le (Nat.le_refl _))
        (hblock.mono hclose.le (Nat.le_refl _)) (halternate.mono helse.le (Nat.le_refl _)) trivial
  | declaratorsLast _ _ ih =>
    obtain ⟨b, hle, hp, hfirst⟩ := ih hp
    exact ⟨b, hle, hp, .single hfirst⟩
  | declaratorsMore _ _ ih₁ ih₂ =>
    obtain ⟨c, hle₁, hp, hfirst⟩ := ih₁ hp
    obtain ⟨hcomma, -, hp⟩ := hp.step nofun
    obtain ⟨b, hle₂, hp, hmore⟩ := ih₂ hp
    have hle := hcomma.le.trans hle₂
    exact ⟨b, hle₁.trans hle, hp, .cons hfirst (Row.mono hmore hcomma.le (Nat.le_refl _)) hle⟩
  | declaratorValue _ _ ih =>
    obtain ⟨hname, -, hp⟩ := hp.step nofun
    obtain ⟨hmark, -, hp⟩ := hp.step nofun
    obtain ⟨b, hle, hp, hvalue⟩ := ih hp
    exact ⟨b, hname.le.trans (hmark.le.trans hle), hp,
      lies_before rfl rfl hname hvalue hmark.le trivial⟩
  | declaratorPlain _ _ =>
    obtain ⟨hname, -, hp⟩ := hp.step nofun
    refine ⟨_, hname.le, hp, lies_of_row ?_ ?_ trivial⟩
    · show (Span.join _ _).Lies source a _
      rw [hname.join_self]
      exact hname
    · show Row source (Span.join _ _).left.index (Span.join _ _).right.index _
      rw [hname.join_self]
      exact .single (lies_leaf hname.tight rfl trivial)
  | function _ _ _ ih₁ ih₂ =>
    obtain ⟨hopen, -, hp⟩ := hp.step nofun
    obtain ⟨c, hle₁, hp, -⟩ := ih₁ hp
    obtain ⟨b, hle₂, hp, hblock⟩ := ih₂ hp
    refine ⟨b, hopen.le.trans (hle₁.trans hle₂), hp, fun d hword => ?_⟩
    have hspan := Node.Lies.span hblock
    have hle := hopen.le.trans hle₁
    refine ⟨hword.join hspan hle, (Node.Lies.row hblock).mono ?_ ?_⟩
    · exact hword.join_left_index hspan hle ▸ hword.left_le.trans (hle.trans hspan.front)
    · exact (hword.join_right_index hspan hle).ge
  | parameterListNone =>
    obtain ⟨hmark, -, hp⟩ := hp.step nofun
    exact ⟨_, hmark.le, hp, trivial⟩
  | parameterListSome _ ih => exact ih hp
  | parametersLast _ =>
    obtain ⟨hname, -, hp⟩ := hp.step nofun
    obtain ⟨hmark, -, hp⟩ := hp.step nofun
    exact ⟨_, hname.le.trans hmark.le, hp, trivial⟩
  | parametersMore _ _ ih =>
    obtain ⟨hname, -, hp⟩ := hp.step nofun
    obtain ⟨hmark, -, hp⟩ := hp.step nofun
    obtain ⟨b, hle, hp, -⟩ := ih hp
    exact ⟨b, hname.le.trans (hmark.le.trans hle), hp, trivial⟩
  | assignment _ ih =>
    obtain ⟨hname, hspells, hp⟩ := hp.step nofun
    obtain ⟨hmark, -, hp⟩ := hp.step nofun
    obtain ⟨b, hle, hp, hvalue⟩ := ih hp
    refine ⟨b, hname.le.trans (hmark.le.trans hle), hp,
      lies_before rfl rfl hname hvalue hmark.le ?_⟩
    have hfront := hname.slice_isPrefix hvalue.span hmark.le
    rw [hspells.identifier_text] at hfront
    exact hfront
  | value _ _ ih => exact ih hp
  | level _ _ ih₁ ih₂ =>
    obtain ⟨c, hle₁, hp, hfirst⟩ := ih₁ hp
    obtain ⟨b, hle₂, hp, hmore⟩ := ih₂ hp
    exact ⟨b, hle₁.trans hle₂, hp, hmore a (Phrase.lies_operand.mp hfirst)⟩
  | chainEnd _ => exact ⟨a, Nat.le_refl _, hp, fun _ => id⟩
  | chainOperator _ _ _ ih₁ ih₂ =>
    obtain ⟨hmark, -, hp⟩ := hp.step nofun
    obtain ⟨c, hle₁, hp, hright⟩ := ih₁ hp
    obtain ⟨b, hle₂, hp, hmore⟩ := ih₂ hp
    refine ⟨b, hmark.le.trans (hle₁.trans hle₂), hp, fun d hleft => hmore d ?_⟩
    exact lies_connective hleft (Phrase.lies_operand.mp hright) hmark.le
  | sign _ ih =>
    obtain ⟨hmark, -, hp⟩ := hp.step nofun
    obtain ⟨b, hle, hp, hoperand⟩ := ih hp
    exact ⟨b, hmark.le.trans hle, hp,
      lies_before rfl rfl hmark hoperand (Nat.le_refl _) trivial⟩
  | accessed _ _ ih₁ ih₂ =>
    obtain ⟨c, hle₁, hp, hfirst⟩ := ih₁ hp
    obtain ⟨b, hle₂, hp, hmore⟩ := ih₂ hp
    exact ⟨b, hle₁.trans hle₂, hp, hmore a hfirst⟩
  | number =>
    obtain ⟨hspan, -, hp⟩ := hp.step nofun
    exact ⟨_, hspan.le, hp, lies_leaf hspan rfl trivial⟩
  | string =>
    obtain ⟨hspan, -, hp⟩ := hp.step nofun
    exact ⟨_, hspan.le, hp, lies_leaf hspan rfl trivial⟩
  | constant _ =>
    obtain ⟨hspan, -, hp⟩ := hp.step nofun
    exact ⟨_, hspan.le, hp, lies_leaf hspan rfl trivial⟩
  | var _ =>
    obtain ⟨hspan, hspells, hp⟩ := hp.step nofun
    exact ⟨_, hspan.le, hp, lies_leaf hspan rfl hspells.identifier_text⟩
  | parenthesized _ ih =>
    obtain ⟨hopen, -, hp⟩ := hp.step nofun
    obtain ⟨b, hle, hp, hinner⟩ := ih hp
    obtain ⟨hclose, -, hp⟩ := hp.step nofun
    exact ⟨_, hopen.le.trans (hle.trans hclose.le), hp, hinner.mono hopen.le hclose.le⟩
  | array _ ih =>
    obtain ⟨hopen, -, hp⟩ := hp.step nofun
    obtain ⟨b, hle, hp, hrow⟩ := ih hp
    exact ⟨b, hopen.le.trans hle, hp, RowClosed.lies hrow hopen rfl trivial⟩
  | object _ ih =>
    obtain ⟨hopen, -, hp⟩ := hp.step nofun
    obtain ⟨b, hle, hp, hrow⟩ := ih hp
    exact ⟨b, hopen.le.trans hle, hp, RowClosed.lies hrow hopen rfl trivial⟩
  | namedFunction _ _ ih =>
    obtain ⟨hword, -, hp⟩ := hp.step nofun
    obtain ⟨hname, -, hp⟩ := hp.step nofun
    obtain ⟨b, hle, hp, hfunction⟩ := ih hp
    obtain ⟨hspan, hrow⟩ := hfunction a (hword.mono (Nat.le_refl _) hname.le)
    exact ⟨b, hspan.le, hp, lies_of_row hspan hrow trivial⟩
  | namelessFunction _ ih =>
    obtain ⟨hword, -, hp⟩ := hp.step nofun
    obtain ⟨b, hle, hp, hfunction⟩ := ih hp
    obtain ⟨hspan, hrow⟩ := hfunction a hword
    exact ⟨b, hspan.le, hp, lies_of_row hspan hrow trivial⟩
  | accessEnd _ => exact ⟨a, Nat.le_refl _, hp, fun _ => id⟩
  | member _ ih =>
    obtain ⟨hmark, -, hp⟩ := hp.step nofun
    obtain ⟨hname, -, hp⟩ := hp.step nofun
    obtain ⟨b, hle, hp, hmore⟩ := ih hp
    refine ⟨b, hmark.le.trans (hname.le.trans hle), hp, fun c hobject => hmore c ?_⟩
    refine lies_of_join rfl hobject.span hname hmark.le (.single ?_) trivial
    exact hobject.onward.mono (Nat.le_refl _) (hmark.le.trans hname.le)
  | index _ _ ih₁ ih₂ =>
    obtain ⟨hopen, -, hp⟩ := hp.step nofun
    obtain ⟨c, hle₁, hp, hkey⟩ := ih₁ hp
    obtain ⟨hclose, -, hp⟩ := hp.step nofun
    obtain ⟨b, hle₂, hp, hmore⟩ := ih₂ hp
    refine ⟨b, hopen.le.trans (hle₁.trans (hclose.le.trans hle₂)), hp,
      fun d hobject => hmore d ?_⟩
    refine lies_of_join rfl hobject.span hclose (hopen.le.trans hle₁) ?_ trivial
    exact .cons (hobject.onward.mono (Nat.le_refl _) hopen.le)
      (.single (hkey.mono (Nat.le_refl _) hclose.le)) (hle₁.trans hclose.le)
  | call _ _ ih₁ ih₂ =>
    obtain ⟨hopen, -, hp⟩ := hp.step nofun
    obtain ⟨c, hle₁, hp, harguments⟩ := ih₁ hp
    obtain ⟨b, hle₂, hp, hmore⟩ := ih₂ hp
    refine ⟨b, hopen.le.trans (hle₁.trans hle₂), hp, fun d hcallee => hmore d ?_⟩
    obtain ⟨e, hle₃, hrow, hclose⟩ := harguments
    refine lies_of_join rfl hcallee.span hclose (hopen.le.trans hle₃) ?_ trivial
    refine Row.mono ?_ (Nat.le_refl _) hclose.le_right
    exact .cons (hcallee.onward.mono (Nat.le_refl _) hopen.le) hrow hle₃
  | listNone =>
    obtain ⟨hmark, -, hp⟩ := hp.step nofun
    exact ⟨_, hmark.le, hp, a, Nat.le_refl _, .nil, hmark⟩
  | listSome _ _ ih => exact ih hp
  | itemsLast _ _ ih =>
    obtain ⟨c, hle, hp, hitem⟩ := ih hp
    obtain ⟨hmark, -, hp⟩ := hp.step nofun
    exact ⟨_, hle.trans hmark.le, hp, c, hle, .single (Phrase.lies_item.mp hitem), hmark⟩
  | itemsMore _ _ ih₁ ih₂ =>
    obtain ⟨c, hle₁, hp, hitem⟩ := ih₁ hp
    obtain ⟨hcomma, -, hp⟩ := hp.step nofun
    obtain ⟨b, hle₂, hp, hmore⟩ := ih₂ hp
    exact ⟨b, hle₁.trans (hcomma.le.trans hle₂), hp,
      RowClosed.cons (Phrase.lies_item.mp hitem) hcomma.le hmore⟩
  | propertiesNone =>
    obtain ⟨hmark, -, hp⟩ := hp.step nofun
    exact ⟨_, hmark.le, hp, a, Nat.le_refl _, .nil, hmark⟩
  | propertiesLast _ ih =>
    obtain ⟨c, hle, hp, hfirst⟩ := ih hp
    obtain ⟨hmark, -, hp⟩ := hp.step nofun
    exact ⟨_, hle.trans hmark.le, hp, c, hle, .single hfirst, hmark⟩
  | propertiesMore _ _ ih₁ ih₂ =>
    obtain ⟨c, hle₁, hp, hfirst⟩ := ih₁ hp
    obtain ⟨hcomma, -, hp⟩ := hp.step nofun
    obtain ⟨b, hle₂, hp, hmore⟩ := ih₂ hp
    exact ⟨b, hle₁.trans (hcomma.le.trans hle₂), hp, RowClosed.cons hfirst hcomma.le hmore⟩
  | nameProperty _ ih =>
    obtain ⟨hkey, -, hp⟩ := hp.step nofun
    obtain ⟨hmark, -, hp⟩ := hp.step nofun
    obtain ⟨b, hle, hp, hvalue⟩ := ih hp
    exact ⟨b, hkey.le.trans (hmark.le.trans hle), hp,
      lies_before rfl rfl hkey hvalue hmark.le trivial⟩
  | stringProperty _ ih =>
    obtain ⟨hkey, -, hp⟩ := hp.step nofun
    obtain ⟨hmark, -, hp⟩ := hp.step nofun
    obtain ⟨b, hle, hp, hvalue⟩ := ih hp
    exact ⟨b, hkey.le.trans (hmark.le.trans hle), hp,
      lies_before rfl rfl hkey hvalue hmark.le trivial⟩
  | shorthand _ =>
    obtain ⟨hspan, hspells, hp⟩ := hp.step nofun
    exact ⟨_, hspan.le, hp, lies_leaf hspan rfl hspells.identifier_text⟩

end Readings

/-! ## Programs -/

namespace Program

variable {file source : String} {program : Program}

theorem span_of_ofSource (h : ofSource file source = .ok program) :
    program.span = .between source.toList 0 source.toList.length := by
  obtain ⟨lexemes, hscan, hparse⟩ := ofSource_eq_ok_iff.mp h
  obtain ⟨-, -, hspan⟩ := parse_eq_ok_iff.mp hparse
  obtain ⟨tokens, rfl, -⟩ := (Lexeme.scans_of_scan hscan).cut_start
  rw [hspan, spanOf, List.getLast?_concat]
  rfl

/-- The statements of a program stand in its source. -/
theorem row_nodes (h : ofSource file source = .ok program) :
    Row source.toList 0 source.toList.length program.nodes := by
  obtain ⟨lexemes, hscan, hparse⟩ := ofSource_eq_ok_iff.mp h
  obtain ⟨hrun, -, -⟩ := parse_eq_ok_iff.mp hparse
  obtain ⟨rest, hreads⟩ := Parse.reads_of_run hrun
  have hplaced := placed_of_scan hscan (fun lexeme => !lexeme.token.isComment) fun _ => rfl
  obtain ⟨b, -, -, hrow⟩ := hreads.lies hplaced
  refine ⟨fun m hm => ?_, hrow.ordered⟩
  have hm := hrow.lies m hm
  exact ⟨hm.stands, hm.front, hm.span.inside⟩

/-- **Spans nest, and they are ordered.**  The span of a program is that of its source.  All other
nodes of its tree have spans that are not empty, the spans of children are parts of the span of
their parent, and the children of a node stand one behind the other. -/
theorem spans_nest (h : ofSource file source = .ok program) :
    program.span = .between source.toList 0 source.toList.length ∧
    (∀ m ∈ program.nodes, m.span.Inside program.span) ∧
    (program.nodes.Pairwise fun k k' => k.span.Before k'.span) ∧
    ∀ root ∈ program.nodes, ∀ m, root.Within m →
      m.span.left.index < m.span.right.index ∧
      (∀ k ∈ m.children, k.span.Inside m.span) ∧
      m.children.Pairwise fun k k' => k.span.Before k'.span := by
  have hspan := span_of_ofSource h
  have hrow := row_nodes h
  refine ⟨hspan, fun m hm => ?_, hrow.ordered, fun root hroot m hm => ?_⟩
  · rw [hspan]
    exact ⟨(hrow.lies m hm).front, (hrow.lies m hm).back⟩
  · have hstands := (hrow.lies root hroot).stands m hm
    exact ⟨hstands.place.nonempty, hstands.inside, hstands.ordered⟩

/-- A call over two lines: the function and its argument lie inside it, one before the other. -/
theorem spans_nest_call :
    ∃ program, ofSource "call" "a\n(b)" = .ok program ∧
      program.span = ⟨⟨0, 0, 0⟩, ⟨5, 1, 3⟩⟩ ∧
      program.nodes.map Node.span = [⟨⟨0, 0, 0⟩, ⟨5, 1, 3⟩⟩] ∧
      (program.nodes.flatMap Node.children).map Node.span =
        [⟨⟨0, 0, 0⟩, ⟨1, 0, 1⟩⟩, ⟨⟨3, 1, 1⟩, ⟨4, 1, 2⟩⟩] ∧
      ∀ root ∈ program.nodes, ∀ m, root.Within m →
        m.children.Pairwise fun k k' => k.span.Before k'.span := by
  have hsource : "a\n(b)".toList = ['a', '\n', '(', 'b', ')'] := rfl
  have ha : Lexeme.munch 'a' ['\n', '(', 'b', ')'] =
      .ok ⟨.identifier "a", ['a'], ['\n', '(', 'b', ')']⟩ := rfl
  have hopen : Lexeme.munch '(' ['b', ')'] = .ok ⟨.symbol .leftParen, ['('], ['b', ')']⟩ := rfl
  have hb : Lexeme.munch 'b' [')'] = .ok ⟨.identifier "b", ['b'], [')']⟩ := rfl
  have hclose : Lexeme.munch ')' [] = .ok ⟨.symbol .rightParen, [')'], []⟩ := rfl
  have hscan : Lexeme.scan "a\n(b)" = .ok
      [⟨.identifier "a", ⟨⟨0, 0, 0⟩, ⟨1, 0, 1⟩⟩⟩, ⟨.symbol .leftParen, ⟨⟨2, 1, 0⟩, ⟨3, 1, 1⟩⟩⟩,
        ⟨.identifier "b", ⟨⟨3, 1, 1⟩, ⟨4, 1, 2⟩⟩⟩,
        ⟨.symbol .rightParen, ⟨⟨4, 1, 2⟩, ⟨5, 1, 3⟩⟩⟩, ⟨.endOfFile, ⟨⟨5, 1, 3⟩, ⟨5, 1, 3⟩⟩⟩] := by
    rw [Lexeme.scan, hsource, Lexeme.scanFrom_munch rfl ha, Lexeme.scanFrom_space rfl,
      Lexeme.scanFrom_munch rfl hopen, Lexeme.scanFrom_munch rfl hb,
      Lexeme.scanFrom_munch rfl hclose, Lexeme.scanFrom]
    rfl
  have h : ofSource "call" "a\n(b)" = .ok _ := ofSource_eq_ok_iff.mpr ⟨_, hscan, rfl⟩
  exact ⟨_, h, rfl, rfl, rfl, fun root hroot m hm => ((spans_nest h).2.2.2 root hroot m hm).2.2⟩

end Program

end Script
