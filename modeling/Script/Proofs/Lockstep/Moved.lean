import Script.Proofs.Lockstep.Runs
import Script.Proofs.Parser.Moved
import Script.Proofs.Scopes.Reach

/-!
# Syntax at other places

Evaluation does not look at the places of the syntax that it evaluates, except to say where a
failure is.  `Likeness.moved` compares an evaluation with that of a tree that has been moved: heaps
are the same up to the places in the bodies of functions, and failures are the same up to the place
that they point at.
-/

namespace Script

/-- The failure without its place. -/
def RuntimeError.bare : RuntimeError → RuntimeError
  | unknownVariable name _ => unknownVariable name .none
  | redeclaration name _ => redeclaration name .none
  | assignmentToUndeclared name _ => assignmentToUndeclared name .none
  | notCallable typeName _ => notCallable typeName .none
  | notIndexable typeName _ => notIndexable typeName .none
  | stackOverflow limit _ => stackOverflow limit .none
  | nativeFailure message _ => nativeFailure message .none

theorem RuntimeError.message_bare (e : RuntimeError) : e.bare.message = e.message := by
  cases e <;> rfl

/-! ## Trees that stay -/

@[simp] theorem Move.apply_stay (span : Span) : Move.stay.apply span = span := rfl

mutual

theorem Expr.moved_stay (e : Expr) : e.moved .stay = e := by
  cases e with
  | number | string | constant | var => rfl
  | array es span => simp [Expr.moved, movedExprs_stay es]
  | object ps span => simp [Expr.moved, movedProperties_stay ps]
  | function name f => simp [Expr.moved, f.moved_stay]
  | assign name op e span => simp [Expr.moved, e.moved_stay]
  | member e name span => simp [Expr.moved, e.moved_stay]
  | index e key span => simp [Expr.moved, e.moved_stay, key.moved_stay]
  | call e es span => simp [Expr.moved, e.moved_stay, movedExprs_stay es]
  | logical op left right span => simp [Expr.moved, left.moved_stay, right.moved_stay]
  | binary op left right span => simp [Expr.moved, left.moved_stay, right.moved_stay]
  | unary op e span => simp [Expr.moved, e.moved_stay]

theorem movedExprs_stay (es : List Expr) : movedExprs .stay es = es := by
  cases es with
  | nil => rfl
  | cons e es => rw [movedExprs, e.moved_stay, movedExprs_stay es]

theorem Property.moved_stay (p : Property) : p.moved .stay = p := by
  cases p with
  | keyed key e span => simp [Property.moved, e.moved_stay]
  | shorthand => rfl

theorem movedProperties_stay (ps : List Property) : movedProperties .stay ps = ps := by
  cases ps with
  | nil => rfl
  | cons p ps => rw [movedProperties, p.moved_stay, movedProperties_stay ps]

theorem Function.moved_stay (f : Function) : f.moved .stay = f := by
  obtain ⟨ps, body, span⟩ := f
  simp [Function.moved, movedStmts_stay body]

theorem Declarator.moved_stay (d : Declarator) : d.moved .stay = d := by
  obtain ⟨name, e, span⟩ := d
  simp [Declarator.moved, e.moved_stay]

theorem movedDeclarators_stay (ds : List Declarator) : movedDeclarators .stay ds = ds := by
  cases ds with
  | nil => rfl
  | cons d ds => rw [movedDeclarators, d.moved_stay, movedDeclarators_stay ds]

theorem Block.moved_stay (b : Block) : b.moved .stay = b := by
  obtain ⟨body, span⟩ := b
  simp [Block.moved, movedStmts_stay body]

theorem Conditional.moved_stay (c : Conditional) : c.moved .stay = c := by
  obtain ⟨e, b, alternate, span⟩ := c
  simp [Conditional.moved, e.moved_stay, b.moved_stay, alternate.moved_stay]

theorem Alternate.moved_stay (a : Alternate) : a.moved .stay = a := by
  cases a with
  | absent => rfl
  | block b => rw [Alternate.moved, b.moved_stay]
  | conditional c => rw [Alternate.moved, c.moved_stay]

theorem Stmt.moved_stay (s : Stmt) : s.moved .stay = s := by
  cases s with
  | expr e => rw [Stmt.moved, e.moved_stay]
  | declaration kind ds span => simp [Stmt.moved, movedDeclarators_stay ds]
  | function name f => rw [Stmt.moved, f.moved_stay]
  | conditional c => rw [Stmt.moved, c.moved_stay]
  | loop e b span => simp [Stmt.moved, e.moved_stay, b.moved_stay]
  | block b => rw [Stmt.moved, b.moved_stay]

theorem movedStmts_stay (ss : List Stmt) : movedStmts .stay ss = ss := by
  cases ss with
  | nil => rfl
  | cons s ss => rw [movedStmts, s.moved_stay, movedStmts_stay ss]

end

/-! ## Heaps -/

/-- The heaps have the same frames, with the same names in the same order, and values that match. -/
structure Store.Alike (m : Matching) (store store' : Store) : Prop where
  size : store.frames.size = store'.frames.size
  bindings : ∀ n, List.Forall₂ (Value.MatchAt m) (store.bindings n) (store'.bindings n)

namespace Store.Alike

variable {m : Matching} {store store' : Store} {v v' : Value}

theorem owns_eq (h : store.Alike m store') (n : Nat) (x : String) :
    store.owns n x = store'.owns n x := by
  have hfound := Value.Match.lookup (h.bindings n) x
  unfold Store.owns
  generalize (store.bindings n).lookup x = o, (store'.bindings n).lookup x = o' at hfound ⊢
  cases hfound with
  | none => rfl
  | some _ => rfl

theorem lookup (h : store.Alike m store') (x : String) (scope : Scope) :
    Option.Rel (Value.Match m) (store.lookup x scope) (store'.lookup x scope) := by
  induction scope with
  | root n => exact Value.Match.lookup (h.bindings n) x
  | inner n parent ih =>
    have hfound := Value.Match.lookup (h.bindings n) x
    rw [Store.lookup, Store.lookup]
    generalize (store.bindings n).lookup x = o, (store'.bindings n).lookup x = o' at hfound ⊢
    cases hfound with
    | none => exact ih
    | some hv => exact .some hv

theorem owner?_eq (h : store.Alike m store') (x : String) (scope : Scope) :
    store.owner? x scope = store'.owner? x scope := by
  induction scope with
  | root n => rw [Store.owner?, Store.owner?, h.owns_eq]
  | inner n parent ih => rw [Store.owner?, Store.owner?, h.owns_eq, ih]

/-- Frames are changed alike. -/
theorem modify (h : store.Alike m store') (frame : Nat) {change change' : Bindings → Bindings}
    (hchange : ∀ b b', List.Forall₂ (Value.MatchAt m) b b' →
      List.Forall₂ (Value.MatchAt m) (change b) (change' b')) :
    Store.Alike m ⟨store.frames.modify frame change⟩ ⟨store'.frames.modify frame change'⟩ where
  size := by simpa using h.size
  bindings n := by
    rw [Store.bindings_modify, Store.bindings_modify, ← h.size]
    split
    · exact hchange _ _ (h.bindings n)
    · exact h.bindings n

theorem declare (h : store.Alike m store') (scope : Scope) (x : String) (hv : v.Match m v') :
    (store.declare scope x v).1 = (store'.declare scope x v').1 ∧
      (store.declare scope x v).2.Alike m (store'.declare scope x v').2 := by
  unfold Store.declare
  rw [h.owns_eq]
  split
  · exact ⟨rfl, h⟩
  · exact ⟨rfl, h.modify _ fun b b' hb => .cons ⟨rfl, hv⟩ hb⟩

/-- Matching values are assigned alike. -/
theorem assign {b b' : Bindings} (h : List.Forall₂ (Value.MatchAt m) b b') (x : String)
    (hv : v.Match m v') :
    List.Forall₂ (Value.MatchAt m) (b.assign x v) (b'.assign x v') := by
  unfold Bindings.assign
  rw [List.forall₂_map_left_iff, List.forall₂_map_right_iff]
  refine h.imp ?_
  rintro ⟨n, u⟩ ⟨n', u'⟩ ⟨hn, hu⟩
  obtain rfl : n = n' := hn
  by_cases hx : n = x
  · simpa [hx, Value.MatchAt] using hv
  · simpa [hx, Value.MatchAt] using hu

theorem set (h : store.Alike m store') (scope : Scope) (x : String) (hv : v.Match m v') :
    (store.set scope x v).1 = (store'.set scope x v').1 ∧
      (store.set scope x v).2.Alike m (store'.set scope x v').2 := by
  unfold Store.set
  rw [h.owner?_eq]
  split
  · exact ⟨rfl, h⟩
  · exact ⟨rfl, h.modify _ fun b b' hb => assign hb x hv⟩

theorem allocate (h : store.Alike m store') {b b' : Bindings}
    (hb : List.Forall₂ (Value.MatchAt m) b b') :
    (store.allocate b).1 = (store'.allocate b').1 ∧
      (store.allocate b).2.Alike m (store'.allocate b').2 := by
  refine ⟨h.size, ?_, fun n => ?_⟩
  · simpa [Store.allocate] using h.size
  · rw [Store.bindings_allocate, Store.bindings_allocate, ← h.size]
    split
    · exact hb
    · exact h.bindings n

end Store.Alike

/-! ## The comparison -/

/-- References stand for themselves, up to the places in the functions. -/
def Matching.moved : Matching where
  identity := Eq
  closure f s g t := (∃ move, g = f.moved move) ∧ s = t
  native _ := True

/-- Every value matches itself when nothing has to be moved. -/
theorem Value.match_moved (v : Value) : v.Match .moved v :=
  v.match_self (fun _ => rfl) (fun _ => trivial) fun f _ _ => ⟨⟨.stay, f.moved_stay.symm⟩, rfl⟩

/-- The states are the same, up to the places in functions. -/
structure State.Moved (s s' : State) : Prop where
  store : s.store.Alike .moved s'.store
  nextIdentity : s.nextIdentity = s'.nextIdentity
  output : s.output = s'.output

/-- The comparison of an evaluation with that of a tree that has been moved. -/
def Likeness.moved (limit : Nat) : Likeness where
  World := Unit
  le _ _ := True
  state _ := State.Moved
  identity _ := Eq
  scope _ := Eq
  function f f' := ∃ move, f' = f.moved move
  native _ := True
  name _ := True
  error e e' := e.bare = e'.bare
  lost _ := False
  limit := limit
  limit' := limit

/-- Trees may be asked for on the left as they are, and on the right as they are when moved. -/
def Trees.moved : Trees where
  expr e e' := ∃ g, e' = e.moved g
  stmt s s' := ∃ g, s' = s.moved g
  loop e b e' b' := ∃ g, e' = e.moved g ∧ b' = b.moved g

namespace Likeness

variable {limit : Nat}

/-- **Evaluation keeps to a move.** -/
theorem moved_lawful : (moved limit).Lawful where
  refl _ := trivial
  trans _ _ := trivial
  identity_mono _ h := h
  scope_mono _ h := h
  place_mono _ h := h
  scope_of_place h := h
  oneToOne _ := .of_eq fun _ _ => id
  parameters {f f'} h := by
    obtain ⟨g, rfl⟩ := h
    obtain ⟨ps, body, span⟩ := f
    exact ⟨rfl, fun _ _ => trivial⟩
  named _ _ _ := trivial
  defined _ := ⟨fun _ => trivial, fun _ _ _ => id⟩
  limit_le := Nat.le_refl _
  overflow _ hlt := absurd hlt (Nat.lt_irrefl _)
  depth _ h := ⟨h.store, h.nextIdentity, h.output⟩
  fresh {_ s s'} h :=
    ⟨(), trivial, ⟨h.store, congrArg (· + 1) h.nextIdentity, h.output⟩, h.nextIdentity⟩
  lookup {_ s s' scope scope' x} h hscope _ := by
    obtain rfl : scope = scope' := hscope
    exact h.store.lookup x scope
  declare {_ s s' scope scope' x v v'} h hscope _ hv := by
    obtain rfl : scope = scope' := hscope
    obtain ⟨hsame, hstore⟩ := h.store.declare scope x hv
    exact ⟨hsame, hstore, h.nextIdentity, h.output⟩
  set {_ s s' scope scope' x v v'} h hscope _ hv := by
    obtain rfl : scope = scope' := hscope
    obtain ⟨hsame, hstore⟩ := h.store.set scope x hv
    exact ⟨hsame, hstore, h.nextIdentity, h.output⟩
  newInner {_ s s' scope scope' b b'} h hscope _ hentries := by
    obtain rfl : scope = scope' := hscope
    obtain ⟨hframe, hstore⟩ := h.store.allocate hentries
    exact ⟨(), trivial, ⟨hstore, h.nextIdentity, h.output⟩, congrArg (Scope.inner · scope) hframe⟩
  write {_ s s'} text h := by
    refine ⟨by rw [h.output], h.store, h.nextIdentity, ?_⟩
    show (s.output.write text).2 = (s'.output.write text).2
    rw [h.output]

variable {g : Move}

theorem site_moved (span : Span) : (moved limit).Site span (g.apply span) :=
  ⟨fun _ => rfl, fun _ => rfl, fun _ => rfl⟩

theorem sequence_moved (body : List Stmt) :
    List.Forall₂ Trees.moved.stmt body (movedStmts g body) := by
  induction body with
  | nil => exact .nil
  | cons s body ih => exact .cons ⟨g, rfl⟩ ih

theorem values_moved (es : List Expr) : List.Forall₂ Trees.moved.expr es (movedExprs g es) := by
  induction es with
  | nil => exact .nil
  | cons e es ih => exact .cons ⟨g, rfl⟩ ih

theorem properties_moved (ps : List Property) :
    List.Forall₂ (Property.Like (moved limit) Trees.moved) ps (movedProperties g ps) := by
  induction ps with
  | nil => exact .nil
  | cons p ps ih =>
    refine .cons ?_ ih
    cases p with
    | keyed key e span => exact .keyed ⟨g, rfl⟩
    | shorthand name span => exact .shorthand trivial rfl

theorem declarators_moved (ds : List Declarator) :
    List.Forall₂ (Declarator.Like (moved limit) Trees.moved) ds (movedDeclarators g ds) := by
  induction ds with
  | nil => exact .nil
  | cons d ds ih =>
    obtain ⟨name, e, span⟩ := d
    exact .cons ⟨rfl, trivial, ⟨g, rfl⟩, rfl⟩ ih

theorem block_moved (b : Block) : Block.Like Trees.moved b (b.moved g) := by
  obtain ⟨body, span⟩ := b
  exact sequence_moved body

theorem conditional_moved (c : Conditional) : Conditional.Like Trees.moved c (c.moved g) := by
  obtain ⟨e, b, alternate, span⟩ := c
  refine ⟨⟨g, rfl⟩, block_moved b, ?_⟩
  cases alternate with
  | absent => exact .absent
  | block b' => exact .block (block_moved b')
  | conditional c' => exact .conditional ⟨g, rfl⟩

/-- An expression is like itself when moved. -/
theorem expr_moved (e : Expr) : Expr.Like (moved limit) Trees.moved e (e.moved g) := by
  cases e with
  | number n span => exact .number n
  | string s span => exact .string s
  | constant c span => exact .constant c
  | var x span => exact .var trivial rfl
  | array es span => exact .array (values_moved es)
  | object ps span => exact .object (properties_moved ps)
  | function name f => exact .function name ⟨g, rfl⟩
  | assign x op e span => exact .assign op trivial rfl ⟨g, rfl⟩
  | member e x span => exact .member x ⟨g, rfl⟩ fun _ => rfl
  | index e key span => exact .index ⟨g, rfl⟩ ⟨g, rfl⟩ fun _ => rfl
  | call e es span => exact .call ⟨g, rfl⟩ (values_moved es) (site_moved span)
  | logical op left right span => exact .logical op ⟨g, rfl⟩ ⟨g, rfl⟩
  | binary op left right span => exact .binary op ⟨g, rfl⟩ ⟨g, rfl⟩
  | unary op e span => exact .unary op ⟨g, rfl⟩

/-- A statement is like itself when moved. -/
theorem stmt_moved (s : Stmt) : Stmt.Like (moved limit) Trees.moved s (s.moved g) := by
  cases s with
  | expr e => exact .expr ⟨g, rfl⟩
  | declaration kind ds span => exact .declaration (declarators_moved ds)
  | function x f =>
    obtain ⟨ps, body, span⟩ := f
    exact .function trivial ⟨g, rfl⟩ rfl
  | conditional c => exact .conditional (conditional_moved c)
  | loop e b span => exact .loop ⟨g, rfl⟩ (block_moved b) ⟨g, rfl, rfl⟩
  | block b => exact .block (block_moved b)

theorem moved_closed : (moved limit).Closed Trees.moved := by
  intro w t t' h
  cases h with
  | @invocation f f' s s' function scope =>
    obtain ⟨g, rfl⟩ := function
    obtain ⟨ps, body, span⟩ := f
    exact .invocation (sequence_moved body) scope
  | @expr e e' s s' here scope =>
    obtain ⟨g, rfl⟩ := here
    exact .expr (expr_moved e) scope
  | @stmt t t' s s' here scope place =>
    obtain ⟨g, rfl⟩ := here
    exact .of_stmt (stmt_moved t) scope place
  | @loop e e' b b' s s' v v' again scope last =>
    obtain ⟨g, rfl, rfl⟩ := again
    exact .loop ⟨g, rfl⟩ (block_moved b) ⟨g, rfl, rfl⟩ scope last

end Likeness

/-- Every state is the same as itself. -/
theorem State.moved_self (s : State) : s.Moved s where
  store := ⟨rfl, fun _ => List.forall₂_same.mpr fun p _ => ⟨rfl, p.2.match_moved⟩⟩
  nextIdentity := rfl
  output := rfl

/-- **Evaluation does not look at places.**  A program that is moved does what it does where it
was. -/
theorem Task.run_moved (limit steps : Nat) (g : Move) (body : List Stmt) (scope : Scope)
    (s : State) : Option.Rel ((Likeness.moved limit).Final () s.depth)
      (Task.run limit steps (.program body scope) s)
      (Task.run limit steps (.program (movedStmts g body) scope) s) :=
  Likeness.run_rel Likeness.moved_lawful Likeness.moved_closed (fun _ => id) steps
    (.program (Likeness.sequence_moved body) rfl) ⟨s.moved_self, rfl, rfl⟩

end Script
