import Mathlib.Data.List.Forall2
import Script.Value.Operators

/-!
# Values that match

Two values match when they are built alike and differ only in what they refer to: the identities of
arrays, objects and functions, and the functions and scopes behind closures.  A `Matching` says
which references stand for each other.  A script cannot tell values that match from each other: they
have the same type and display form, count as the same number, and as long as the identities stand
for each other one to one, operators and accesses give values that match again.
-/

namespace Script

/-- Which references of two sides stand for each other. -/
structure Matching where
  identity : Nat → Nat → Prop
  /-- A function with the scope that it was made in, on either side. -/
  closure : Function → Scope → Function → Scope → Prop
  /-- The native functions that may occur. -/
  native : Native → Prop

/-- Identities stand for each other one to one. -/
def Matching.OneToOne (m : Matching) : Prop :=
  ∀ i i' j j', m.identity i i' → m.identity j j' → (i = j ↔ i' = j')

/-- Identities that only stand for themselves. -/
theorem Matching.OneToOne.of_eq {m : Matching} (h : ∀ i j, m.identity i j → i = j) :
    m.OneToOne := by
  intro i i' j j' hi hj
  rw [h i i' hi, h j j' hj]

namespace Value

/-- The two values are built alike, and their references stand for each other. -/
inductive Match (m : Matching) : Value → Value → Prop
  | number (value : Number) : Match m (.number value) (.number value)
  | string (value : String) : Match m (.string value) (.string value)
  | boolean (value : Bool) : Match m (.boolean value) (.boolean value)
  | null : Match m .null .null
  | undefined : Match m .undefined .undefined
  | array {i j : Nat} {vs ws : List Value} (identity : m.identity i j)
      (length : vs.length = ws.length) (inside : ∀ v w, (v, w) ∈ vs.zip ws → Match m v w) :
      Match m (.array i vs) (.array j ws)
  | object {i j : Nat} {ps qs : List (String × Value)} (identity : m.identity i j)
      (keys : ps.map Prod.fst = qs.map Prod.fst)
      (inside : ∀ p q, (p, q) ∈ ps.zip qs → Match m p.2 q.2) :
      Match m (.object i ps) (.object j qs)
  | function {i j : Nat} (name : Option String) {f g : Function} {s t : Scope}
      (identity : m.identity i j) (here : m.closure f s g t) :
      Match m (.function i name f s) (.function j name g t)
  | native {i j : Nat} {n : Native} (identity : m.identity i j) (here : m.native n) :
      Match m (.native i n) (.native j n)

/-- A name with a value, such as a property or a variable, matches another. -/
def MatchAt (m : Matching) (p q : String × Value) : Prop := p.1 = q.1 ∧ p.2.Match m q.2

variable {m m' : Matching} {v w a b a' b' : Value} {vs ws : List Value}
  {ps qs : List (String × Value)} {i j : Nat}

theorem forall₂_matchAt : List.Forall₂ (MatchAt m) ps qs ↔
    ps.map Prod.fst = qs.map Prod.fst ∧ ∀ p q, (p, q) ∈ ps.zip qs → p.2.Match m q.2 := by
  induction ps generalizing qs with
  | nil => cases qs <;> simp
  | cons p ps ih =>
    cases qs with
    | nil => simp
    | cons q qs =>
      rw [List.forall₂_cons, ih, MatchAt, List.map_cons, List.map_cons, List.cons.injEq,
        List.zip_cons_cons]
      constructor
      · rintro ⟨⟨hkey, hvalue⟩, hkeys, hvalues⟩
        refine ⟨⟨hkey, hkeys⟩, fun p' q' hmem => ?_⟩
        rcases List.mem_cons.mp hmem with heq | hmem
        · cases heq
          exact hvalue
        · exact hvalues p' q' hmem
      · rintro ⟨⟨hkey, hkeys⟩, hvalues⟩
        exact ⟨⟨hkey, hvalues p q List.mem_cons_self⟩, hkeys,
          fun p' q' hmem => hvalues p' q' (List.mem_cons_of_mem _ hmem)⟩

namespace Match

theorem ofElements (identity : m.identity i j) (h : List.Forall₂ (Match m) vs ws) :
    Match m (.array i vs) (.array j ws) :=
  have hzip := List.forall₂_iff_zip.mp h
  .array identity hzip.1 fun _ _ => hzip.2

theorem ofProperties (identity : m.identity i j) (h : List.Forall₂ (MatchAt m) ps qs) :
    Match m (.object i ps) (.object j qs) :=
  have hzip := forall₂_matchAt.mp h
  .object identity hzip.1 hzip.2

theorem mono (h : Match m v w) (hidentity : ∀ i j, m.identity i j → m'.identity i j)
    (hclosure : ∀ f s g t, m.closure f s g t → m'.closure f s g t)
    (hnative : ∀ n, m.native n → m'.native n) : Match m' v w := by
  induction h with
  | number => exact .number _
  | string => exact .string _
  | boolean => exact .boolean _
  | null => exact .null
  | undefined => exact .undefined
  | array identity length _ ih => exact .array (hidentity _ _ identity) length ih
  | object identity keys _ ih => exact .object (hidentity _ _ identity) keys ih
  | function name identity here =>
    exact .function name (hidentity _ _ identity) (hclosure _ _ _ _ here)
  | native identity here => exact .native (hidentity _ _ identity) (hnative _ here)

/-! ## What a value counts as -/

theorem typeName (h : Match m v w) : v.typeName = w.typeName := by
  cases h <;> rfl

theorem isTruthy (h : Match m v w) : v.isTruthy = w.isTruthy := by
  cases h <;> rfl

theorem toNumber (h : Match m v w) : v.toNumber = w.toNumber := by
  cases h <;> rfl

theorem isString (h : Match m v w) : v.isString = w.isString := by
  cases h <;> rfl

theorem isNullish (h : Match m v w) : v.isNullish = w.isNullish := by
  cases h <;> rfl

theorem isLengthKey (h : Match m v w) : v.isLengthKey = w.isLengthKey := by
  cases h <;> rfl

theorem toIndex? (h : Match m v w) : v.toIndex? = w.toIndex? := by
  cases h <;> rfl

theorem ofConstant (constant : Constant) :
    Match m (Value.ofConstant constant) (Value.ofConstant constant) := by
  cases constant with
  | null => exact .null
  | undefined => exact .undefined
  | true => exact .boolean _
  | false => exact .boolean _

end Match

end Value

/-! ## Display forms -/

namespace Piece

variable {m : Matching} {v w : Value} {vs ws : List Value} {ps qs : List (String × Value)}

/-- Equal texts, or values that match. -/
inductive Match (m : Matching) : Piece → Piece → Prop
  | text (t : String) : Match m (text t) (text t)
  | value {v w : Value} (h : v.Match m w) : Match m (value v) (value w)

theorem match_nested (h : v.Match m w) : Match m (nested v) (nested w) := by
  cases h with
  | string s => exact .text _
  | number n => exact .value (.number n)
  | boolean b => exact .value (.boolean b)
  | null => exact .value .null
  | undefined => exact .value .undefined
  | array identity length inside => exact .value (.array identity length inside)
  | object identity keys inside => exact .value (.object identity keys inside)
  | function name identity here => exact .value (.function name identity here)
  | native identity here => exact .value (.native identity here)

theorem match_elements (h : List.Forall₂ (Value.Match m) vs ws) :
    List.Forall₂ (Match m) (elements vs) (elements ws) := by
  induction h with
  | nil => exact .nil
  | cons hv _ ih => exact .cons (.text _) (.cons (match_nested hv) ih)

theorem match_properties (h : List.Forall₂ (Value.MatchAt m) ps qs) :
    List.Forall₂ (Match m) (properties ps) (properties qs) := by
  induction h with
  | nil => exact .nil
  | @cons p q _ _ hp _ ih =>
    obtain ⟨key, v⟩ := p
    obtain ⟨key', w⟩ := q
    obtain ⟨rfl, hv⟩ : key = key' ∧ v.Match m w := hp
    exact .cons (.text _) (.cons (.text _) (.cons (match_nested hv) ih))

theorem match_tail {ps qs : List Piece} (h : List.Forall₂ (Match m) ps qs) :
    List.Forall₂ (Match m) ps.tail qs.tail := by
  cases h with
  | nil => exact .nil
  | cons _ h => exact h

theorem match_append {ps qs ps' qs' : List Piece} (h : List.Forall₂ (Match m) ps qs)
    (h' : List.Forall₂ (Match m) ps' qs') : List.Forall₂ (Match m) (ps ++ ps') (qs ++ qs') :=
  List.rel_append h h'

/-- Brackets around pieces that match. -/
theorem match_enclose {ps qs : List Piece} (h : List.Forall₂ (Match m) ps qs)
    (before after : String) : List.Forall₂ (Match m) (text before :: (ps.tail ++ [text after]))
      (text before :: (qs.tail ++ [text after])) :=
  .cons (.text _) (match_append (match_tail h) (.cons (.text _) .nil))

theorem match_ofValue (h : v.Match m w) : List.Forall₂ (Match m) (ofValue v) (ofValue w) := by
  cases h with
  | number => exact .cons (.text _) .nil
  | string => exact .cons (.text _) .nil
  | boolean => exact .cons (.text _) .nil
  | null => exact .cons (.text _) .nil
  | undefined => exact .cons (.text _) .nil
  | array _ length inside =>
    have hinside := List.forall₂_iff_zip.mpr ⟨length, fun {_ _} => inside _ _⟩
    exact match_enclose (match_elements hinside) "[" "]"
  | @object i j ps qs _ keys inside =>
    have hinside := Value.forall₂_matchAt.mpr ⟨keys, inside⟩
    cases hinside with
    | nil => exact .cons (.text _) .nil
    | cons hp hrest => exact match_enclose (match_properties (.cons hp hrest)) "\x7b " " \x7d"
  | function => exact .cons (.text _) .nil
  | native => exact .cons (.text _) .nil

/-- Pieces that match are written alike. -/
theorem write_eq_of_match {ps qs : List Piece} (h : List.Forall₂ (Match m) ps qs)
    (written : String) : write written ps = write written qs := by
  fun_induction write written ps generalizing qs with
  | case1 written =>
    cases h
    rw [write]
  | case2 written t rest ih =>
    cases h with
    | cons hp hrest =>
      cases hp
      rw [write]
      exact ih hrest
  | case3 written v rest ih =>
    cases h with
    | cons hp hrest =>
      cases hp with
      | value hv =>
        rw [write]
        exact ih (match_append (match_ofValue hv) hrest)

end Piece

namespace Value.Match

variable {m : Matching} {v w a b a' b' : Value}

theorem display (h : Match m v w) : v.display = w.display :=
  Piece.write_eq_of_match (.cons (.value h) .nil) ""

/-! ## Equality and order -/

theorem strictEqual (hm : m.OneToOne) (ha : Match m a a') (hb : Match m b b') :
    a.strictEqual b = a'.strictEqual b' := by
  cases ha with
  | array hi => cases hb with
    | array hj => exact decide_eq_decide.mpr (hm _ _ _ _ hi hj)
    | _ => rfl
  | object hi => cases hb with
    | object hj => exact decide_eq_decide.mpr (hm _ _ _ _ hi hj)
    | _ => rfl
  | function _ hi => cases hb with
    | function _ hj => exact decide_eq_decide.mpr (hm _ _ _ _ hi hj)
    | _ => rfl
  | native hi => cases hb with
    | native hj => exact decide_eq_decide.mpr (hm _ _ _ _ hi hj)
    | _ => rfl
  | _ => cases hb <;> rfl

theorem withoutBoolean (h : Match m v w) : Match m v.withoutBoolean w.withoutBoolean := by
  cases h with
  | boolean b => exact .number _
  | number n => exact .number n
  | string s => exact .string s
  | null => exact .null
  | undefined => exact .undefined
  | array identity length inside => exact .array identity length inside
  | object identity keys inside => exact .object identity keys inside
  | function name identity here => exact .function name identity here
  | native identity here => exact .native identity here

theorem looseEqual (hm : m.OneToOne) (ha : Match m a a') (hb : Match m b b') :
    a.looseEqual b = a'.looseEqual b' := by
  have hx := ha.withoutBoolean
  have hy := hb.withoutBoolean
  have hstrict := strictEqual hm hx hy
  unfold Value.looseEqual
  rw [ha.isNullish, hb.isNullish]
  split
  · rfl
  · generalize a.withoutBoolean = x, a'.withoutBoolean = x', b.withoutBoolean = y,
      b'.withoutBoolean = y' at hx hy hstrict ⊢
    -- Identities only matter between two arrays, two objects, two functions or two natives.
    cases hx with
    | array => cases hy with
      | array => exact hstrict
      | _ => rfl
    | object => cases hy with
      | object => exact hstrict
      | _ => rfl
    | function => cases hy with
      | function => exact hstrict
      | _ => rfl
    | native => cases hy with
      | native => exact hstrict
      | _ => rfl
    | _ => cases hy <;> rfl

theorem compare? (ha : Match m a a') (hb : Match m b b') : a.compare? b = a'.compare? b' := by
  cases ha <;> cases hb <;> rfl

/-! ## Operators and accesses -/

/-- Operators do not see the references of their operands, except whether they are equal. -/
theorem binary (hm : m.OneToOne) (op : BinaryOp) (ha : Match m a a') (hb : Match m b b') :
    Value.binary op a b = Value.binary op a' b' := by
  cases op with
  | equal => exact congrArg Value.boolean (ha.strictEqual hm hb)
  | notEqual => exact congrArg (fun equal => Value.boolean (!equal)) (ha.looseEqual hm hb)
  | _ => simp only [Value.binary, Value.ordered, ha.toNumber, hb.toNumber, ha.compare? hb]

theorem logical (op : LogicalOp) (ha : Match m a a') (hb : Match m b b') :
    Value.logical op a b = Value.logical op a' b' := by
  cases op <;> simp only [Value.logical, ha.isTruthy, hb.isTruthy]

theorem unary (op : UnaryOp) (h : Match m a a') : Value.unary op a = Value.unary op a' := by
  cases op with
  | negate => simp only [Value.unary, h.toNumber]
  | not => simp only [Value.unary, h.isTruthy]

theorem binary_self (op : BinaryOp) (a b : Value) :
    Match m (Value.binary op a b) (Value.binary op a b) := by
  cases op <;> constructor

theorem logical_self (op : LogicalOp) (a b : Value) :
    Match m (Value.logical op a b) (Value.logical op a b) := by
  cases op <;> constructor

theorem unary_self (op : UnaryOp) (a : Value) : Match m (Value.unary op a) (Value.unary op a) := by
  cases op with
  | negate => exact .number _
  | not => exact .boolean _

theorem assigned (hm : m.OneToOne) (op : AssignOp) (ha : Match m a a') (hb : Match m b b') :
    Match m (Value.assigned op a b) (Value.assigned op a' b') := by
  unfold Value.assigned
  rw [ha.isString, hb.isString, ha.display, hb.display]
  split
  · exact hb
  · split
    · exact .string _
    · rw [ha.binary hm _ hb]
      exact binary_self _ _ _
  · rw [ha.binary hm _ hb]
    exact binary_self _ _ _

/-- What is not there is `undefined` on both sides. -/
theorem getD {x y : Option Value} (h : Option.Rel (Match m) x y) :
    Match m (x.getD .undefined) (y.getD .undefined) := by
  cases h with
  | none => exact .undefined
  | some hv => exact hv

theorem getElem? {vs ws : List Value} (h : List.Forall₂ (Match m) vs ws) (i : Nat) :
    Option.Rel (Match m) vs[i]? ws[i]? := by
  induction h generalizing i with
  | nil => exact .none
  | cons hv _ ih =>
    cases i with
    | zero => exact .some hv
    | succ i => exact ih i

theorem lookup {ps qs : List (String × Value)} (h : List.Forall₂ (MatchAt m) ps qs)
    (key : String) : Option.Rel (Match m) (ps.lookup key) (qs.lookup key) := by
  induction h with
  | nil => exact .none
  | @cons p q ps qs hp _ ih =>
    obtain ⟨k, v⟩ := p
    obtain ⟨k', w⟩ := q
    obtain ⟨rfl, hv⟩ : k = k' ∧ v.Match m w := hp
    rw [List.lookup_cons, List.lookup_cons]
    split
    · exact .some hv
    · exact ih

/-- Values that match have members that do. -/
theorem member? (ha : Match m a a') (hb : Match m b b') :
    Option.Rel (Match m) (a.member? b) (a'.member? b') := by
  cases ha with
  | array _ length inside =>
    have hinside := List.forall₂_iff_zip.mpr ⟨length, fun {_ _} => inside _ _⟩
    rw [Value.member?, Value.member?, hb.isLengthKey, hb.toIndex?, length]
    split
    · exact .some (.number _)
    · cases b'.toIndex? with
      | none => exact .some .undefined
      | some i => exact .some (getD (getElem? hinside i))
  | string s =>
    rw [Value.member?, Value.member?, hb.isLengthKey, hb.toIndex?]
    split
    · exact .some (.number _)
    · cases b'.toIndex?.bind fun i => s.toList[i]? with
      | none => exact .some .undefined
      | some c => exact .some (.string _)
  | object _ keys inside =>
    rw [Value.member?, Value.member?, hb.display]
    exact .some (getD (lookup (forall₂_matchAt.mpr ⟨keys, inside⟩) b'.display))
  | _ => exact .none

end Value.Match

/-- A property that is added on both sides comes to stand in the same place. -/
theorem forall₂_insertProperty {m : Matching} {ps qs : List (String × Value)} {v w : Value}
    (h : List.Forall₂ (Value.MatchAt m) ps qs) (key : String) (hv : v.Match m w) :
    List.Forall₂ (Value.MatchAt m) (insertProperty ps key v) (insertProperty qs key w) := by
  induction h with
  | nil => exact .cons ⟨rfl, hv⟩ .nil
  | @cons p q ps qs hp hrest ih =>
    obtain ⟨k, x⟩ := p
    obtain ⟨k', y⟩ := q
    obtain ⟨rfl, hx⟩ : k = k' ∧ x.Match m y := hp
    rw [insertProperty, insertProperty]
    split
    · exact .cons ⟨rfl, hv⟩ hrest
    · exact .cons ⟨rfl, hx⟩ ih

end Script
