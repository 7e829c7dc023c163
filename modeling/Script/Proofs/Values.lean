import Mathlib.Data.List.Forall2
import Script.Value.Display
import Script.Value.Equality

/-!
# Values by their contents

Two functions go through a value with a list of what is still to be done: the one that writes its
display form and the one that compares it with another by contents.  Here both are said without such
a list.  The display form of an array or an object is put together from the forms of what it holds
(`toList_display_array`, `toList_display_object`), and two arrays or objects are equal by contents
if what they hold is (`same_array`, `same_object`).
-/

namespace Script

namespace Piece

/-! ## The display form -/

/-- What is written before makes no difference to what follows. -/
theorem write_append_left (before written : String) (ps : List Piece) :
    write (before ++ written) ps = before ++ write written ps := by
  fun_induction write written ps with
  | case1 => rw [write]
  | case2 written t rest ih => rw [write, String.append_assoc, ih]
  | case3 written v rest ih => rw [write, ih]

theorem write_append (written : String) (ps qs : List Piece) :
    write written (ps ++ qs) = write written ps ++ write "" qs := by
  fun_induction write written ps with
  | case1 written => rw [List.nil_append, ← write_append_left, String.append_empty]
  | case2 written t rest ih => rw [List.cons_append, write, ih]
  | case3 written v rest ih => rw [List.cons_append, write, ← List.append_assoc, ih]

/-- The text of one piece. -/
def form (p : Piece) : List Char := (write "" [p]).toList

theorem form_text (t : String) : (text t).form = t.toList := by
  rw [form, write, write, String.empty_append]

theorem toList_write_cons (p : Piece) (ps : List Piece) :
    (write "" (p :: ps)).toList = p.form ++ (write "" ps).toList := by
  rw [← List.singleton_append, write_append, String.toList_append, form]

theorem toList_write_nil : (write "" []).toList = [] := by
  rw [write]
  rfl

/-- Groups of pieces with a comma before each, the first comma left out. -/
theorem toList_write_separated {α : Type} (group : α → List Piece) (xs : List α) :
    (write "" (xs.flatMap fun x => text ", " :: group x).tail).toList =
      [',', ' '].intercalate (xs.map fun x => (write "" (group x)).toList) := by
  induction xs with
  | nil => exact toList_write_nil
  | cons x xs ih =>
    cases xs with
    | nil => simp
    | cons y ys =>
      have hmore : (write "" ((y :: ys).flatMap fun x => text ", " :: group x)).toList =
          ", ".toList ++ [',', ' '].intercalate
            ((y :: ys).map fun x => (write "" (group x)).toList) := by
        rw [← ih, List.flatMap_cons, List.cons_append, toList_write_cons, form_text,
          List.tail_cons]
      rw [List.flatMap_cons, List.cons_append, List.tail_cons, write_append, String.toList_append,
        hmore, List.map_cons, List.map_cons, List.map_cons, List.intercalate_cons_cons,
        List.append_assoc]
      rfl

end Piece

namespace Value

/-- The form of a value inside an array or an object. -/
def nestedForm (v : Value) : List Char := (Piece.nested v).form

/-- The form of a property. -/
def propertyForm (p : String × Value) : List Char := p.1.toList ++ ':' :: ' ' :: p.2.nestedForm

theorem toList_display (v : Value) :
    v.display.toList = (Piece.write "" (Piece.ofValue v)).toList := by
  rw [display, Piece.write, List.append_nil]

/-- A value that is not a string, and is one text, has that text inside others too. -/
theorem nestedForm_of_text {v : Value} {t : String} (hnested : Piece.nested v = .value v)
    (h : Piece.ofValue v = [.text t]) : v.nestedForm = t.toList := by
  rw [nestedForm, hnested, Piece.form, ← display, toList_display, h]
  exact Piece.form_text t

theorem nestedForm_string (s : String) : (string s).nestedForm = '"' :: (s.toList ++ ['"']) := by
  rw [nestedForm, Piece.nested, Piece.form_text, String.toList_append, String.toList_append]
  rfl

theorem toList_display_array (identity : Nat) (vs : List Value) :
    (array identity vs).display.toList =
      '[' :: ([',', ' '].intercalate (vs.map nestedForm) ++ [']']) := by
  rw [toList_display, Piece.ofValue, Piece.toList_write_cons, Piece.form_text, Piece.write_append,
    String.toList_append, Piece.toList_write_cons, Piece.form_text, Piece.toList_write_nil]
  exact congrArg (fun inner => '[' :: (inner ++ [']'])) (Piece.toList_write_separated _ vs)

theorem toList_display_object_nil (identity : Nat) :
    (object identity []).display.toList = ['\x7b', '\x7d'] := by
  rw [toList_display, Piece.ofValue, Piece.toList_write_cons, Piece.form_text,
    Piece.toList_write_nil]
  rfl

theorem toList_display_object_cons (identity : Nat) (p : String × Value)
    (ps : List (String × Value)) : (object identity (p :: ps)).display.toList =
      '\x7b' :: ' ' :: ([',', ' '].intercalate ((p :: ps).map propertyForm) ++ [' ', '\x7d']) := by
  have hform : ∀ q : String × Value,
      (Piece.write "" [.text (q.1 ++ ": "), Piece.nested q.2]).toList = propertyForm q := by
    intro q
    rw [Piece.toList_write_cons, Piece.form_text, String.toList_append, List.append_assoc]
    rfl
  have hpieces : Piece.ofValue (object identity (p :: ps)) =
      .text "\x7b " :: ((Piece.properties (p :: ps)).tail ++ [.text " \x7d"]) := rfl
  rw [toList_display, hpieces, Piece.toList_write_cons, Piece.form_text, Piece.write_append,
    String.toList_append, Piece.toList_write_cons, Piece.form_text, Piece.toList_write_nil]
  refine congrArg (fun inner => '\x7b' :: ' ' :: (inner ++ [' ', '\x7d'])) ?_
  refine (Piece.toList_write_separated _ (p :: ps)).trans ?_
  exact congrArg _ (List.map_congr_left fun q _ => hform q)

/-! ## Equality by contents -/

theorem allSame_cons {a b : Value} {pairs : List (Value × Value)} (h : parts? a b = some pairs)
    (rest : List (Value × Value)) : allSame ((a, b) :: rest) = allSame (pairs ++ rest) := by
  rw [allSame]
  split
  · next heq =>
    rw [h] at heq
    cases heq
    rfl
  · next heq =>
    rw [h] at heq
    cases heq

theorem allSame_append (xs ys : List (Value × Value)) :
    allSame (xs ++ ys) = (allSame xs && allSame ys) := by
  fun_induction allSame xs with
  | case1 => rfl
  | case2 a b rest pairs h ih =>
    rw [List.cons_append, allSame_cons h, ← List.append_assoc, ih]
  | case3 a b rest h =>
    rw [List.cons_append, allSame]
    split
    · next heq =>
      rw [h] at heq
      cases heq
    · rfl

theorem allSame_iff {pairs : List (Value × Value)} :
    allSame pairs = true ↔ ∀ p ∈ pairs, p.1.same p.2 = true := by
  induction pairs with
  | nil => simp [allSame]
  | cons p pairs ih =>
    rw [← List.singleton_append, allSame_append, Bool.and_eq_true, ih, List.singleton_append,
      List.forall_mem_cons]
    exact Iff.rfl

/-- Values whose parts are equal by contents are. -/
theorem same_of_parts {a b : Value} {pairs : List (Value × Value)} (h : parts? a b = some pairs)
    (hparts : ∀ p ∈ pairs, p.1.same p.2 = true) : a.same b = true := by
  rw [same, allSame_cons h, List.append_nil]
  exact allSame_iff.mpr hparts

theorem same_number {x y : Number} (h : x.eq y = true) : (number x).same (number y) = true :=
  same_of_parts (if_pos h) (List.forall_mem_nil _)

theorem same_string (s : String) : (string s).same (string s) = true :=
  same_of_parts (if_pos (decide_eq_true rfl)) (List.forall_mem_nil _)

theorem same_ofConstant (c : Constant) : (ofConstant c).same (ofConstant c) = true := by
  have hparts : parts? (ofConstant c) (ofConstant c) = some [] := by cases c <;> rfl
  exact same_of_parts hparts (List.forall_mem_nil _)

theorem same_array {vs ws : List Value} (i j : Nat)
    (h : List.Forall₂ (fun v w => v.same w = true) vs ws) :
    (array i vs).same (array j ws) = true := by
  obtain ⟨hlength, hzip⟩ := List.forall₂_iff_zip.mp h
  exact same_of_parts (if_pos hlength) fun p hp => hzip hp

/-- Two properties have the same key and values that are equal by contents. -/
def SameAt (p q : String × Value) : Prop := p.1 = q.1 ∧ p.2.same q.2 = true

theorem lookup_of_mem {ps : List (String × Value)} (hkeys : (ps.map Prod.fst).Nodup)
    {p : String × Value} (hp : p ∈ ps) : ps.lookup p.1 = some p.2 := by
  induction ps with
  | nil => cases hp
  | cons q ps ih =>
    obtain ⟨hq, hrest⟩ := List.nodup_cons.mp hkeys
    rcases List.mem_cons.mp hp with rfl | hp
    · exact List.lookup_cons_self
    · have hne : (p.1 == q.1) = false :=
        beq_eq_false_iff_ne.mpr fun heq => hq (heq ▸ List.mem_map_of_mem hp)
      rw [List.lookup_cons, hne]
      exact ih hrest hp

theorem pairProperties_of_sameAt {ps qs rs : List (String × Value)}
    (hkeys : (rs.map Prod.fst).Nodup) (hsub : ∀ q ∈ qs, q ∈ rs)
    (h : List.Forall₂ SameAt ps qs) :
    ∃ pairs, pairProperties ps rs = some pairs ∧ ∀ p ∈ pairs, p.1.same p.2 = true := by
  induction h with
  | nil => exact ⟨[], rfl, List.forall_mem_nil _⟩
  | @cons p q ps qs hpq _ ih =>
    obtain ⟨hq, hmore⟩ := List.forall_mem_cons.mp hsub
    obtain ⟨pairs, hpairs, hsame⟩ := ih hmore
    refine ⟨(p.2, q.2) :: pairs, ?_, List.forall_mem_cons.mpr ⟨hpq.2, hsame⟩⟩
    obtain ⟨key, v⟩ := p
    have hkey : key = q.1 := hpq.1
    have hlookup : rs.lookup key = some q.2 := hkey ▸ lookup_of_mem hkeys hq
    rw [pairProperties, hlookup, hpairs]

/-- Objects with the same keys in the same order are equal by contents if their values are. -/
theorem same_object {ps qs : List (String × Value)} (i j : Nat)
    (hkeys : (qs.map Prod.fst).Nodup) (h : List.Forall₂ SameAt ps qs) :
    (object i ps).same (object j qs) = true := by
  obtain ⟨pairs, hpairs, hsame⟩ := pairProperties_of_sameAt hkeys (fun _ => id) h
  exact same_of_parts ((if_pos h.length_eq).trans hpairs) hsame

end Value

/-- A key that is not there yet goes behind the others. -/
theorem insertProperty_of_notMem {ps : List (String × Value)} {key : String} (v : Value)
    (h : key ∉ ps.map Prod.fst) : insertProperty ps key v = ps ++ [(key, v)] := by
  induction ps with
  | nil => rfl
  | cons p ps ih =>
    obtain ⟨k, w⟩ := p
    rw [List.map_cons, List.mem_cons, not_or] at h
    rw [insertProperty, if_neg (Ne.symm h.1), ih h.2]
    rfl

end Script
