import Script.Number.Numeral
import Script.Value.Basic

/-!
# When values are equal, and how they compare

There are three equalities.  `strictEqual` goes by identity where there is one; `looseEqual` also
lets a text stand for the number it reads as; `same` looks into arrays and objects and goes by
contents.  Only numbers, strings and booleans are ordered, each among themselves.
-/

namespace Script.Value

/-- Equality behind `==`. -/
def strictEqual : Value → Value → Bool
  | number a, number b => a.eq b
  | string a, string b => a = b
  | boolean a, boolean b => a = b
  | null, null => true
  | undefined, undefined => true
  | array a _, array b _ => a = b
  | object a _, object b _ => a = b
  | function a _ _ _, function b _ _ _ => a = b
  | native a _, native b _ => a = b
  | _, _ => false

/-- A boolean stands for the number zero or one; any other value for itself. -/
def withoutBoolean : Value → Value
  | boolean b => number (if b then .one else .zero)
  | v => v

def isNullish : Value → Bool
  | null | undefined => true
  | _ => false

/-- The text reads as the given number. -/
def readsAs (text : String) (n : Number) : Bool :=
  (Number.ofText? text).any fun m => m.eq n

/-- Equality behind `!=`: `null` and `undefined` are equal, booleans count as numbers, and a text
equals the number that it reads as. -/
def looseEqual (a b : Value) : Bool :=
  if a.isNullish && b.isNullish then true
  else
    match a.withoutBoolean, b.withoutBoolean with
    | number n, string s => readsAs s n
    | string s, number n => readsAs s n
    | a, b => a.strictEqual b

/-- The order of two numbers, two strings or two booleans.  Strings go by the code points of their
characters. -/
def compare? : Value → Value → Option Ordering
  | number a, number b => a.compare? b
  | string a, string b => some (Ord.compare a b)
  | boolean a, boolean b => some (Ord.compare a b)
  | _, _ => none

/-! ## Equality by contents -/

/-- Each value of one object with the value of the other at the same key, if all keys are there. -/
def pairProperties (ps qs : List (String × Value)) : Option (List (Value × Value)) :=
  match ps with
  | [] => some []
  | (key, v) :: rest =>
    match qs.lookup key, pairProperties rest qs with
    | some w, some pairs => some ((v, w) :: pairs)
    | _, _ => none

/-- The pairs of values that must be equal for two values to be, or nothing if they are not equal
in any case. -/
def parts? : Value → Value → Option (List (Value × Value))
  | array _ vs, array _ ws => if vs.length = ws.length then some (vs.zip ws) else none
  | object _ ps, object _ qs => if ps.length = qs.length then pairProperties ps qs else none
  | a, b => if a.strictEqual b then some [] else none

/-- How much there is on the left of a list of pairs. -/
noncomputable def leftWeight : List (Value × Value) → Nat
  | [] => 0
  | pair :: pairs => sizeOf pair.1 + leftWeight pairs

theorem leftWeight_append (xs ys : List (Value × Value)) :
    leftWeight (xs ++ ys) = leftWeight xs + leftWeight ys := by
  induction xs with
  | nil => simp [leftWeight]
  | cons x xs ih => simp [leftWeight, ih, Nat.add_assoc]

theorem leftWeight_zip_le (vs ws : List Value) : leftWeight (vs.zip ws) ≤ sizeOf vs := by
  induction vs generalizing ws with
  | nil => simp [leftWeight]
  | cons v vs ih =>
    cases ws with
    | nil => simp [leftWeight]
    | cons w ws =>
      have := ih ws
      simp only [leftWeight, List.zip_cons_cons, List.cons.sizeOf_spec]
      omega

theorem leftWeight_pairProperties_le {ps qs : List (String × Value)}
    {pairs : List (Value × Value)} (h : pairProperties ps qs = some pairs) :
    leftWeight pairs ≤ sizeOf ps := by
  induction ps generalizing pairs with
  | nil =>
    simp only [pairProperties, Option.some.injEq] at h
    simp [← h, leftWeight]
  | cons p ps ih =>
    obtain ⟨key, v⟩ := p
    unfold pairProperties at h
    split at h
    · next rest _ heq =>
      cases h
      have := ih heq
      simp only [leftWeight, List.cons.sizeOf_spec, Prod.mk.sizeOf_spec]
      omega
    · cases h

theorem sizeOf_pos (a : Value) : 0 < sizeOf a := by
  cases a <;> simp only [number.sizeOf_spec, string.sizeOf_spec, boolean.sizeOf_spec,
    null.sizeOf_spec, undefined.sizeOf_spec, array.sizeOf_spec, object.sizeOf_spec,
    function.sizeOf_spec, native.sizeOf_spec] <;> omega

theorem leftWeight_parts?_lt {a b : Value} {pairs : List (Value × Value)}
    (h : parts? a b = some pairs) : leftWeight pairs < sizeOf a := by
  unfold parts? at h
  split at h
  · next vs _ ws =>
    split at h
    · cases h
      have := leftWeight_zip_le vs ws
      simp only [array.sizeOf_spec]
      omega
    · cases h
  · split at h
    · have := leftWeight_pairProperties_le h
      simp only [object.sizeOf_spec]
      omega
    · cases h
  · split at h
    · cases h
      exact sizeOf_pos a
    · cases h

/-- All pairs are equal by contents. -/
def allSame : List (Value × Value) → Bool
  | [] => true
  | (a, b) :: rest =>
    match _h : parts? a b with
    | some pairs => allSame (pairs ++ rest)
    | none => false
termination_by pairs => leftWeight pairs
decreasing_by
  have := leftWeight_parts?_lt _h
  simp only [leftWeight, leftWeight_append]
  omega

/-- Equality by contents: arrays by their elements in order, objects by their keys and values in
any order, everything else strictly. -/
def same (a b : Value) : Bool := allSame [(a, b)]

end Script.Value
