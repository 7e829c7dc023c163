import Script.Value.Display
import Script.Value.Equality
import Script.Number.Index

/-!
# What operators and accesses give
-/

namespace Script.Value

/-- A comparison holds only between values that are ordered. -/
def ordered (a b : Value) (accept : Ordering → Bool) : Value :=
  boolean ((a.compare? b).any accept)

/-- The value of a binary operator.  Arithmetic takes any value for the number it counts as. -/
def binary : BinaryOp → Value → Value → Value
  | .add, a, b => number (a.toNumber.add b.toNumber)
  | .sub, a, b => number (a.toNumber.sub b.toNumber)
  | .mul, a, b => number (a.toNumber.mul b.toNumber)
  | .div, a, b => number (a.toNumber.div b.toNumber)
  | .mod, a, b => number (a.toNumber.rem b.toNumber)
  | .less, a, b => ordered a b Ordering.isLT
  | .greater, a, b => ordered a b Ordering.isGT
  | .lessEqual, a, b => ordered a b Ordering.isLE
  | .greaterEqual, a, b => ordered a b Ordering.isGE
  | .equal, a, b => boolean (a.strictEqual b)
  | .notEqual, a, b => boolean (!a.looseEqual b)

def logical : LogicalOp → Value → Value → Value
  | .and, a, b => boolean (a.isTruthy && b.isTruthy)
  | .or, a, b => boolean (a.isTruthy || b.isTruthy)

def unary : UnaryOp → Value → Value
  | .negate, a => number a.toNumber.neg
  | .not, a => boolean (!a.isTruthy)

def isString : Value → Bool
  | string _ => true
  | _ => false

/-- What a variable holds after an assignment, given what it held and the value on the right.  An
added string is appended. -/
def assigned (op : AssignOp) (old new : Value) : Value :=
  match op.applies? with
  | none => new
  | some .add =>
    if old.isString || new.isString then string (old.display ++ new.display)
    else binary .add old new
  | some op => binary op old new

/-! ## What an assignment stores -/

/-- What an assignment makes of the value that its variable held and the value on its right. -/
inductive Combines : AssignOp → Value → Value → Value → Prop
  | assign (old new : Value) : Combines .assign old new new
  /-- With a string on either side, texts are joined. -/
  | join {old new : Value} (text : (∃ s, old = string s) ∨ ∃ s, new = string s) :
      Combines .add old new (string (old.display ++ new.display))
  | add {old new : Value} (numeric : ¬((∃ s, old = string s) ∨ ∃ s, new = string s)) :
      Combines .add old new (number (old.toNumber.add new.toNumber))
  | sub (old new : Value) : Combines .sub old new (number (old.toNumber.sub new.toNumber))
  | mul (old new : Value) : Combines .mul old new (number (old.toNumber.mul new.toNumber))
  | div (old new : Value) : Combines .div old new (number (old.toNumber.div new.toNumber))
  | mod (old new : Value) : Combines .mod old new (number (old.toNumber.rem new.toNumber))

section Combines

variable {op : AssignOp} {old new v : Value}

theorem isString_iff : v.isString = true ↔ ∃ s, v = string s := by
  cases v with
  | string s => exact ⟨fun _ => ⟨s, rfl⟩, fun _ => rfl⟩
  | _ =>
    constructor
    · intro h
      cases h
    · rintro ⟨s, hs⟩
      cases hs

theorem joins_iff : (old.isString || new.isString) = true ↔
    (∃ s, old = string s) ∨ ∃ s, new = string s := by
  rw [Bool.or_eq_true, isString_iff, isString_iff]

/-- Unless texts are joined, a compound assignment stores what its operator gives. -/
theorem combines_binary {operator : BinaryOp} (happlies : op.applies? = some operator)
    (h : operator = .add → ¬((∃ s, old = string s) ∨ ∃ s, new = string s)) :
    Combines op old new (binary operator old new) := by
  cases op with
  | assign => cases happlies
  | add =>
    cases happlies
    exact .add (h rfl)
  | sub =>
    cases happlies
    exact .sub old new
  | mul =>
    cases happlies
    exact .mul old new
  | div =>
    cases happlies
    exact .div old new
  | mod =>
    cases happlies
    exact .mod old new

/-- What is stored follows one of the rules. -/
theorem combines_assigned (op : AssignOp) (old new : Value) :
    Combines op old new (assigned op old new) := by
  unfold assigned
  split
  · next happlies =>
    cases op with
    | assign => exact .assign old new
    | _ => cases happlies
  · next happlies =>
    split
    · next htext =>
      cases op with
      | add => exact .join (joins_iff.mp htext)
      | _ => cases happlies
    · next hnumeric => exact combines_binary happlies fun _ => mt joins_iff.mpr hnumeric
  · next hne happlies => exact combines_binary happlies fun hadd => absurd hadd hne

/-- No rule leaves a choice. -/
theorem Combines.eq_assigned (h : Combines op old new v) : v = assigned op old new := by
  cases h with
  | join text => exact (if_pos (joins_iff.mpr text)).symm
  | add numeric => exact (if_neg (mt joins_iff.mp numeric)).symm
  | assign | sub | mul | div | mod => rfl

/-- **What an assignment stores is the combination** of what its variable held with the value on its
right. -/
theorem combines_iff : Combines op old new v ↔ v = assigned op old new :=
  ⟨Combines.eq_assigned, fun h => h ▸ combines_assigned op old new⟩

end Combines

/-! ## Members -/

/-- The index that a key denotes. -/
def toIndex? : Value → Option Nat
  | number n => n.toIndex?
  | _ => none

/-- The key asks for a length. -/
def isLengthKey : Value → Bool
  | string s => s = "length"
  | _ => false

/-- The member of a value at a key, or nothing if the value has no members at all.  A member that
is not there is `undefined`. -/
def member? (target key : Value) : Option Value :=
  match target with
  | array _ vs =>
    if key.isLengthKey then some (number (.ofLength vs.length))
    else some ((key.toIndex?.bind fun i => vs[i]?).getD undefined)
  | string s =>
    if key.isLengthKey then some (number (.ofLength s.length))
    else
      some (((key.toIndex?.bind fun i => s.toList[i]?).map
        fun c => string (String.singleton c)).getD undefined)
  | object _ ps => some ((ps.lookup key.display).getD undefined)
  | _ => none

end Script.Value
