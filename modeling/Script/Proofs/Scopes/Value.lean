import Script.Proofs.Scopes.Store
import Script.Value.Operators

/-!
# What values are made of

Values hold other values, and in the end functions and native functions.  `Value.Holds closure
native` says that each of those inside a value satisfies a condition: `closure` for a function with
the scope it was made in, `native` for a native one.  Operators and accesses make nothing new of
this kind, so what they give satisfies the conditions if their operands do.
-/

namespace Script

/-- All functions inside a value satisfy `closure`, and all native ones `native`. -/
inductive Value.Holds (closure : Function → Scope → Prop) (native : Native → Prop) : Value → Prop
  | number (value : Number) : Holds closure native (.number value)
  | string (value : String) : Holds closure native (.string value)
  | boolean (value : Bool) : Holds closure native (.boolean value)
  | null : Holds closure native .null
  | undefined : Holds closure native .undefined
  | array (identity : Nat) {elements : List Value}
      (inside : ∀ v ∈ elements, Holds closure native v) :
      Holds closure native (.array identity elements)
  | object (identity : Nat) {properties : List (String × Value)}
      (inside : ∀ p ∈ properties, Holds closure native p.2) :
      Holds closure native (.object identity properties)
  | function (identity : Nat) (name : Option String) {function : Function} {scope : Scope}
      (here : closure function scope) :
      Holds closure native (.function identity name function scope)
  | native (identity : Nat) {f : Native} (here : native f) :
      Holds closure native (.native identity f)

namespace Value

variable {closure closure' : Function → Scope → Prop} {native : Native → Prop} {v w : Value}

theorem Holds.mono (h : v.Holds closure native)
    (weaker : ∀ function scope, closure function scope → closure' function scope) :
    v.Holds closure' native := by
  induction h with
  | number => exact .number _
  | string => exact .string _
  | boolean => exact .boolean _
  | null => exact .null
  | undefined => exact .undefined
  | array identity _ ih => exact .array identity ih
  | object identity _ ih => exact .object identity ih
  | function identity name here => exact .function identity name (weaker _ _ here)
  | native identity here => exact .native identity here

theorem holds_ofConstant (constant : Constant) : (ofConstant constant).Holds closure native := by
  cases constant with
  | null => exact .null
  | undefined => exact .undefined
  | true => exact .boolean _
  | false => exact .boolean _

theorem holds_binary (op : BinaryOp) (a b : Value) : (binary op a b).Holds closure native := by
  cases op <;> constructor

theorem holds_logical (op : LogicalOp) (a b : Value) : (logical op a b).Holds closure native := by
  cases op <;> constructor

theorem holds_unary (op : UnaryOp) (a : Value) : (unary op a).Holds closure native := by
  cases op with
  | negate => exact .number _
  | not => exact .boolean _

theorem Holds.assigned (op : AssignOp) (old : Value) {new : Value} (h : new.Holds closure native) :
    (Value.assigned op old new).Holds closure native := by
  have hstored := combines_assigned op old new
  generalize Value.assigned op old new = stored at hstored ⊢
  cases hstored with
  | assign => exact h
  | join => exact .string _
  | add | sub | mul | div | mod => exact .number _

/-- What a value has inside is as good as the value. -/
theorem Holds.member {key : Value} (h : v.Holds closure native) (hm : v.member? key = some w) :
    w.Holds closure native := by
  cases h with
  | array identity inside =>
    rw [member?] at hm
    split at hm
    · cases hm
      exact .number _
    · cases hm
      cases hat : key.toIndex?.bind fun i => _ with
      | none => exact .undefined
      | some element =>
        obtain ⟨i, -, hi⟩ := Option.bind_eq_some_iff.mp hat
        exact inside element (List.mem_of_getElem? hi)
  | string s =>
    rw [member?] at hm
    split at hm
    · cases hm
      exact .number _
    · cases hm
      cases key.toIndex?.bind fun i => s.toList[i]? with
      | none => exact .undefined
      | some c => exact .string _
  | @object identity properties inside =>
    cases hm
    cases hat : properties.lookup key.display with
    | none => exact .undefined
    | some value => exact inside (_, value) (Bindings.mem_of_lookup hat)
  | _ => cases hm

end Value

theorem mem_insertProperty {properties : List (String × Value)} {key : String} {value : Value}
    {p : String × Value} (h : p ∈ insertProperty properties key value) :
    p ∈ properties ∨ p.2 = value := by
  induction properties with
  | nil =>
    rw [List.mem_singleton.mp h]
    exact .inr rfl
  | cons head rest ih =>
    rw [insertProperty] at h
    split at h
    · rcases List.mem_cons.mp h with rfl | h
      · exact .inr rfl
      · exact .inl (List.mem_cons_of_mem _ h)
    · rcases List.mem_cons.mp h with rfl | h
      · exact .inl List.mem_cons_self
      · exact (ih h).imp_left (List.mem_cons_of_mem _)

end Script
