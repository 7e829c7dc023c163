import Script.Value.Basic

/-!
# The display form of values

A string shows as it is, but in double quotes inside an array or an object.  The form is written
piece by piece from a list of what is still to come, so that values may nest to any depth; the
pieces of a value weigh less than the value, and so the list comes to an end.
-/

namespace Script

/-- Part of a display form: a text, or a value that is not yet written out. -/
inductive Piece where
  | text (text : String)
  | value (value : Value)

namespace Piece

/-- A value inside an array or an object. -/
def nested : Value → Piece
  | .string s => text ("\"" ++ s ++ "\"")
  | v => value v

/-- The elements of an array, with a comma before each. -/
def elements (vs : List Value) : List Piece :=
  vs.flatMap fun v => [text ", ", nested v]

/-- The properties of an object, with a comma before each. -/
def properties (ps : List (String × Value)) : List Piece :=
  ps.flatMap fun (key, v) => [text ", ", text (key ++ ": "), nested v]

/-- The pieces of a value. -/
def ofValue : Value → List Piece
  | .number n => [text n.display]
  | .string s => [text s]
  | .boolean b => [text (if b then "true" else "false")]
  | .null => [text "null"]
  | .undefined => [text "undefined"]
  | .array _ vs => text "[" :: ((elements vs).tail ++ [text "]"])
  | .object _ [] => [text "\x7b\x7d"]
  | .object _ ps => text "\x7b " :: ((properties ps).tail ++ [text " \x7d"])
  | .function _ name _ _ => [text ("[function " ++ name.getD "anonymous" ++ "]")]
  | .native _ n => [text ("[native " ++ n.name ++ "]")]

/-- The weight of a piece bounds the number of pieces that come of it. -/
noncomputable def weight : Piece → Nat
  | text _ => 1
  | value v => 4 * sizeOf v

/-- The weight of a list of pieces. -/
noncomputable def weights : List Piece → Nat
  | [] => 0
  | piece :: pieces => piece.weight + weights pieces

@[simp] theorem weight_text (t : String) : (text t).weight = 1 := rfl

@[simp] theorem weight_value (v : Value) : (value v).weight = 4 * sizeOf v := rfl

@[simp] theorem weights_nil : weights [] = 0 := rfl

@[simp] theorem weights_cons (p : Piece) (ps : List Piece) :
    weights (p :: ps) = p.weight + weights ps := rfl

@[simp] theorem weights_append (ps qs : List Piece) :
    weights (ps ++ qs) = weights ps + weights qs := by
  induction ps with
  | nil => simp
  | cons p ps ih => simp [ih, Nat.add_assoc]

theorem weight_nested_le (v : Value) : (nested v).weight ≤ 4 * sizeOf v := by
  cases v <;> simp [nested]
  omega

theorem weights_elements_le (vs : List Value) : weights (elements vs) ≤ 4 * sizeOf vs := by
  induction vs with
  | nil => simp [elements]
  | cons v vs ih =>
    have := weight_nested_le v
    simp only [elements, List.flatMap_cons, weights_append, weights_cons, weights_nil, weight_text,
      List.cons.sizeOf_spec] at ih ⊢
    omega

theorem weights_properties_le (ps : List (String × Value)) :
    weights (properties ps) ≤ 4 * sizeOf ps := by
  induction ps with
  | nil => simp [properties]
  | cons p ps ih =>
    obtain ⟨key, v⟩ := p
    have := weight_nested_le v
    simp only [properties, List.flatMap_cons, weights_append, weights_cons, weights_nil,
      weight_text, List.cons.sizeOf_spec, Prod.mk.sizeOf_spec] at ih ⊢
    omega

theorem weights_tail_le (pieces : List Piece) : weights pieces.tail ≤ weights pieces := by
  cases pieces <;> simp

theorem weights_ofValue_lt (v : Value) : weights (ofValue v) < (value v).weight := by
  cases v with
  | array id vs =>
    have h₁ := weights_tail_le (elements vs)
    have h₂ := weights_elements_le vs
    simp only [ofValue, weights_cons, weights_append, weights_nil, weight_text, weight_value,
      Value.array.sizeOf_spec]
    omega
  | object id ps =>
    have h₁ := weights_tail_le (properties ps)
    have h₂ := weights_properties_le ps
    cases ps with
    | nil => simp [ofValue]; omega
    | cons p ps =>
      simp only [ofValue, weights_cons, weights_append, weights_nil, weight_text, weight_value,
        Value.object.sizeOf_spec] at h₁ h₂ ⊢
      omega
  | _ => simp [ofValue] <;> omega

/-- Writes out a list of pieces behind what is already written. -/
def write (written : String) : List Piece → String
  | [] => written
  | text t :: rest => write (written ++ t) rest
  | value v :: rest => write written (ofValue v ++ rest)
termination_by pieces => weights pieces
decreasing_by
  · simp
  · have := weights_ofValue_lt v
    simp only [weights_append, weights_cons]
    omega

end Piece

/-- The display form of a value. -/
def Value.display (v : Value) : String := Piece.write "" [.value v]

/-- A value that is one text is displayed as it. -/
theorem Value.display_of_text {v : Value} {t : String} (h : Piece.ofValue v = [.text t]) :
    v.display = t := by
  rw [display, Piece.write, h, List.append_nil, Piece.write, Piece.write, String.empty_append]

end Script
