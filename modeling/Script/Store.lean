import Script.Value.Basic

/-!
# Where variables live

A store holds the frames of all scopes.  A scope is a chain of frames, and a variable belongs to
the nearest frame on the chain that has its name: that is where it is looked up and assigned.  A
declaration goes to the innermost frame, which must not have the name yet.
-/

namespace Script

/-- The variables of one frame. -/
abbrev Bindings := List (String × Value)

/-- The variables with one of them changed. -/
def Bindings.assign (bindings : Bindings) (name : String) (value : Value) : Bindings :=
  bindings.map fun (n, v) => if n = name then (n, value) else (n, v)

/-- The frames, each under its number. -/
structure Store where
  frames : Array Bindings

namespace Store

def empty : Store := ⟨#[]⟩

/-- The variables of a frame. -/
def bindings (store : Store) (frame : Nat) : Bindings := store.frames[frame]?.getD []

/-- The frame has a variable of this name. -/
def owns (store : Store) (frame : Nat) (name : String) : Bool :=
  ((store.bindings frame).lookup name).isSome

/-- A store with one more frame, and the number of that frame. -/
def allocate (store : Store) (bindings : Bindings) : Nat × Store :=
  (store.frames.size, ⟨store.frames.push bindings⟩)

/-- A new scope with nothing around it. -/
def newRoot (store : Store) : Scope × Store :=
  let (frame, store) := store.allocate []
  (.root frame, store)

/-- A new scope inside another, with its first variables. -/
def newInner (store : Store) (parent : Scope) (bindings : Bindings) : Scope × Store :=
  let (frame, store) := store.allocate bindings
  (.inner frame parent, store)

/-- The nearest frame on a chain that has the name. -/
def owner? (store : Store) (name : String) : Scope → Option Nat
  | .root frame => if store.owns frame name then some frame else none
  | .inner frame parent => if store.owns frame name then some frame else owner? store name parent

/-- The value of a variable, from the nearest frame that has the name. -/
def lookup (store : Store) (name : String) : Scope → Option Value
  | .root frame => (store.bindings frame).lookup name
  | .inner frame parent =>
    match (store.bindings frame).lookup name with
    | some value => some value
    | none => lookup store name parent

/-- Adds a variable to the innermost frame of a scope, unless that frame has the name; says whether
it did. -/
def declare (store : Store) (scope : Scope) (name : String) (value : Value) : Bool × Store :=
  if store.owns scope.frame name then (false, store)
  else (true, ⟨store.frames.modify scope.frame fun bindings => (name, value) :: bindings⟩)

/-- Changes a variable in the nearest frame that has the name; says whether there is one. -/
def set (store : Store) (scope : Scope) (name : String) (value : Value) : Bool × Store :=
  match store.owner? name scope with
  | none => (false, store)
  | some frame =>
    (true, ⟨store.frames.modify frame fun bindings => Bindings.assign bindings name value⟩)

end Store

end Script
