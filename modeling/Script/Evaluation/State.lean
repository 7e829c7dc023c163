import Script.Output
import Script.Store
import Script.Value.Display

/-!
# What an evaluation changes

The store of variables, the identities already given out, how many calls are active, and the
output.  Native functions are the ones that reach the output, and for a host also the variables of
the scope they are called in.
-/

namespace Script

structure State where
  store : Store
  /-- The next identity that no value has yet. -/
  nextIdentity : Nat
  /-- How many calls of functions written in the language are active. -/
  depth : Nat
  output : Output

namespace State

/-- The state before anything has run. -/
def initial (output : Output) : State := ⟨.empty, 0, 0, output⟩

/-- Changes the store. -/
def onStore {α : Type} (state : State) (change : Store → α × Store) : α × State :=
  let { store, nextIdentity, depth, output } := state
  let (result, store) := change store
  (result, { store, nextIdentity, depth, output })

/-- An identity that no value has yet. -/
def freshIdentity (state : State) : Nat × State :=
  (state.nextIdentity, { state with nextIdentity := state.nextIdentity + 1 })

end State

namespace Native

/-- Writes to the output; a write gives `undefined`. -/
def writeText (text : String) (state : State) : Except String Value × State :=
  let { store, nextIdentity, depth, output } := state
  let (outcome, output) := output.write text
  let result := match outcome with
    | .ok _ => .ok .undefined
    | .error e => .error ("Failed to write output: " ++ e.message)
  (result, { store, nextIdentity, depth, output })

/-- Calls a native function from the given scope.  An argument that is missing is `undefined`, and a
name is the display form of its argument. -/
def invoke (native : Native) (arguments : List Value) (scope : Scope) (state : State) :
    Except String Value × State :=
  let first := arguments.headD .undefined
  let second := arguments.tail.headD .undefined
  match native with
  | write => writeText first.display state
  | writeLine => writeText (first.display ++ "\n") state
  | assert => (if first.isTruthy then .ok (.boolean true) else .error "Assertion failed", state)
  | peek =>
    let name := first.display
    match state.store.lookup name scope with
    | some value => (.ok value, state)
    | none => (.error ("no variable " ++ name), state)
  | poke =>
    let (changed, state) := state.onStore fun store => store.set scope first.display second
    (.ok (.boolean changed), state)
  | define =>
    let (changed, state) := state.onStore fun store => store.declare scope first.display second
    (.ok (.boolean changed), state)
  | fail => (.error first.display, state)
  | typeName => (.ok (.string first.typeName), state)
  | collect _ =>
    let (identity, state) := state.freshIdentity
    (.ok (.array identity arguments), state)

end Native

end Script
