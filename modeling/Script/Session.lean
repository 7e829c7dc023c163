import Script.Diagnostic
import Script.Evaluation.Evaluator
import Script.Lexeme.Scan
import Script.Syntax.Parser

/-!
# Sessions

A session runs sources one after another in one global scope.  What a source declares, assigns and
writes stays, also when the source fails later on.
-/

namespace Script

/-- How many calls may be active unless something else is said. -/
def defaultCallLimit : Nat := 1000

/-- More steps than a run can take in practice.  A loop that never ends would need more. -/
def stepLimit : Nat := 0x4000000000000000

structure Session where
  /-- How many calls may be active. -/
  callLimit : Nat
  /-- The global scope. -/
  scope : Scope
  state : State

namespace Session

/-- A session whose global scope is empty. -/
def bare (callLimit : Nat) (output : Output) : Session :=
  let (scope, state) := (State.initial output).onStore Store.newRoot
  { callLimit, scope, state }

/-- The session with a new, empty global scope; everything else goes on. -/
def renew (session : Session) : Session :=
  let (scope, state) := session.state.onStore Store.newRoot
  { session with scope, state }

/-- Puts a value into the global scope, unless the name is taken. -/
def define (session : Session) (name : String) (value : Value) : Session :=
  let (_, state) := session.state.onStore fun store => store.declare session.scope name value
  { session with state }

def freshIdentity (session : Session) : Nat × Session :=
  let (identity, state) := session.state.freshIdentity
  (identity, { session with state })

/-- Puts a native function into the global scope, unless the name is taken. -/
def defineNative (session : Session) (native : Native) : Session :=
  let (identity, session) := session.freshIdentity
  session.define native.name (.native identity native)

/-- Puts the built-in `log` and `assert` into the global scope. -/
def withBuiltins (session : Session) : Session :=
  let (write, session) := session.freshIdentity
  let (writeLine, session) := session.freshIdentity
  let (log, session) := session.freshIdentity
  let natives : List (String × Value) :=
    [(Native.name .write, .native write .write),
     (Native.name .writeLine, .native writeLine .writeLine)]
  (session.define "log" (.object log natives)).defineNative .assert

/-- Puts the functions of a host that looks into the script into the global scope. -/
def withHost (session : Session) : Session :=
  [Native.peek, .poke, .define, .fail, .collect "args", .typeName].foldl defineNative session

/-- A session with the built-ins. -/
def start (callLimit : Nat) (output : Output) : Session := (bare callLimit output).withBuiltins

end Session

/-- The program that a source is. -/
def Program.ofSource (file source : String) : Except Diagnostic Program := do
  let lexemes ← (Lexeme.scan source).mapError fun e => ⟨file, .lex e⟩
  (Program.parse lexemes).mapError fun e => ⟨file, .parse e⟩

namespace Session

/-- Evaluates a program in the global scope, within so many steps. -/
def evaluate (session : Session) (steps : Nat) (file : String) (program : Program) :
    Option (Except Diagnostic Value × Session) :=
  (Task.run session.callLimit steps (.program program.body session.scope) session.state).map
    fun (outcome, state) =>
      (outcome.mapError fun e => ⟨file, .runtime e⟩, { session with state })

/-- Runs a source in the global scope, within so many steps.  A source that is not a program changes
nothing. -/
def run (session : Session) (steps : Nat) (file source : String) :
    Option (Except Diagnostic Value × Session) :=
  match Program.ofSource file source with
  | .ok program => session.evaluate steps file program
  | .error d => some (.error d, session)

end Session

end Script
