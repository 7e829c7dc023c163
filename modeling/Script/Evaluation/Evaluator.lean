import Script.Evaluation.RuntimeError
import Script.Evaluation.State
import Script.Routine
import Script.Value.Operators

/-!
# Evaluation

Every expression and every statement has a value.  Operands, elements, arguments and statements are
evaluated from left to right, each exactly once; a sequence of statements has the value of the last
one.  Where the evaluation of one piece of syntax needs another it asks for a `Task`, so that
neither nested syntax nor nested calls are limited by anything but the limit on calls.
-/

namespace Script

/-- What can be evaluated, each in a scope. -/
inductive Task where
  /-- The statements of a program. -/
  | program (body : List Stmt) (scope : Scope)
  /-- The body of a function that has been called. -/
  | invocation (body : List Stmt) (scope : Scope)
  | expr (expr : Expr) (scope : Scope)
  | stmt (stmt : Stmt) (scope : Scope)
  /-- What is left of a loop, given the value of its body so far. -/
  | loop (condition : Expr) (body : Block) (scope : Scope) (last : Value)

/-- Every task gives a value. -/
abbrev Eval := Action Task (fun _ => Value) RuntimeError State

namespace Eval

def expr (scope : Scope) (e : Expr) : Eval Value := Action.call (.expr e scope)

def stmt (scope : Scope) (s : Stmt) : Eval Value := Action.call (.stmt s scope)

/-! ## The state -/

def freshIdentity : Eval Nat := modifyGet State.freshIdentity

def lookup? (scope : Scope) (name : String) : Eval (Option Value) := fun state =>
  .done (.ok (state.store.lookup name scope)) state

/-- Declares a variable, and says whether the name was free. -/
def declare (scope : Scope) (name : String) (value : Value) : Eval Bool :=
  modifyGet fun state => state.onStore fun store => store.declare scope name value

/-- Assigns to a variable, and says whether there is one. -/
def assign (scope : Scope) (name : String) (value : Value) : Eval Bool :=
  modifyGet fun state => state.onStore fun store => store.set scope name value

/-- A new scope inside another. -/
def newInner (parent : Scope) (bindings : Bindings) : Eval Scope :=
  modifyGet fun state => state.onStore fun store => store.newInner parent bindings

def depth : Eval Nat := fun state => .done (.ok state.depth) state

/-- Counts one more active call. -/
def enter : Eval Unit := modify fun state => { state with depth := state.depth + 1 }

/-- Counts one active call less. -/
def leave : Eval Unit := modify fun state => { state with depth := state.depth - 1 }

/-! ## Lists -/

/-- The value of a sequence is that of its last statement; `last` is the value so far. -/
def sequence (scope : Scope) (last : Value) : List Stmt → Eval Value
  | [] => return last
  | s :: rest => do
    let value ← stmt scope s
    sequence scope value rest

/-- The values of several expressions; `done` holds the values so far, the last one first. -/
def values (scope : Scope) (done : List Value) : List Expr → Eval (List Value)
  | [] => return done.reverse
  | e :: rest => do
    let value ← expr scope e
    values scope (value :: done) rest

/-- The properties of an object literal; `done` holds the properties so far. -/
def properties (scope : Scope) (done : List (String × Value)) :
    List Property → Eval (List (String × Value))
  | [] => return done
  | .keyed key e _ :: rest => do
    let value ← expr scope e
    properties scope (insertProperty done key value) rest
  | .shorthand name span :: rest => do
    match ← lookup? scope name with
    | some value => properties scope (insertProperty done name value) rest
    | none => throw (.unknownVariable name span)

/-- The value of a declaration is that of its last name.  The names before one that is taken stay
declared. -/
def declarators (scope : Scope) (last : Value) : List Declarator → Eval Value
  | [] => return last
  | d :: rest => do
    let value ← expr scope d.value
    if ← declare scope d.name value then declarators scope value rest
    else throw (.redeclaration d.name d.span)

/-! ## Calls and accesses -/

/-- Each parameter with its argument.  Arguments that are missing are `undefined`, and arguments
that are too many are dropped. -/
def bindParameters : List String → List Value → Bindings
  | [], _ => []
  | name :: names, arguments =>
    (name, arguments.headD .undefined) :: bindParameters names arguments.tail

/-- Runs the body of a function, which counts as an active call until it is over, however it
ends. -/
def invoke (body : List Stmt) (scope : Scope) : Eval Value := do
  enter
  let outcome ← Action.outcome (Action.call (.invocation body scope))
  leave
  match outcome with
  | .ok value => return value
  | .error e => throw e

/-- Calls a value.  `limit` bounds how deeply calls nest. -/
def call (limit : Nat) (callee : Value) (arguments : List Value) (span : Span) (scope : Scope) :
    Eval Value :=
  match callee with
  | .native _ native => fun state =>
    match native.invoke arguments scope state with
    | (.ok value, state) => .done (.ok value) state
    | (.error message, state) => .done (.error (.nativeFailure message span)) state
  | .function _ _ function closure => do
    if limit ≤ (← depth) then throw (.stackOverflow limit span)
    let inner ← newInner closure (bindParameters function.parameters arguments)
    invoke function.body inner
  | other => throw (.notCallable other.typeName span)

/-- The member of a value at a key. -/
def member (target key : Value) (span : Span) : Eval Value :=
  match target.member? key with
  | some value => return value
  | none => throw (.notIndexable target.typeName span)

/-! ## Expressions -/

/-- An assignment looks for its variable first, and evaluates nothing if there is none. -/
def assignment (scope : Scope) (name : String) (op : AssignOp) (e : Expr) (span : Span) :
    Eval Value := do
  match ← lookup? scope name with
  | none => throw (.assignmentToUndeclared name span)
  | some old =>
    let new ← expr scope e
    let value := Value.assigned op old new
    if ← assign scope name value then return value
    else throw (.assignmentToUndeclared name span)

def exprBody (limit : Nat) (scope : Scope) : Expr → Eval Value
  | .number value _ => return .number value
  | .string value _ => return .string value
  | .constant value _ => return .ofConstant value
  | .var name span => do
    match ← lookup? scope name with
    | some value => return value
    | none => throw (.unknownVariable name span)
  | .array elements _ => do
    let values ← values scope [] elements
    return .array (← freshIdentity) values
  | .object entries _ => do
    let properties ← properties scope [] entries
    return .object (← freshIdentity) properties
  | .function name function => return .function (← freshIdentity) name function scope
  | .assign name op value span => assignment scope name op value span
  | .member object name span => do
    let target ← expr scope object
    member target (.string name) span
  | .index object key span => do
    let target ← expr scope object
    let key ← expr scope key
    member target key span
  | .call callee arguments span => do
    let callee ← expr scope callee
    let arguments ← values scope [] arguments
    call limit callee arguments span scope
  | .logical op left right _ => do
    let left ← expr scope left
    let right ← expr scope right
    return .logical op left right
  | .binary op left right _ => do
    let left ← expr scope left
    let right ← expr scope right
    return .binary op left right
  | .unary op operand _ => do
    let operand ← expr scope operand
    return .unary op operand

/-! ## Statements -/

/-- A block has a scope of its own. -/
def block (scope : Scope) (b : Block) : Eval Value := do
  let inner ← newInner scope []
  sequence inner .undefined b.body

def conditional (scope : Scope) (c : Conditional) : Eval Value := do
  if (← expr scope c.condition).isTruthy then block scope c.consequent
  else
    match c.alternate with
    | .absent => return .undefined
    | .block b => block scope b
    | .conditional nested => stmt scope (.conditional nested)

/-- A loop has the value of its body the last time around. -/
def loop (condition : Expr) (body : Block) (scope : Scope) (last : Value) : Eval Value := do
  if (← expr scope condition).isTruthy then
    let value ← block scope body
    Action.call (.loop condition body scope value)
  else
    return last

def stmtBody (scope : Scope) : Stmt → Eval Value
  | .expr e => expr scope e
  | .declaration _ ds _ => declarators scope .undefined ds
  | .function name function => do
    let value := Value.function (← freshIdentity) (some name) function scope
    if ← declare scope name value then return value
    else throw (.redeclaration name function.span)
  | .conditional c => conditional scope c
  | .loop condition body _ => loop condition body scope .undefined
  | .block b => block scope b

/-- How each task is done, with at most `limit` calls inside one another. -/
def body (limit : Nat) : Task → Eval Value
  | .program body scope => sequence scope .undefined body
  | .invocation body scope => sequence scope .undefined body
  | .expr e scope => exprBody limit scope e
  | .stmt s scope => stmtBody scope s
  | .loop condition b scope last => loop condition b scope last

end Eval

/-- The outcome of a task and the state that it leaves, if it is over within so many steps. -/
def Task.run (limit steps : Nat) (task : Task) (state : State) :
    Option (Except RuntimeError Value × State) :=
  Routine.perform (Eval.body limit) steps task state

end Script
