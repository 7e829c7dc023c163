import Script.Syntax.Basic

/-!
# Values

What an expression evaluates to.  Arrays and objects never change once they are built, so a value
holds its contents; but each array, object and function also has an identity, given to it when it
was built, and two of them are the same value only if their identities agree.  The variables do
change: a function does not hold the variables around it, but the scope to look for them in.
-/

namespace Script

/-- A chain of frames, from the innermost to the outermost.  What the frames hold is in a
`Store`. -/
inductive Scope where
  | root (frame : Nat)
  | inner (frame : Nat) (parent : Scope)
deriving DecidableEq, Repr

namespace Scope

/-- The innermost frame, where declarations go. -/
def frame : Scope → Nat
  | root frame => frame
  | inner frame _ => frame

/-- All frames, from the innermost. -/
def frames : Scope → List Nat
  | root frame => [frame]
  | inner frame parent => frame :: parent.frames

end Scope

/-- The functions that are not written in the language.  The first three are always at hand; the
others are for a host that looks into a running script. -/
inductive Native where
  /-- Writes the display form of its argument to the output. -/
  | write
  /-- Writes the display form of its argument and a line feed. -/
  | writeLine
  /-- Fails unless its argument is truthy. -/
  | assert
  /-- The value of the variable with the given name. -/
  | peek
  /-- Assigns to the variable with the given name, and says whether there is one. -/
  | poke
  /-- Declares a variable with the given name, and says whether the name was free. -/
  | define
  /-- Fails with the display form of its argument. -/
  | fail
  /-- The name of the type of its argument. -/
  | typeName
  /-- All arguments, as an array. -/
  | collect (name : String)
deriving DecidableEq, Repr

def Native.name : Native → String
  | write => "write"
  | writeLine => "writeln"
  | assert => "assert"
  | peek => "peek"
  | poke => "poke"
  | define => "define"
  | fail => "fail"
  | typeName => "typeof"
  | collect name => name

inductive Value where
  | number (value : Number)
  | string (value : String)
  | boolean (value : Bool)
  | null
  | undefined
  | array (identity : Nat) (elements : List Value)
  /-- The keys of an object are distinct, and in the order in which they came. -/
  | object (identity : Nat) (properties : List (String × Value))
  /-- A function and the scope that its body looks for variables in. -/
  | function (identity : Nat) (name : Option String) (function : Function) (scope : Scope)
  | native (identity : Nat) (native : Native)

namespace Value

def typeName : Value → String
  | number _ => "number"
  | string _ => "string"
  | boolean _ => "boolean"
  | null => "null"
  | undefined => "undefined"
  | array _ _ => "array"
  | object _ _ => "object"
  | function _ _ _ _ => "function"
  | native _ _ => "native-function"

/-- Only `null`, `undefined` and `false` are not truthy. -/
def isTruthy : Value → Bool
  | null | undefined => false
  | boolean b => b
  | _ => true

/-- The number that a value counts as in arithmetic: a number is itself, anything else is one if it
is truthy and zero if not. -/
def toNumber : Value → Number
  | number n => n
  | null | undefined | boolean false => .zero
  | _ => .one

def ofConstant : Constant → Value
  | .null => null
  | .undefined => undefined
  | .true => boolean true
  | .false => boolean false

end Value

/-- The properties of an object with one more: a key that is there keeps its place and gets the new
value. -/
def insertProperty (properties : List (String × Value)) (key : String) (value : Value) :
    List (String × Value) :=
  match properties with
  | [] => [(key, value)]
  | (k, v) :: rest =>
    if k = key then (k, value) :: rest else (k, v) :: insertProperty rest key value

end Script
