import Script.Session

/-!
# The arguments of the command line

Flags may stand before and behind the one positional argument, short flags may be joined, and
behind `--` everything is positional.  The arguments are read from left to right, and the first
thing that settles the matter does: a refusal, or a flag that asks for the version or for help.
-/

namespace Script

/-- What the arguments ask for. -/
structure Options where
  /-- The positional argument is the name of a file, and not a script itself. -/
  file : Bool := false
  /-- The value of the script is written at the end. -/
  pipe : Bool := false
  /-- The tokens of the script are shown instead of running it. -/
  tokens : Bool := false
  /-- The syntax tree of the script is shown instead of running it. -/
  tree : Bool := false
  callLimit : Option Nat := none
  contents : Option String := none
deriving DecidableEq, Repr

/-- What to do. -/
inductive Request where
  | run (options : Options)
  | version
  | help
  /-- The arguments make no sense. -/
  | refuse
deriving DecidableEq, Repr

namespace Options

/-- The flags that are on or off. -/
inductive Switch where
  | file
  | pipe
  | tokens
  | tree
deriving DecidableEq, Repr

def isOn (options : Options) : Switch → Bool
  | .file => options.file
  | .pipe => options.pipe
  | .tokens => options.tokens
  | .tree => options.tree

def turnOn (options : Options) : Switch → Options
  | .file => { options with file := true }
  | .pipe => { options with pipe := true }
  | .tokens => { options with tokens := true }
  | .tree => { options with tree := true }

/-- A flag, whichever way it is written. -/
inductive Flag where
  | switch (switch : Switch)
  | callLimit
  | version
  | help
deriving DecidableEq, Repr

def Flag.ofShort? : Char → Option Flag
  | 'f' => some (switch .file)
  | 'p' => some (switch .pipe)
  | 'V' => some version
  | 'h' => some help
  | _ => none

def Flag.ofLong? : String → Option Flag
  | "file" => some (switch .file)
  | "pipe-mode" => some (switch .pipe)
  | "tokens" => some (switch .tokens)
  | "ast" => some (switch .tree)
  | "max-call-depth" => some callLimit
  | "version" => some version
  | "help" => some help
  | _ => none

/-- A limit is a natural number below `2 ^ 64`, with a plus sign or without. -/
def readLimit? (text : String) : Option Nat :=
  let digits := match text.toList with
    | '+' :: ds => ds
    | ds => ds
  if digits ≠ [] ∧ digits.all Char.isDigit ∧ digitsValue digits < UInt64.size then
    some (digitsValue digits)
  else none

/-- The options with a limit.  A second one is refused. -/
def withLimit? (options : Options) (text : String) : Option Options :=
  match options.callLimit, readLimit? text with
  | none, some limit => some { options with callLimit := some limit }
  | _, _ => none

/-- The options with the positional argument.  A second one is refused. -/
def withContents? (options : Options) (text : String) : Option Options :=
  match options.contents with
  | none => some { options with contents := some text }
  | some _ => none

/-- Applies short flags that are joined.  A flag that is on is refused, and so is one that needs a
value: none has a short form. -/
def applyShort (options : Options) : List Char → Except Request Options
  | [] => .ok options
  | c :: cs =>
    match Flag.ofShort? c with
    | some (.switch s) =>
      if options.isOn s then .error .refuse else applyShort (options.turnOn s) cs
    | some .version => .error .version
    | some .help => .error .help
    | some .callLimit | none => .error .refuse

/-- Splits a long flag from the value that is attached to it with an equals sign. -/
def splitValue (text : List Char) : String × Option String :=
  let name := String.ofList (text.takeWhile (· ≠ '='))
  match text.dropWhile (· ≠ '=') with
  | [] => (name, none)
  | _ :: value => (name, some (String.ofList value))

/-- The options are complete.  Tokens and tree exclude each other. -/
def finish (options : Options) : Request :=
  if options.tokens && options.tree then .refuse else .run options

/-- Everything left is positional. -/
def readPositional (options : Options) : List String → Request
  | [] => options.finish
  | text :: rest =>
    match options.withContents? text with
    | some options => readPositional options rest
    | none => .refuse

/-- Reads the arguments that are left. -/
def read (options : Options) : List String → Request
  | [] => options.finish
  | argument :: rest =>
    match argument.toList with
    | ['-', '-'] => options.readPositional rest
    | '-' :: '-' :: text =>
      let (name, value) := splitValue text
      match Flag.ofLong? name, value with
      | some (.switch s), none => if options.isOn s then .refuse else read (options.turnOn s) rest
      | some .version, none => .version
      | some .help, none => .help
      | some .callLimit, some value =>
        match options.withLimit? value with
        | some options => read options rest
        | none => .refuse
      | some .callLimit, none =>
        match rest with
        | [] => .refuse
        | value :: rest =>
          -- A dash in front makes a flag of it, and then the value is missing; a limit has none.
          match options.withLimit? value with
          | some options => read options rest
          | none => .refuse
      | _, _ => .refuse
    | '-' :: c :: cs =>
      match options.applyShort (c :: cs) with
      | .ok options => read options rest
      | .error request => request
    | _ =>
      match options.withContents? argument with
      | some options => read options rest
      | none => .refuse

end Options

/-- What the arguments ask for. -/
def Request.ofArguments (arguments : List String) : Request := Options.read {} arguments

end Script
