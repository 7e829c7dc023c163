import Script.CommandLine.Options
import Script.Dump

/-!
# What the command line answers

A script given on the command line or in a file is run once, or shown as tokens or as a tree.
Without a script the user is asked for one line after another, all of one session.
-/

namespace Script

/-- Why a file cannot be read. -/
inductive FileError where
  /-- The operating system refuses. -/
  | system (description : String) (code : Nat)
  | notText
deriving DecidableEq, Repr

def FileError.message : FileError → String
  | system description code => description ++ " (os error " ++ toString code ++ ")"
  | notText => "stream did not contain valid UTF-8"

/-- What is written, and with which status the program ends. -/
structure Report where
  status : Nat
  stdout : String
  stderr : String
deriving DecidableEq, Repr

namespace Report

def version : Report := ⟨0, "quill 0.1.0\n", ""⟩

def help : Report :=
  ⟨0, "Usage: quill [-f] [-p] [--max-call-depth N] [--tokens | --ast] [CONTENTS]\n", ""⟩

/-- The arguments make no sense. -/
def refusal : Report :=
  ⟨2, "", "error: unexpected arguments\n\nFor more information, try '--help'.\n"⟩

/-- A single complaint. -/
def failure (message : String) : Report := ⟨1, "", message ++ "\n"⟩

def ofDiagnostic (d : Diagnostic) : Report := failure d.message

def unreadable (file : String) (e : FileError) : Report :=
  failure ("Failed to read the input file '" ++ file ++ "': " ++ e.message)

/-- Shows the tokens of a source. -/
def ofTokens (file source : String) : Report :=
  match Lexeme.scan source with
  | .ok lexemes => ⟨0, (Dump.list (lexemes.map Lexeme.dump)).display ++ "\n", ""⟩
  | .error e => ofDiagnostic ⟨file, .lex e⟩

/-- Shows the syntax tree of a source. -/
def ofTree (file source : String) : Report :=
  match Program.ofSource file source with
  | .ok program => ⟨0, program.dump.display ++ "\n", ""⟩
  | .error d => ofDiagnostic d

/-- What was written, and at the end the value if that is asked for, or the complaint. -/
def ofOutcome (written : String) (showValue : Bool) : Except Diagnostic Value → Report
  | .ok value => ⟨0, if showValue then written ++ value.display ++ "\n" else written, ""⟩
  | .error d => ⟨1, written, d.message ++ "\n"⟩

end Report

namespace Options

/-- A new session with the call limit that is asked for. -/
def session (options : Options) : Session :=
  Session.start (options.callLimit.getD defaultCallLimit) .unbounded

/-- Runs or shows a source, within so many steps. -/
def report (options : Options) (steps : Nat) (file source : String) : Option Report :=
  if options.tree then some (.ofTree file source)
  else if options.tokens then some (.ofTokens file source)
  else (options.session.run steps file source).map fun (outcome, session) =>
    .ofOutcome (session.state.output.textFrom 0) options.pipe outcome

end Options

/-- A script that is given as an argument has this name. -/
def inlineName : String := "<inline>"

/-! ## Conversations -/

namespace Conversation

/-- A line of a conversation has this name. -/
def lineName : String := "<repl>"

def prompt : String := "> "

/-- What is written when the input ends behind a prompt. -/
def farewell : String := "\n"

/-- What is written when the input cannot be read. -/
def complaint (e : FileError) : String := "Failed to read input: " ++ e.message ++ "\n"

/-- The line holds nothing to run. -/
def isBlankLine (line : String) : Bool := Text.trim line.toList = []

/-- Runs one line.  The answer is its value or its complaint, behind what it wrote. -/
def answer (session : Session) (steps : Nat) (line : String) : Option (Report × Session) :=
  if isBlankLine line then some (⟨0, "", ""⟩, session)
  else
    let start := session.state.output.written.size
    (session.run steps lineName line).map fun (outcome, session) =>
      (.ofOutcome (session.state.output.textFrom start) true outcome, session)

/-- A whole conversation, behind what has been written so far.  The input may break off at a line
that is not text. -/
def hold (session : Session) (steps : Nat) (stdout stderr : String) :
    List (Except FileError String) → Option Report
  | [] => some ⟨0, stdout ++ prompt ++ farewell, stderr⟩
  | .error e :: _ => some ⟨1, stdout ++ prompt, stderr ++ complaint e⟩
  | .ok line :: rest =>
    match answer session steps line with
    | some (report, session) =>
      hold session steps (stdout ++ prompt ++ report.stdout) (stderr ++ report.stderr) rest
    | none => none

end Conversation

/-! ## Lines of input -/

/-- The text of some bytes. -/
def textOfBytes (bytes : ByteArray) : Except FileError String :=
  match String.fromUTF8? bytes with
  | some text => .ok text
  | none => .error .notText

/-- A line without the line feed that ends it, nor the carriage return before that.  The bytes come
with the last one first. -/
def lineOfReversed : List UInt8 → Except FileError String
  | 10 :: 13 :: bytes => textOfBytes ⟨bytes.reverse.toArray⟩
  | 10 :: bytes => textOfBytes ⟨bytes.reverse.toArray⟩
  | bytes => textOfBytes ⟨bytes.reverse.toArray⟩

/-- Cuts bytes into lines.  `line` holds the bytes of the line so far and `done` the lines before,
both with the last one first. -/
def splitLines (line : List UInt8) (done : List (Except FileError String)) :
    List UInt8 → List (Except FileError String)
  | [] => (if line = [] then done else lineOfReversed line :: done).reverse
  | byte :: rest =>
    if byte = 10 then splitLines [] (lineOfReversed (byte :: line) :: done) rest
    else splitLines (byte :: line) done rest

/-- The lines of an input. -/
def linesOfBytes (bytes : ByteArray) : List (Except FileError String) :=
  splitLines [] [] bytes.data.toList

/-- The whole program: the arguments, how to read a file, and all of the input. -/
def Report.ofInvocation (steps : Nat) (arguments : List String)
    (readFile : String → Except FileError ByteArray) (stdin : ByteArray) : Option Report :=
  match Request.ofArguments arguments with
  | .version => some version
  | .help => some help
  | .refuse => some refusal
  | .run options =>
    match options.contents with
    | none => Conversation.hold options.session steps "" "" (linesOfBytes stdin)
    | some contents =>
      if options.file then
        match readFile contents >>= textOfBytes with
        | .ok source => options.report steps contents source
        | .error e => some (unreadable contents e)
      else options.report steps inlineName contents

end Script
