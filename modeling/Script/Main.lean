import Script.CommandLine.Report

/-!
# The command line program

Reads arguments, files and lines, and writes what the library answers.
-/

namespace Script.CommandLine

/-- The number of an error; some come as their complement. -/
def errorNumber (code : UInt32) : Nat :=
  if code.toNat < 0x80000000 then code.toNat else UInt32.size - code.toNat

/-- What the operating system says when a file cannot be read. -/
def fileError : IO.Error → FileError
  | .noFileOrDirectory _ code _ => .system "No such file or directory" (errorNumber code)
  | .permissionDenied _ code _ => .system "Permission denied" (errorNumber code)
  | .inappropriateType _ code _ =>
    .system (if errorNumber code = 20 then "Not a directory" else "Is a directory")
      (errorNumber code)
  | .invalidArgument _ code details => .system details (errorNumber code)
  | .hardwareFault code details => .system details (errorNumber code)
  | e => .system (toString e) 0

/-- Writes a report and ends with its status. -/
def conclude (report : Report) : IO UInt32 := do
  IO.print report.stdout
  IO.eprint report.stderr
  return UInt32.ofNat report.status

/-- A report that took too many steps to finish is not there. -/
def concludeWithin (report : Option Report) : IO UInt32 :=
  match report with
  | some report => conclude report
  | none => conclude (.failure "Too many steps")

/-- The bytes of the next line behind `line`, with the line feed that ends it if there is one.  The
last byte comes first. -/
partial def readLine (input : IO.FS.Stream) (line : List UInt8) : IO (List UInt8) := do
  match (← input.read 1).data.toList with
  | [] => return line
  | byte :: _ => if byte = 10 then return byte :: line else readLine input (byte :: line)

/-- The next line of input, or nothing at the end of the input. -/
def nextLine (input : IO.FS.Stream) : IO (Option (Except FileError String)) := do
  match ← readLine input [] with
  | [] => return none
  | line => return some (lineOfReversed line)

/-- Asks for one line after another until the input ends. -/
partial def converse (session : Session) (input : IO.FS.Stream) : IO UInt32 := do
  IO.print Conversation.prompt
  (← IO.getStdout).flush
  match ← nextLine input with
  | none => conclude ⟨0, Conversation.farewell, ""⟩
  | some (.error e) => conclude ⟨1, "", Conversation.complaint e⟩
  | some (.ok line) =>
    match Conversation.answer session stepLimit line with
    | none => conclude (.failure "Too many steps")
    | some (report, session) =>
      let _ ← conclude report
      converse session input

/-- Reads the script that a file holds. -/
def readSource (file : String) : IO (Except FileError String) := do
  try
    return textOfBytes (← IO.FS.readBinFile file)
  catch e => return .error (fileError e)

/-- Does what the arguments ask for. -/
def serve (arguments : List String) : IO UInt32 := do
  match Request.ofArguments arguments with
  | .version => conclude .version
  | .help => conclude .help
  | .refuse => conclude .refusal
  | .run options =>
    match options.contents with
    | none => converse options.session (← IO.getStdin)
    | some contents =>
      if options.file then
        match ← readSource contents with
        | .ok source => concludeWithin (options.report stepLimit contents source)
        | .error e => conclude (.unreadable contents e)
      else concludeWithin (options.report stepLimit inlineName contents)

end Script.CommandLine

def main (arguments : List String) : IO UInt32 := Script.CommandLine.serve arguments
