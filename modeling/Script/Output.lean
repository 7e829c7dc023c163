/-!
# Where a script writes to

An output takes bytes.  It may have room for only so many, and it may refuse to be flushed, which
happens after every write; both make a write fail.
-/

namespace Script

/-- Why a write fails. -/
inductive OutputError where
  | full
  | flushRefused
deriving DecidableEq, Repr

def OutputError.message : OutputError → String
  | full => "sink full"
  | flushRefused => "flush refused"

structure Output where
  /-- All bytes so far. -/
  written : ByteArray
  /-- How many bytes there is room for in all, if that is bounded. -/
  limit : Option Nat
  flushFails : Bool

namespace Output

/-- An output that takes everything. -/
def unbounded : Output := ⟨.empty, none, false⟩

/-- Writes a text and flushes.  Of a text that does not fit, the bytes that do are written. -/
def write (output : Output) (text : String) : Except OutputError Unit × Output :=
  let bytes := text.toUTF8
  let room := (output.limit.map fun limit => limit - output.written.size).getD bytes.size
  if bytes.size ≤ room then
    let output := { output with written := output.written ++ bytes }
    (if output.flushFails then .error .flushRefused else .ok (), output)
  else
    (.error .full, { output with written := output.written ++ bytes.extract 0 room })

/-- The text of some bytes.  Up to so many bytes at their end may be part of a character that was
cut off; they become one replacement character, which is then the `tail`. -/
def decode (bytes : ByteArray) (tail : String) : (spare : Nat) → String
  | 0 => (String.fromUTF8? bytes).getD "" ++ tail
  | spare + 1 =>
    match String.fromUTF8? bytes with
    | some text => text ++ tail
    | none => decode (bytes.extract 0 (bytes.size - 1)) "\ufffd" spare

/-- The text of the bytes from an offset on. -/
def textFrom (output : Output) (start : Nat) : String :=
  decode (output.written.extract start output.written.size) "" 3

end Output

end Script
