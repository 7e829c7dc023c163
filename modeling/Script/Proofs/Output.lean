import Script.Output

/-!
# What a write depends on

A write only depends on the room that is left and on whether the output refuses to be flushed, not
on what has been written.  What it adds is decided by `Output.accept`.
-/

namespace Script.Output

/-- How many more bytes there is room for, if that is bounded. -/
def room (output : Output) : Option Nat := output.limit.map fun limit => limit - output.written.size

/-- What comes of a write and which bytes it adds. -/
def accept (room : Option Nat) (flushFails : Bool) (bytes : ByteArray) :
    Except OutputError Unit × ByteArray :=
  if bytes.size ≤ room.getD bytes.size then
    (if flushFails then .error .flushRefused else .ok (), bytes)
  else (.error .full, bytes.extract 0 (room.getD bytes.size))

/-- The output with some more bytes. -/
def append (output : Output) (bytes : ByteArray) : Output :=
  { output with written := output.written ++ bytes }

variable (output : Output)

theorem write_eq (text : String) : output.write text =
    ((accept output.room output.flushFails text.toUTF8).1,
      output.append (accept output.room output.flushFails text.toUTF8).2) := by
  unfold write accept
  show (if text.toUTF8.size ≤ output.room.getD text.toUTF8.size then _ else _) = _
  split <;> rfl

theorem append_empty : output.append .empty = output := by
  simp [append]

theorem append_append (bytes more : ByteArray) :
    (output.append bytes).append more = output.append (bytes ++ more) := by
  simp [append, ByteArray.append_assoc]

/-- Bytes that are written take up their room. -/
theorem room_append (bytes : ByteArray) :
    (output.append bytes).room = output.room.map fun room => room - bytes.size := by
  unfold room append
  rw [Option.map_map]
  congr 1
  funext limit
  rw [ByteArray.size_append]
  exact Nat.sub_add_eq limit output.written.size bytes.size

/-- Two outputs with the same room for more, to which the same bytes have been added, take the same
text alike. -/
theorem write_alike {output output' o o' : Output} {bytes : ByteArray}
    (hroom : output.room = output'.room) (hflush : output.flushFails = output'.flushFails)
    (h : o = output.append bytes) (h' : o' = output'.append bytes) (text : String) :
    (o.write text).1 = (o'.write text).1 ∧ ∃ bytes,
      (o.write text).2 = output.append bytes ∧ (o'.write text).2 = output'.append bytes := by
  have haccept : accept o.room o.flushFails text.toUTF8 =
      accept o'.room o'.flushFails text.toUTF8 := by
    rw [h, h', room_append, room_append, hroom]
    exact congrArg (accept _ · _) hflush
  rw [write_eq, write_eq, haccept, h, h', append_append, append_append]
  exact ⟨rfl, _, rfl, rfl⟩

end Script.Output
