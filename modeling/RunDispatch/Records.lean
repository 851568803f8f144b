/-
# The record stream

The records of a write run go to the container's standard input as lines of JSON. The stream is
ended for a reader behind a terminal: the last line gets its newline if it lacks one, and one
end-of-transmission octet follows.

Key definitions: `encodeRecords`, `endOfTransmission`, `terminated`.
Key theorems: `terminated_nil`.
-/
import RunDispatch.Json.Writer

namespace RunDispatch

/-- The octet that ends a newline. -/
def newline : UInt8 := 0x0A

/-- The octet that ends the input of a terminal's reader. -/
def endOfTransmission : UInt8 := 0x04

/-- Each record on a line of its own. -/
def encodeRecords (records : List Json.Value) : Bytes :=
  records.flatMap fun v => Text.utf8Chars v.write ++ [newline]

/-- A payload as it is streamed: ended by a newline, unless it is empty, and by one
end-of-transmission octet. -/
def terminated (payload : Bytes) : Bytes :=
  (if payload.isEmpty ∨ payload.getLast? = some newline then payload else payload ++ [newline]) ++
    [endOfTransmission]

@[simp] theorem terminated_nil : terminated [] = [endOfTransmission] := rfl

end RunDispatch
