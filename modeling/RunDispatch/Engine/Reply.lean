/-
# What the engine says

A response succeeds with a status from 200 to 299, with 304 and with 101. Any other has a message in
its body: the member `message` of an object, or the whole body if that is JSON of another shape. A
body that is no JSON hides even the status. The body of a success is one JSON value, or a stream of
them, line by line.

Key definitions: `Trouble`, `Trouble.message`, `accept`, `readBody`, `readStream`.
-/
import RunDispatch.Engine.Exchange
import RunDispatch.Json.Reader

namespace RunDispatch.Engine

/-- Why a request came to nothing. -/
inductive Trouble where
  /-- The connection was closed without a response. -/
  | closed
  /-- The engine refused, with a status and a message. -/
  | refused (status : Nat) (message : String)
  /-- The body is no JSON. -/
  | malformed (m : Json.Malformed)
  /-- The body is JSON of another shape. -/
  | mismatch (m : Json.Mismatch)
  /-- A stream of values ends within one. -/
  | cutOff
  /-- A stream of values tells of an error. -/
  | reported
  /-- The connection was not turned into a stream. -/
  | noUpgrade
  /-- What was to be written to a stream was not. -/
  | unwritten (detail : String)
  /-- A stream of values holds none. -/
  | noStatus
  deriving DecidableEq, Repr

namespace Trouble

/-- The wording of a trouble. -/
def message : Trouble → String
  | closed => "Error in the hyper legacy client: client error (SendRequest)"
  | refused status message =>
    "Docker responded with status code " ++ toString status ++ ": " ++ message
  | malformed m => m.message
  | mismatch m => "Failed to deserialize JSON: " ++ m.message
  | cutOff => "bytes remaining on stream"
  | reported => "Docker stream error"
  | noUpgrade => "no upgrade available"
  | unwritten detail => "Unable to stream standard input: " ++ detail
  | noStatus => "wait stream closed without a status"

/-- Whether the engine knows no such thing. -/
def isMissing : Trouble → Bool
  | refused 404 _ => true
  | _ => false

/-- The trouble with a text that is not the JSON it should be. -/
def ofFailure (f : Json.Failure) : Trouble :=
  match f.cause with
  | .malformed m => malformed m
  | .mismatch m => mismatch m

end Trouble

/-- Whether a status tells success. -/
def succeeds (status : Nat) : Bool :=
  (200 ≤ status && status ≤ 299) || status == 304 || status == 101

/-- A message in a body, which may be missing while the body is read. -/
def messageRecord : Json.Record (Option String) String where
  title := "a message"
  fields := [Json.Field.of "message" Json.Reader.string (fun s _ => some s) false]
  empty := none
  finish
    | some s => .ok s
    | none => .error (.missingField "message")

/-- The trouble that a status and a body tell. -/
def refusal (status : Nat) (body : Bytes) : Trouble :=
  let text := Text.readUtf8 body
  if body.isEmpty then .refused status ""
  else match Json.parse messageRecord.reader text.toList with
    | .ok message => .refused status message
    | .error ⟨_, .mismatch _⟩ => .refused status text
    | .error ⟨_, .malformed m⟩ => .malformed m

/-- The body of a response that succeeds. A connection that is turned into a stream has none. -/
def accept : Response → Except Trouble Bytes
  | .closed => .error .closed
  | .answered status body =>
    if !succeeds status then .error (refusal status body)
    else if status = 101 then .ok []
    else .ok body

/-- The output of a stream into which a connection was turned. -/
def acceptStream : Response → Except Trouble Bytes
  | .closed => .error .closed
  | .answered status body =>
    if !succeeds status then .error (refusal status body)
    else if status = 101 then .ok body
    else .error .noUpgrade

/-- The value in the body of a response. -/
def readBody {α : Type} (reader : Json.Reader α) (r : Response) : Except Trouble α := do
  let body ← accept r
  (Json.parse reader (Text.readUtf8Chars body)).mapError Trouble.ofFailure

/-! ## Streams of values -/

/-- Whether a text is malformed only because it ends. -/
def isUnfinished : Json.Malformed → Bool
  | .endInValue | .endInList | .endInObject | .endInString => true
  | _ => false

/-- Reads a piece of a stream: a value, or `none` if the piece is the beginning of one. A bare
`null` counts as such. -/
def readPiece {α : Type} (reader : Json.Reader α) (piece : List Char) :
    Except Trouble (Option α) :=
  match Json.parse (Json.Reader.optional reader) piece with
  | .ok v => .ok v
  | .error ⟨_, .malformed m⟩ => if isUnfinished m then .ok none else .error (.malformed m)
  | .error ⟨_, .mismatch m⟩ => .error (.mismatch m)

/-- The values of a stream, and the trouble with which it ends, if any. A line break inside a value
is overlooked once: `joined` tells whether that has happened. `fuel` exceeds the number of
characters. -/
def readPieces {α : Type} (reader : Json.Reader α) :
    Nat → Bool → List Char → List α × Option Trouble
  | 0, _, _ => ([], some .cutOff)
  | _ + 1, _, [] => ([], none)
  | fuel + 1, joined, c :: cs =>
    let piece := (c :: cs).takeWhile (· != '\n')
    match (c :: cs).dropWhile (· != '\n'), readPiece reader piece with
    | _, .error t => ([], some t)
    | [], .ok (some v) => ([v], none)
    | _ :: rest, .ok (some v) =>
      let (vs, t) := readPieces reader fuel joined rest
      (v :: vs, t)
    | [], .ok none => ([], some .cutOff)
    | _ :: rest, .ok none =>
      if (piece ++ rest).isEmpty then ([], none)
      else if joined then ([], some .cutOff)
      else readPieces reader fuel true (piece ++ rest)

/-- The values of the stream in the body of a response, and the trouble with which it ends. -/
def readStream {α : Type} (reader : Json.Reader α) (r : Response) : List α × Option Trouble :=
  match accept r with
  | .error t => ([], some t)
  | .ok body =>
    let text := Text.readUtf8Chars body
    readPieces reader (text.length + 1) false text

end RunDispatch.Engine
