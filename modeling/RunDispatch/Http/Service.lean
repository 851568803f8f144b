/-
# The HTTP service

The service tells the worker's health, takes triggers, tells the last status of a run, and removes
the staged files of a connector. A trigger has to be announced as JSON, must not be too long, and is
read in this order. Every answer carries the identifier that its request came with, if any.

What the JSON library makes of a body that is no text is left to it (`Undecoded`): it refuses such octets
in what it reads, and passes over them in what it skips.

Key definitions: `Request`, `Undecoded`, `readBody`, `handle`, `serve`.
-/
import RunDispatch.Http.Answer
import RunDispatch.Http.MediaType
import RunDispatch.Http.Route
import RunDispatch.Text.Percent
import RunDispatch.Trigger
import RunDispatch.Worker

namespace RunDispatch.Http

/-- A request as it comes in. -/
structure Request where
  method : Method
  uri : String
  headers : List (String × String)
  body : Bytes

/-- A text as a body. -/
instance : Coe String Bytes := ⟨Text.utf8⟩

/-- The first value of a header, whose name is given in lower case. -/
def Request.header? (r : Request) (name : String) : Option String :=
  (r.headers.find? fun h => Text.lowered h.1.toList = name.toList).map (·.2)

/-- The version that the service tells. -/
def version : String := "0.1.0"

/-- The greatest length of a body in octets. -/
def maxBodyLength : Nat := 2097152

/-- The refusal of a body that is not announced as JSON. -/
def notJson : Answer :=
  .of 415 (.text ("Expected request with " ++ Json.backQuoted "Content-Type: application/json"))

/-- The refusal of a body that is too long. -/
def tooLong : Answer :=
  .of 413 (.text "Failed to buffer the request body: length limit exceeded")

/-- The refusal of a body that is no trigger. -/
def unreadable (f : Json.Failure) : Answer :=
  match f.cause with
  | .malformed _ => .of 400 (.text ("Failed to parse the request body as JSON: " ++ f.located))
  | .mismatch _ =>
    .of 422 (.text ("Failed to deserialize the JSON body into the target type: " ++ f.located))

/-- Whether a request announces JSON. -/
def Request.announcesJson (r : Request) : Bool :=
  match (r.header? "content-type").bind MediaType.parse? with
  | some m => m.isJson
  | none => false

/-- What a reader of triggers makes of octets that are no text. -/
abbrev Undecoded := Bytes → Except Json.Failure Trigger

/-- Reads a body that is no text as the text with U+FFFD for what is no character. -/
def Undecoded.lossy : Undecoded := fun octets => Trigger.parse (Text.readUtf8 octets)

/-- The trigger in the body of a request. -/
def readBody (r : Request) (undecoded : Undecoded := .lossy) : Except Answer Trigger :=
  if !r.announcesJson then .error notJson
  else if maxBodyLength < r.body.length then .error tooLong
  else
    let trigger :=
      if Text.isUtf8 r.body then Trigger.parse (Text.readUtf8 r.body) else undecoded r.body
    trigger.mapError unreadable

/-- The text of an escaped segment of a path. -/
def readSegment (segment : String) : Except Answer String :=
  let octets := Text.percentDecode segment
  if Text.isUtf8 octets then .ok (Text.readUtf8 octets)
  else .error (.of 400 (.text ("Invalid URL: Invalid UTF-8 in " ++ Json.backQuoted "id")))

/-- What a request comes to: the worker after it, the run that was spawned, and the answer. -/
structure Served where
  worker : Worker
  spawned : Option Nat
  answer : Answer

/-- An answer that leaves the worker as it is. -/
def unchanged (w : Worker) (a : Answer) : Served := ⟨w, none, a⟩

/-- Tells the worker's health. -/
def tellHealth (w : Worker) : Answer :=
  .of 200 (.json (.object
    [ ("status", .string (if w.closing then "draining" else "ok")), ("version", .string version),
      ("in_flight", count w.inFlight) ]))

/-- Takes a trigger: it is answered as soon as its run is spawned. -/
def takeTrigger (w : Worker) (now : Nat) (t : Trigger) : Served :=
  match t.toRequest with
  | .error v => unchanged w (Problem.rejected v.rejection).answer
  | .ok request =>
    match w.submit now request with
    | .error p => unchanged w p.answer
    | .ok (w, number) =>
      ⟨w, some number, .of 202 (dataContent (.object
        [ ("container_name", .string request.containerName),
          ("operation", .string request.kind.name) ]))⟩

/-- Tells the last status of a run. -/
def tellStatus (w : Worker) (name : String) : Answer :=
  match w.status name with
  | some status => .of 200 (dataContent status.toJson)
  | none => (Problem.notFound ("No run recorded for container " ++ name)).answer

/-- Removes the staged files of a connector. -/
def cleanUp (w : Worker) (raw : String) : Served :=
  match parseId raw with
  | .error v => unchanged w (Problem.rejected v.rejection).answer
  | .ok id =>
    match w.cleanup id with
    | (w, .ok removed) =>
      unchanged w (.of 200 (dataContent (.object [("removed", count removed)])))
    | (w, .error f) => unchanged w (Problem.failed f).answer

/-- Serves a request whose method its target allows. -/
def handleTarget (w : Worker) (now : Nat) (r : Request) (target : Target)
    (undecoded : Undecoded := .lossy) : Served :=
  match target with
  | .health => unchanged w (tellHealth w)
  | .runs =>
    match readBody r undecoded with
    | .error a => unchanged w a
    | .ok t => takeTrigger w now t
  | .run segment =>
    match readSegment segment with
    | .error a => unchanged w a
    | .ok name => unchanged w (tellStatus w name)
  | .cleanup segment =>
    match readSegment segment with
    | .error a => unchanged w a
    | .ok raw => cleanUp w raw
  | .unknown => unchanged w (.of 404 .empty)

/-- Serves a request. -/
def handle (w : Worker) (now : Nat) (r : Request) (undecoded : Undecoded := .lossy) : Served :=
  let target := Target.ofUri r.uri
  match target.allowed with
  | none => handleTarget w now r target undecoded
  | some methods =>
    if methods.contains r.method then handleTarget w now r target undecoded
    else unchanged w { Answer.of 405 .empty with allow := some (announced methods) }

/-- Serves a request for which there are `timeout` seconds. Without any time nothing is done, and
an answer to HEAD has no body. -/
def serve (timeout : Nat) (w : Worker) (now : Nat) (r : Request)
    (undecoded : Undecoded := .lossy) : Served :=
  let served := if timeout = 0 then unchanged w (.of 408 .empty) else handle w now r undecoded
  { served with
    answer := { served.answer with
      bodiless := r.method = .head
      requestId := r.header? "x-request-id" } }

end RunDispatch.Http
