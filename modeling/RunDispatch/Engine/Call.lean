/-
# Calls to the engine

What a worker wants of the container engine, as exchanges: an image that is there or gets pulled, a
container that is made, started, waited for, whose logs are read, and that is stopped and removed.
An image or a container that is missing is no failure where its absence is what is wanted.

Key definitions: `ping`, `ensureImage`, `create`, `start`, `wait`, `logs`, `stopAndRemove`,
`answer`, `live`.
-/
import RunDispatch.Container.Lifecycle
import RunDispatch.Engine.Document
import RunDispatch.Engine.Frame
import RunDispatch.Engine.Reply
import RunDispatch.Records

namespace RunDispatch.Engine

open Container

/-- What a call comes to. -/
abbrev Outcome (α : Type) := Except Failure α

/-- The failure that a trouble means in a call. -/
def Trouble.failure (t : Trouble) (kind : FailureKind) (subject : String) : Failure :=
  ⟨kind, subject, t.message⟩

def defaultSocket : String := "/var/run/docker.sock"

def socketScheme : List Char := ['u', 'n', 'i', 'x', ':', '/', '/']

/-- The socket that a host names. -/
def socketOf (host : String) : String :=
  if socketScheme.isPrefixOf host.toList then String.ofList (host.toList.drop socketScheme.length)
  else defaultSocket

/-- The failure of an engine whose socket is not there. -/
def unreachable (host : String) : Failure :=
  ⟨.connect, "", "Socket not found: " ++ socketOf host⟩

def get (path : String) (query : List (String × String)) : Request :=
  ⟨"GET", path, query, none⟩

def post (path : String) (query : List (String × String)) : Request :=
  ⟨"POST", path, query, none⟩

/-- A request whose response only has to succeed. -/
def request (r : Request) (kind : FailureKind) (subject : String) : Exchange (Outcome Unit) :=
  .send r fun x => .done (((accept x).map fun _ => ()).mapError (·.failure kind subject))

/-- Asks whether the engine is there. -/
def ping : Exchange (Outcome Unit) := request (get "/_ping" []) .connect ""

/-! ## Images -/

/-- What the progress of a pull comes to: the first error that it tells of, or its trouble. -/
def pulled (progress : List (Option String) × Option Trouble) : Except Trouble Unit :=
  if progress.1.any Option.isSome then .error .reported
  else match progress.2 with
    | some t => .error t
    | none => .ok ()

/-- Pulls an image, and reads the progress to its end. -/
def pull (i : Image) : Exchange (Outcome Unit) :=
  .send
    (post "/images/create"
      [ ("fromImage", i.repository), ("fromSrc", ""), ("repo", ""), ("tag", i.tag),
        ("platform", "") ])
    fun x => .done
      ((pulled (readStream progress.reader x)).mapError (·.failure .pull i.display))

/-- Makes sure that the engine has an image, which is pulled if it is missing. -/
def ensureImage (i : Image) : Exchange (Outcome Unit) :=
  .send (get ("/images/" ++ i.display ++ "/json") []) fun x =>
    match readBody image.reader x with
    | .ok () => .done (.ok ())
    | .error t => if t.isMissing then pull i else .done (.error (t.failure .pull i.display))

/-! ## Containers -/

/-- A mount as a document. -/
def mountDocument (m : Mount) : Json.Value :=
  .object [("Type", .string m.kind.name), ("Source", .string m.source),
    ("Target", .string m.target)]

/-- A specification as a document. Input that is attached is read once, through a terminal. -/
def specDocument (s : Spec) : Json.Value :=
  let attached : Json.Value := .bool s.attachStdin
  .object
    [ ("Image", .string s.image.display), ("Cmd", .array (s.command.map .string)),
      ("AttachStdin", attached), ("AttachStdout", attached), ("AttachStderr", attached),
      ("OpenStdin", attached), ("StdinOnce", attached), ("Tty", attached),
      ("HostConfig", .object
        [ ("RestartPolicy", .object [("Name", .string "no")]),
          ("LogConfig", .object [("Type", .string "json-file")]),
          ("Mounts", .array (s.mounts.map mountDocument)) ]) ]

/-- Makes a container; its identifier is the result. -/
def create (s : Spec) : Exchange (Outcome String) :=
  .send ⟨"POST", "/containers/create", [("name", s.name)], some (specDocument s)⟩ fun x =>
    .done ((readBody creation.reader x).mapError (·.failure .create s.name))

/-- Where requests about a container go. -/
def containerPath (id action : String) : String := "/containers/" ++ id ++ "/" ++ action

/-- Starts a container. -/
def startPlain (id name : String) : Exchange (Outcome Unit) :=
  request (post (containerPath id "start") []) .start name

/-- Writes a payload to an attached stream. -/
def stream (name : String) (payload : Bytes) : Exchange (Outcome Unit) :=
  .feed (terminated payload) fun
    | none => .done (.ok ())
    | some detail => .done (.error ((Trouble.unwritten detail).failure .attach name))

/-- The chunks of attached output, as far as they can be told apart. -/
def attachedChunks (output : Bytes) : List Chunk := (readChunks .whole output).1

/-- Starts a container. With a payload for its input, its streams are attached before and the
payload is written afterwards; the result is then what the container outputs. -/
def start (id name : String) : Option Bytes → Exchange (Outcome (Option (List Chunk)))
  | none => (startPlain id name).map (·.map fun () => none)
  | some payload =>
    .send
      (post (containerPath id "attach")
        [ ("stdin", "true"), ("stdout", "true"), ("stderr", "true"), ("stream", "true"),
          ("logs", "false") ])
      fun x =>
        match acceptStream x with
        | .error t => .done (.error (t.failure .attach name))
        | .ok output =>
          (startPlain id name).bind fun
            | .error f => .done (.error f)
            | .ok () =>
              (stream name payload).map (·.map fun () => some (attachedChunks output))

/-- What a wait comes to: the exit status of the first end that is told, whatever went wrong with
the waiting. -/
def waited : List Ending × Option Trouble → Except Trouble Int
  | (e :: _, _) => .ok e.status
  | ([], some t) => .error t
  | ([], none) => .error .noStatus

/-- Waits for the end of a container; its exit status is the result. -/
def wait (id name : String) : Exchange (Outcome Int) :=
  .send (post (containerPath id "wait") [("condition", "not-running")]) fun x =>
    .done ((waited (readStream ending.reader x)).mapError (·.failure .wait name))

/-- The chunks of stored logs, unless they break off. -/
def storedChunks (body : Bytes) : Except Trouble (List Chunk) :=
  match readChunks .lines body with
  | (chunks, true) => .ok chunks
  | (_, false) => .error .cutOff

/-- Reads the logs of a container. -/
def logs (id name : String) : Exchange (Outcome (List Chunk)) :=
  .send
    (get (containerPath id "logs")
      [ ("follow", "false"), ("stdout", "true"), ("stderr", "true"), ("since", "0"),
        ("timestamps", "false"), ("tail", "") ])
    fun x => .done ((accept x >>= storedChunks).mapError (·.failure .logs name))

/-- The longest time in seconds that the engine can be told. -/
def maxGrace : Nat := Nat.pow 2 63 - 1

/-- Removes a container by force; one that is missing is fine. -/
def remove (name : String) : Exchange (Outcome Unit) :=
  .send
    ⟨"DELETE", "/containers/" ++ name, [("v", "true"), ("force", "true"), ("link", "false")],
      none⟩
    fun x =>
      match accept x with
      | .ok _ => .done (.ok ())
      | .error t => if t.isMissing then .done (.ok ()) else .done (.error (t.failure .cleanup name))

/-- Stops a container, for which it has `grace` seconds, and removes it whether it stopped or not.
One that is missing is fine. -/
def stopAndRemove (grace : Nat) (name : String) : Exchange (Outcome Unit) :=
  .send (post (containerPath name "stop") [("t", toString (min grace maxGrace))]) fun x =>
    match accept x with
    | .ok _ => remove name
    | .error t => if t.isMissing then .done (.ok ()) else remove name

/-! ## The life of a container -/

/-- A result as a reply. -/
def replyOf {α : Type} (f : α → Reply) : Outcome α → Reply
  | .ok a => f a
  | .error e => .failed e

/-- The exchange that answers a question, with the output that comes along. -/
def answer (grace : Nat) : Ask → Exchange (Reply × List Chunk)
  | .pull i => (ensureImage i).map fun r => (replyOf (fun () => .done) r, [])
  | .create s => (create s).map fun r => (replyOf .created r, [])
  | .start id name stdin =>
    (start id name stdin).map fun
      | .ok output => (.started output.isSome, output.getD [])
      | .error f => (.failed f, [])
  | .wait id name => (wait id name).map fun r => (replyOf .exited r, [])
  | .drain _ => .done (.done, [])
  | .logs id name => (logs id name).map fun r => (replyOf .collected r, [])
  | .remove name => (stopAndRemove grace name).map fun r => (replyOf (fun () => .done) r, [])

/-- Lets a container live from a stage on, after some output; `fuel` exceeds the number of
stages. -/
def liveFrom (grace : Nat) (s : Spec) (stdin : Option Bytes) :
    Nat → Stage → List Chunk → Exchange (Option (Outcome Exit) × List Chunk)
  | 0, _, shown => .done (none, shown)
  | fuel + 1, stage, shown =>
    match stage.ask? s stdin with
    | none =>
      match stage with
      | .ended result => .done (some result, shown)
      | _ => .done (none, shown)
    | some ask =>
      (answer grace ask).bind fun (reply, output) =>
        let (stage, collected) := stage.next reply
        liveFrom grace s stdin fuel stage (shown ++ output ++ collected)

/-- Lets a container live; the result tells how it ended, and what it output. -/
def live (grace : Nat) (s : Spec) (stdin : Option Bytes) :
    Exchange (Option (Outcome Exit) × List Chunk) :=
  liveFrom grace s stdin 8 .pulling []

end RunDispatch.Engine
