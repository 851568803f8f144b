/-
# A scripted engine

An engine that answers each request with the next response of a script, and refuses once that is
used up. It keeps the requests, and what was written to the streams that were attached.

Key definitions: `Exchanged`, `ScriptedEngine`, `ScriptedEngine.run`.
-/
import RunDispatch.Engine.Exchange

namespace RunDispatch.Simulation

open Engine

/-- A request that was answered, and what was written to its stream if it became one. -/
structure Exchanged where
  request : Request
  written : Option Bytes

/-- An engine: the responses that are left, and the requests so far, the latest first. -/
structure ScriptedEngine where
  script : List Response
  past : List Exchanged

namespace ScriptedEngine

/-- An engine at the beginning. -/
def start (script : List Response) : ScriptedEngine := ⟨script, []⟩

/-- The refusal of an engine whose script is used up. -/
def exhausted : Response :=
  .answered 500 (Text.utf8 "\x7b\"message\":\"script exhausted\"\x7d")

/-- Whether a response turns the connection into a stream. -/
def upgrades : Response → Bool
  | .answered 101 _ => true
  | _ => false

/-- Answers a request. -/
def respond (e : ScriptedEngine) (r : Request) : ScriptedEngine × Response :=
  let x := e.script.head?.getD exhausted
  (⟨e.script.drop 1, ⟨r, if upgrades x then some [] else none⟩ :: e.past⟩, x)

/-- Takes octets into the stream that was attached last. -/
def take (payload : Bytes) : List Exchanged → List Exchanged
  | [] => []
  | x :: r =>
    if x.written.isSome then { x with written := some payload } :: r else x :: take payload r

/-- Runs an exchange. -/
def run {α : Type} : Exchange α → ScriptedEngine → ScriptedEngine × α
  | .done a, e => (e, a)
  | .send r next, e =>
    let (e, x) := e.respond r
    run (next x) e
  | .feed payload next, e => run (next none) { e with past := take payload e.past }

end ScriptedEngine

end RunDispatch.Simulation
