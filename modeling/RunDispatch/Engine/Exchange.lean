/-
# Exchanges with the engine

A call to the container engine is a sequence of HTTP requests, each of which depends on the
responses to those before. An exchange is such a sequence as data: a request and how it goes on for
every response, octets to be written to an attached stream and how it goes on, or a result.

Key definitions: `Request`, `Response`, `Exchange`, `Exchange.bind`.
Key theorems: `Exchange.bind_done`, `Exchange.bind_assoc`.
-/
import RunDispatch.Json.Value
import RunDispatch.Text.Utf8

namespace RunDispatch.Engine

/-- A request: a method, the path and the members of the query before any escaping, and a body. -/
structure Request where
  method : String
  path : String
  query : List (String × String)
  body : Option Json.Value

/-- A response: a status and the octets of the body, or none, when the connection is closed. After
status 101 the body is what the attached stream outputs. -/
inductive Response where
  | closed
  | answered (status : Nat) (body : Bytes)
  deriving DecidableEq, Repr

/-- A sequence of requests that ends in a result. -/
inductive Exchange (α : Type) where
  | done (a : α)
  | send (r : Request) (next : Response → Exchange α)
  /-- Octets go into the stream that was attached last, whose input is closed then; `next` is told
  why they could not be written, if so. -/
  | feed (payload : Bytes) (next : Option String → Exchange α)

namespace Exchange

variable {α β γ : Type}

/-- One exchange after another. -/
def bind : Exchange α → (α → Exchange β) → Exchange β
  | done a, f => f a
  | send r next, f => send r fun x => (next x).bind f
  | feed payload next, f => feed payload fun x => (next x).bind f

def map (f : α → β) (e : Exchange α) : Exchange β := e.bind fun a => done (f a)

@[simp] theorem bind_done (a : α) (f : α → Exchange β) : (done a).bind f = f a := rfl

theorem bind_assoc (e : Exchange α) (f : α → Exchange β) (g : β → Exchange γ) :
    (e.bind f).bind g = e.bind fun a => (f a).bind g := by
  induction e with
  | done a => rfl
  | send r next ih => simp [bind, ih]
  | feed payload next ih => simp [bind, ih]

end Exchange

end RunDispatch.Engine
