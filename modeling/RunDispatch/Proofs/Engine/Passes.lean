/-
# What passes between a caller and an engine

An engine is whatever serves requests and takes octets, each from a state of its own. An exchange runs
against any engine to its end, and what passed on the way is the list of its requests with their
responses and of the payloads with what was said of them. The scripted engine is one such engine.

Key definitions: `Server`, `Pass`, `Exchange.against`.
Key theorems: `against_bind`, `run_eq_against`.
-/
import RunDispatch.Engine.Exchange
import RunDispatch.Simulation.Engine

namespace RunDispatch.Engine

/-- An engine: how it responds to a request, and why it cannot take octets into the stream that was
attached last, if so. -/
structure Server (σ : Type) where
  serve : σ → Request → σ × Response
  take : σ → Bytes → σ × Option String

/-- What passes between a caller and an engine: a request and its response, or a payload and why it
could not be written, if so. -/
inductive Pass where
  | asked (request : Request) (response : Response)
  | fed (payload : Bytes) (trouble : Option String)

namespace Exchange

variable {α β σ : Type} (engine : Server σ)

/-- Runs an exchange against an engine: the engine's state afterwards, what passed, and the
result. -/
def against : Exchange α → σ → σ × List Pass × α
  | done a, s => (s, [], a)
  | send r next, s =>
    let (s', x) := engine.serve s r
    let (s'', passes, a) := (next x).against s'
    (s'', .asked r x :: passes, a)
  | feed payload next, s =>
    let (s', trouble) := engine.take s payload
    let (s'', passes, a) := (next trouble).against s'
    (s'', .fed payload trouble :: passes, a)

theorem against_done (a : α) (s : σ) : (done a).against engine s = (s, [], a) := rfl

theorem against_send (r : Request) (next : Response → Exchange α) (s : σ) :
    (send r next).against engine s =
      let (s', x) := engine.serve s r
      let (s'', passes, a) := (next x).against engine s'
      (s'', .asked r x :: passes, a) := rfl

theorem against_feed (payload : Bytes) (next : Option String → Exchange α) (s : σ) :
    (feed payload next).against engine s =
      let (s', trouble) := engine.take s payload
      let (s'', passes, a) := (next trouble).against engine s'
      (s'', .fed payload trouble :: passes, a) := rfl

/-- Of two exchanges, one after the other, everything of the first passes before the second. -/
theorem against_bind (e : Exchange α) (f : α → Exchange β) (s : σ) :
    (e.bind f).against engine s =
      let (s', passes, a) := e.against engine s
      let (s'', more, b) := (f a).against engine s'
      (s'', passes ++ more, b) := by
  induction e generalizing s with
  | done a => rfl
  | send r next ih => simp only [bind, against, ih, List.cons_append]
  | feed payload next ih => simp only [bind, against, ih, List.cons_append]

theorem against_map (e : Exchange α) (f : α → β) (s : σ) :
    (e.map f).against engine s =
      ((e.against engine s).1, (e.against engine s).2.1, f (e.against engine s).2.2) := by
  simp [map, against_bind, against_done]

end Exchange

end RunDispatch.Engine

namespace RunDispatch.Simulation.ScriptedEngine

open Engine

def server : Server ScriptedEngine where
  serve := respond
  take e payload := ({ e with past := take payload e.past }, none)

/-- **The scripted engine runs an exchange as any engine does.** -/
theorem run_eq_against {α : Type} (e : Exchange α) (s : ScriptedEngine) :
    run e s = ((e.against server s).1, (e.against server s).2.2) := by
  induction e generalizing s with
  | done a => rfl
  | send r next ih => exact ih (s.respond r).2 (s.respond r).1
  | feed payload next ih => exact ih none _

end RunDispatch.Simulation.ScriptedEngine
