/-
# Outcomes of runs

A container tells its verdict by its exit status: zero is success, one a failure of the connector,
anything else is unknown and counts as a failure. The outcome decides the connectivity that is
stored.

Key definitions: `Outcome`, `Outcome.ofExitStatus`, `Outcome.isSuccess`, `Outcome.connectivity`.
-/
import RunDispatch.Connector.State

namespace RunDispatch

/-- The verdict of a run. -/
inductive Outcome where
  | ok
  | error
  | unknown
  deriving DecidableEq, Repr

namespace Outcome

/-- The verdict that an exit status tells. -/
def ofExitStatus (status : Int) : Outcome :=
  if status = 0 then ok else if status = 1 then error else unknown

/-- Whether the run succeeded. -/
def isSuccess : Outcome → Bool
  | ok => true
  | _ => false

/-- The connectivity that is stored for a verdict. -/
def connectivity (o : Outcome) : Connector.State :=
  if o.isSuccess then .connected else .error

/-- The name of a verdict. -/
def name : Outcome → String
  | ok => "OK"
  | error => "ERROR"
  | unknown => "UNKNOWN"

/-- The names and what they stand for. -/
def names : List (String × Outcome) := [ok, error, unknown].map fun o => (o.name, o)

end Outcome

/-- How far a run is. -/
inductive RunPhase where
  | pending
  | staged
  | running
  | completed (outcome : Outcome)
  | failed
  deriving DecidableEq, Repr

/-- The name of a phase. -/
def RunPhase.display : RunPhase → String
  | pending => "pending"
  | staged => "staged"
  | running => "running"
  | completed o => "completed(" ++ o.name ++ ")"
  | failed => "failed"

end RunDispatch
