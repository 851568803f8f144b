/-
# Operations

A run checks a connector, writes records through it, or checks its health in the background. A
health check runs the image's check, but keeps files that are staged already.

Key definitions: `Operation`, `Operation.name`, `Operation.verb`, `Operation.isWrite`,
`Operation.stagingMode`, `Operation.ofName?`.
Key theorems: `Operation.ofName?_name`.
-/
namespace RunDispatch

/-- What happens to a staged file that exists already. -/
inductive StagingMode where
  /-- It is replaced. -/
  | overwrite
  /-- It is kept and used. -/
  | keep
  deriving DecidableEq, Repr

/-- The name of a staging mode. -/
def StagingMode.name : StagingMode → String
  | overwrite => "always_overwrite"
  | keep => "write_once"

/-- The kind of work that a run does. -/
inductive Operation where
  | check
  | write
  | healthcheck
  deriving DecidableEq, Repr

namespace Operation

/-- Every operation. -/
def all : List Operation := [check, write, healthcheck]

/-- The name, which also ends the names of containers. -/
def name : Operation → String
  | check => "check"
  | write => "write"
  | healthcheck => "healthcheck"

/-- The first argument of the image's command. -/
def verb : Operation → String
  | check => "check"
  | write => "write"
  | healthcheck => "check"

/-- Whether records are written: only then there is a catalog and standard input. -/
def isWrite : Operation → Bool
  | write => true
  | _ => false

/-- How the run's files are staged. -/
def stagingMode : Operation → StagingMode
  | healthcheck => .keep
  | _ => .overwrite

/-- The names and what they stand for. -/
def names : List (String × Operation) := all.map fun k => (k.name, k)

/-- The operation of a name. -/
def ofName? (s : String) : Option Operation :=
  all.find? (·.name = s)

theorem ofName?_name (k : Operation) : ofName? k.name = some k := by
  cases k <;> decide

end Operation

end RunDispatch
