/-
# Connectivity states

A connector is disconnected, connected or in error. Each state has a name in the store, a shorter
name in answers, and a number in the store's table of states.

Key definitions: `State`, `State.name`, `State.ofName?`, `State.number`, `State.ofNumber?`.
Key theorems: `State.ofName?_name`, `State.ofNumber?_number`.
-/
namespace RunDispatch.Connector

/-- The connectivity of a connector. -/
inductive State where
  | disconnected
  | connected
  | error
  deriving DecidableEq, Repr

namespace State

def all : List State := [disconnected, connected, error]

/-- The name in answers. -/
def word : State → String
  | disconnected => "DISCONNECTED"
  | connected => "CONNECTED"
  | error => "ERROR"

/-- The name in the store. -/
def name : State → String
  | disconnected => "STATE_DISCONNECTED"
  | connected => "STATE_CONNECTED"
  | error => "STATE_ERROR"

/-- The state of a name in the store. -/
def ofName? (s : String) : Option State :=
  all.find? (·.name = s)

/-- The number in the store's table of states. -/
def number : State → Int
  | disconnected => 1
  | connected => 2
  | error => 3

/-- The state of a number in the store's table of states. -/
def ofNumber? (n : Int) : Option State :=
  all.find? (·.number = n)

/-- The names in answers and what they stand for. -/
def words : List (String × State) := all.map fun s => (s.word, s)

theorem ofName?_name (s : State) : ofName? s.name = some s := by
  cases s <;> decide

theorem ofNumber?_number (s : State) : ofNumber? s.number = some s := by
  cases s <;> decide

end State

end RunDispatch.Connector
