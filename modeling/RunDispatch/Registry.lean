/-
# The registry of runs

The registry holds the last status of each run that was submitted, by container name. A finished
status is forgotten once it is old enough; a running one never.

Key definitions: `Status`, `Registry`, `Registry.started`, `Registry.finished`,
`Registry.panicked`, `Registry.get`, `Registry.evict`.
Key theorems: `Registry.get_record`.
-/
import RunDispatch.Run.Failure
import RunDispatch.Table

namespace RunDispatch

/-- Where a run stands. -/
inductive Status where
  | running (kind : Operation)
  | completed (report : Run.Report)
  | failed (kind : Operation) (category message : String)
  deriving DecidableEq, Repr

/-- Whether a run has ended. -/
def Status.isTerminal : Status → Bool
  | running _ => false
  | _ => true

/-- The status that the result of a run has. -/
def Status.ofResult (kind : Operation) : Except Run.Failure Run.Report → Status
  | .ok report => completed report
  | .error f => failed kind f.kind f.message

/-- The status of a run that broke down. -/
def Status.panicked (kind : Operation) : Status := failed kind "Panic" "Run task panicked"

/-- The last status of each run, and when it was recorded, in milliseconds. -/
structure Registry where
  entries : Table (Status × Nat)
  deriving DecidableEq, Repr

namespace Registry

/-- A registry without runs. -/
def empty : Registry := ⟨[]⟩

/-- Records a status. -/
def record (r : Registry) (now : Nat) (name : String) (s : Status) : Registry :=
  ⟨r.entries.put name (s, now)⟩

/-- Records that a run was started. -/
def started (r : Registry) (now : Nat) (name : String) (kind : Operation) : Registry :=
  r.record now name (.running kind)

/-- Records the result of a run. -/
def finished (r : Registry) (now : Nat) (name : String) (kind : Operation)
    (result : Except Run.Failure Run.Report) : Registry :=
  r.record now name (.ofResult kind result)

/-- Records that a run broke down. -/
def panicked (r : Registry) (now : Nat) (name : String) (kind : Operation) : Registry :=
  r.record now name (.panicked kind)

/-- The last status of a run. -/
def get (r : Registry) (name : String) : Option Status :=
  (r.entries.find? name).map (·.1)

/-- Whether an entry stays when finished runs of an age go. -/
def stays (now age : Nat) (e : Status × Nat) : Bool :=
  !e.1.isTerminal || now - e.2 < age

/-- Forgets the finished runs of at least an age, and counts them. -/
def evict (r : Registry) (now age : Nat) : Nat × Registry :=
  let kept := r.entries.keep (stays now age)
  (r.entries.length - kept.length, ⟨kept⟩)

/-- How many runs are recorded. -/
def size (r : Registry) : Nat := r.entries.length

theorem get_record (r : Registry) (now : Nat) (name n : String) (s : Status) :
    (r.record now name s).get n = if n = name then some s else r.get n := by
  simp only [get, record, Table.find?_put]
  split <;> rfl

end Registry

end RunDispatch
