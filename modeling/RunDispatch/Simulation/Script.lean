/-
# Scripted collaborators

For a rehearsal the container runtime and the store of connectors follow scripts. A script tells how
long each step takes, which calls of it fail or break down, with which statuses containers exit and
what they print. Calls are counted for each subject and step: the subject is the container's name,
or the image for a pull.

Key definitions: `Step`, `Planned`, `Script`, `RuntimeScript`, `RuntimeScript.answer`,
`StoreScript`, `StoreScript.read`, `StoreScript.write`.
-/
import RunDispatch.Container.Lifecycle
import RunDispatch.Run.Failure
import RunDispatch.Table

namespace RunDispatch.Simulation

/-- A step of a container's life. -/
inductive Step where
  | pull
  | create
  | start
  | wait
  | logs
  | remove
  deriving DecidableEq, Repr

namespace Step

/-- The name of a step. -/
def name : Step → String
  | pull => "pull"
  | create => "create"
  | start => "start"
  | wait => "wait"
  | logs => "logs"
  | remove => "remove"

end Step

/-- A failure that a script plans: what it says, the calls that meet it, counted from one, or all of
them, and whether they break down instead. -/
structure Planned (κ : Type) where
  kind : κ
  message : String
  calls : Option (List Nat)
  panics : Bool

/-- Whether a call meets a planned failure. -/
def Planned.hits {κ : Type} (p : Planned κ) (call : Nat) : Bool :=
  match p.calls with
  | none => true
  | some calls => calls.contains call

/-- Attached output: it ends after a while, having printed its lines, and may break down then. -/
structure Pump where
  ms : Nat
  lines : List Container.Chunk
  panics : Bool

/-- How the runtime treats one subject. -/
structure Script where
  exits : List Int := []
  delay : Table Nat := []
  fail : Table (Planned Container.FailureKind) := []
  logs : List Container.Chunk := []
  pump : Option Pump := none

/-- How the runtime treats all subjects: some have a script of their own. -/
structure RuntimeScript where
  common : Script
  special : Table Script

/-- How often each step was called for each subject. -/
abbrev Counts := List ((String × Step) × Nat)

namespace Counts

/-- How often a step was called for a subject. -/
def of (c : Counts) (subject : String) (step : Step) : Nat :=
  (c.lookup (subject, step)).getD 0

/-- One more call. -/
def more (c : Counts) (subject : String) (step : Step) : Counts :=
  ((subject, step), c.of subject step + 1) :: c.filter fun e => e.1 != (subject, step)

end Counts

/-- What a call comes to: a reply, or the caller breaks down. -/
inductive Result (α : Type) where
  | reply (a : α)
  | panic

/-- The subject and the step of a question; the end of output is no step. -/
def subjectOf : Container.Ask → Option (String × Step)
  | .pull image => some (image.display, .pull)
  | .create spec => some (spec.name, .create)
  | .start _ name _ => some (name, .start)
  | .wait _ name => some (name, .wait)
  | .logs _ name => some (name, .logs)
  | .remove name => some (name, .remove)
  | .drain _ => none

/-- The status of the call-th exit: the last one stands for all that follow, zero for none. -/
def exitStatus (exits : List Int) (call : Nat) : Int :=
  match exits[call - 1]? with
  | some s => s
  | none => exits.getLast?.getD 0

namespace RuntimeScript

/-- The script of a subject. -/
def scriptFor (s : RuntimeScript) (subject : String) : Script :=
  (s.special.find? subject).getD s.common

/-- What the call-th call of a step gives when it does not fail. -/
def success (s : Script) (subject : String) (call : Nat) : Step → Container.Reply
  | .pull => .done
  | .create => .created ("id-" ++ subject)
  | .start => .started s.pump.isSome
  | .wait => .exited (exitStatus s.exits call)
  | .logs => .collected s.logs
  | .remove => .done

/-- How long the call-th call of a step takes, and what it comes to. -/
def answer (s : RuntimeScript) (subject : String) (step : Step) (call : Nat) :
    Nat × Result Container.Reply :=
  let script := s.scriptFor subject
  let delay := (script.delay.find? step.name).getD 0
  match script.fail.find? step.name with
  | some planned =>
    if planned.hits call then
      (delay, if planned.panics then .panic
        else .reply (.failed ⟨planned.kind, subject, planned.message⟩))
    else (delay, .reply (success script subject call step))
  | none => (delay, .reply (success script subject call step))

end RuntimeScript

/-- How the store of connectors behaves: the configurations it has, how long reads and writes take,
and which fail. -/
structure StoreScript where
  configurations : List (String × Connector.Id × Bytes)
  readDelay : Nat
  writeDelay : Nat
  readFails : Option (Planned Unit)
  writeFails : Option (Planned Unit)

namespace StoreScript

/-- The configuration of an owner's connector. -/
def find? (s : StoreScript) (owner : String) (id : Connector.Id) : Option Bytes :=
  (s.configurations.find? fun c => c.1 = owner ∧ c.2.1 = id).map (·.2.2)

/-- What a call comes to that fails as planned, or finds no connector. -/
def outcome {α : Type} (planned : Option (Planned Unit)) (call : Nat) (found : Option α)
    (owner : String) (id : Connector.Id) : Result (Except StoreError α) :=
  let plain : Result (Except StoreError α) :=
    match found with
    | some a => .reply (.ok a)
    | none => .reply (.error (.notFound owner id))
  match planned with
  | some p =>
    if p.hits call then if p.panics then .panic else .reply (.error (.backend p.message))
    else plain
  | none => plain

/-- What the call-th read comes to. -/
def read (s : StoreScript) (call : Nat) (owner : String) (id : Connector.Id) :
    Result (Except StoreError Bytes) :=
  outcome s.readFails call (s.find? owner id) owner id

/-- What the call-th write comes to. -/
def write (s : StoreScript) (call : Nat) (owner : String) (id : Connector.Id) :
    Result (Except StoreError Unit) :=
  outcome s.writeFails call ((s.find? owner id).map fun _ => ()) owner id

end StoreScript

end RunDispatch.Simulation
