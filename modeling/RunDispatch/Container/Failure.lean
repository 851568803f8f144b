/-
# Failures of the container runtime

Each step of a container's life fails in a way of its own, with the name of the container, or of the
image for a pull, and what the runtime says.

Key definitions: `FailureKind`, `Failure`, `Failure.message`, `Failure.isPull`.
-/
namespace RunDispatch.Container

/-- What the runtime was asked for when it failed. -/
inductive FailureKind where
  | connect
  | pull
  | create
  | attach
  | start
  | wait
  | logs
  | cleanup
  deriving DecidableEq, Repr

/-- The name of the step in which a failure of a kind arises. -/
def FailureKind.step : FailureKind → String
  | connect => "connect"
  | pull => "pull"
  | create => "create"
  | attach => "attach"
  | start => "start"
  | wait => "wait"
  | logs => "logs"
  | cleanup => "cleanup"

/-- A failure: its kind, the name it is about, and what the runtime says. -/
structure Failure where
  kind : FailureKind
  subject : String
  detail : String
  deriving DecidableEq, Repr

namespace Failure

/-- How the wording begins, up to the subject. -/
def opening : FailureKind → String
  | .connect => "Container runtime unavailable"
  | .pull => "Unable to pull image "
  | .create => "Unable to create container "
  | .attach => "Unable to attach to container "
  | .start => "Unable to start container "
  | .wait => "Error waiting for container "
  | .logs => "Unable to collect logs of container "
  | .cleanup => "Unable to stop or remove container "

/-- The wording of a failure. A runtime that is not there has no subject. -/
def message (f : Failure) : String :=
  opening f.kind ++ (if f.kind = .connect then "" else f.subject) ++ ": " ++ f.detail

/-- Whether the image could not be had, so that no container was made. -/
def isPull (f : Failure) : Bool := f.kind == .pull

end Failure

end RunDispatch.Container
