/-
# Failures of runs

Why a run, or a cleanup, did not succeed. None is tried again.

Key definitions: `StoreError`, `Failure`, `Failure.kind`, `Failure.message`.
-/
import RunDispatch.Container.Failure
import RunDispatch.Outcome
import RunDispatch.Rejection
import RunDispatch.Staging.Stager
import RunDispatch.Connector.Id

namespace RunDispatch

/-- Why the store of connectors gave no answer. -/
inductive StoreError where
  /-- The owner has no such connector. -/
  | notFound (owner : String) (connector : Connector.Id)
  /-- The store itself failed. -/
  | backend (detail : String)
  deriving DecidableEq

/-- The wording of an error. -/
def StoreError.message : StoreError → String
  | notFound owner connector =>
    "Connector " ++ connector.display ++ " not found for owner " ++ owner
  | backend detail => "Store backend error: " ++ detail

namespace Run

/-- Why a run failed. -/
inductive Failure where
  /-- The request itself is at fault. -/
  | request (r : Rejection)
  /-- The connector's configuration could not be read. -/
  | store (e : StoreError)
  /-- The run finished, but its result could not be stored. -/
  | stale (name : String) (outcome : Outcome) (e : StoreError)
  /-- The payloads could not be staged, or not be removed. -/
  | staging (e : Staging.StagingError)
  /-- A step of the container failed. -/
  | container (f : Container.Failure)
  /-- The run took too long, in milliseconds. -/
  | timeout (name : String) (ms : Nat)
  /-- The run was cancelled. -/
  | cancelled (name : String)
  deriving DecidableEq

namespace Failure

/-- The category of a failure. -/
def kind : Failure → String
  | request _ => "ParsingError"
  | store _ => "StoreError"
  | stale _ _ _ => "StoreError"
  | staging _ => "StagingError"
  | container _ => "RuntimeError"
  | timeout _ _ => "TimeoutError"
  | cancelled _ => "CancelledError"

/-- The wording of a failure. -/
def message : Failure → String
  | request r => "Unable to parse run request: " ++ r.message
  | store e => "Resource store error: " ++ e.message
  | stale name outcome e =>
    "Run " ++ name ++ " finished " ++ outcome.name ++ " but the connector state may be stale: " ++
      e.message
  | staging e => "Staging failed: " ++ e.message
  | container f => "Container run failed: " ++ f.message
  | timeout name ms => "Activity for " ++ name ++ " timed out after " ++ toString (ms / 1000) ++ "s"
  | cancelled name => "Run " ++ name ++ " was cancelled"

/-- Whether the run should be tried again: never. -/
def retryable (_ : Failure) : Bool := false

/-- Whether the image could not be had, so that no container was made. -/
def isPull : Failure → Bool
  | container f => f.isPull
  | _ => false

end Failure

/-- What a run that finished reports. -/
structure Report where
  containerName : String
  kind : Operation
  outcome : Outcome
  /-- False if the run found another one dispatched under its name. -/
  dispatched : Bool
  /-- The container ended and could not be removed, not even in a second attempt. -/
  cleanupFailed : Bool
  deriving DecidableEq, Repr

/-- The connectivity that the run stored. -/
def Report.state (r : Report) : Connector.State := r.outcome.connectivity

end Run

end RunDispatch
