/-
# Staging

Before a run its payloads are written below the staging root, each to the path of its kind and the
run's name. Files that are kept on retries are used as they are. Whatever a run staged, reused
files included, is removed when the run is over, and at once when staging fails half way.

Key definitions: `StagingError`, `StagedFile`, `stagePayload`, `stage`, `release`, `unstage`.
-/
import RunDispatch.Operation
import RunDispatch.Staging.Tree

namespace RunDispatch.Staging

/-- What staging was doing when it failed. -/
inductive Action where
  | createFolders
  | write
  | remove
  deriving DecidableEq, Repr

/-- A failure of staging: what it was doing, to which file, and why it failed. -/
structure StagingError where
  action : Action
  path : String
  cause : String
  deriving DecidableEq, Repr

/-- The wording of a failure. -/
def StagingError.message (e : StagingError) : String :=
  let opening := match e.action with
    | .createFolders => "Unable to create folders for "
    | .write => "Unable to write "
    | .remove => "Unable to remove "
  opening ++ e.path ++ ": " ++ e.cause

/-- A failure with an error of the operating system. -/
def StagingError.of (action : Action) (path : String) (e : OsError) : StagingError :=
  ⟨action, path, e.message⟩

/-- A file that a run uses: its kind, its path, and whether it was there before. -/
structure StagedFile where
  kind : PayloadKind
  path : String
  reused : Bool
  deriving DecidableEq, Repr

/-- A payload and its kind. -/
abbrev Payload := PayloadKind × Bytes

/-- Writes one payload, unless it is to be kept and is there; tells whether it was. -/
def stagePayload (d : Disk) (path : String) (content : Bytes) (mode : StagingMode) :
    Disk × Except StagingError Bool :=
  let (there, d) := if mode = .keep then d.holds path else (false, d)
  if there then (d, .ok true)
  else
    match d.makeParents path with
    | (d, some e) => (d, .error (.of .createFolders path e))
    | (d, none) =>
      match d.write path content with
      | (d, some e) => (d, .error (.of .write path e))
      | (d, none) => (d, .ok false)

/-- Removes files in order, whatever goes wrong; counts those that went. -/
def release (d : Disk) : List StagedFile → Disk × Nat
  | [] => (d, 0)
  | f :: r =>
    match d.remove f.path with
    | (d, some _) => release d r
    | (d, none) => let (d, n) := release d r; (d, n + 1)

/-- Stages payloads after those that are staged already; these go when one fails. -/
def stageAfter (root name : String) (mode : StagingMode) (d : Disk) (staged : List StagedFile) :
    List Payload → Disk × Except StagingError (List StagedFile)
  | [] => (d, .ok staged)
  | (kind, content) :: r =>
    let path := pathFor root kind name
    match stagePayload d path content mode with
    | (d, .ok reused) => stageAfter root name mode d (staged ++ [⟨kind, path, reused⟩]) r
    | (d, .error e) => ((release d staged).1, .error e)

/-- Stages payloads in order under a name. -/
def stage (root name : String) (mode : StagingMode) (d : Disk) (payloads : List Payload) :
    Disk × Except StagingError (List StagedFile) :=
  stageAfter root name mode d [] payloads

/-- Removes the payloads of a name, one kind after another; one that is missing is fine, any other
failure ends it. Counts those that went. -/
def unstageKinds (root name : String) (d : Disk) (removed : Nat) :
    List PayloadKind → Disk × Except StagingError Nat
  | [] => (d, .ok removed)
  | kind :: r =>
    let path := pathFor root kind name
    match d.remove path with
    | (d, none) => unstageKinds root name d (removed + 1) r
    | (d, some .notFound) => unstageKinds root name d removed r
    | (d, some e) => (d, .error (.of .remove path e))

/-- Removes the payloads of a name. -/
def unstage (root name : String) (d : Disk) : Disk × Except StagingError Nat :=
  unstageKinds root name d 0 PayloadKind.all

end RunDispatch.Staging
