/-
# A run, step by step

A run reads the connector's configuration, waits for a slot, claims the dispatch marker of its
name, stages its payloads, lets a container live, and removes what it staged. Then, without the
slot, it stores the connectivity and deletes the marker. A run that finds a live marker launches
nothing and counts as a success. From the slot on the run can time out, and while it waits for a
slot or holds one it can be cancelled; a run that fails so, or by itself, removes its container if
there may be one, and then deletes its marker.

A run is described by the phase in which it waits, and `step` tells how it goes on when something
happens. All runs share the markers, the disk and the slots. Between two phases a run goes on
without interruption, so the interleavings of runs are the sequences of their steps.

Key definitions: `Setup`, `Shared`, `Phase`, `Run`, `Event`, `Call`, `Run.call?`, `Run.heeded`,
`Run.react`, `Run.step`.
-/
import RunDispatch.Container.Lifecycle
import RunDispatch.Layout
import RunDispatch.Marker
import RunDispatch.Run.Failure
import RunDispatch.Run.Slots

namespace RunDispatch

namespace Run

/-- What all runs of a worker have in common. Durations are in milliseconds. -/
structure Setup where
  root : String
  layout : Layout
  activityTimeout : Nat
  stopGrace : Nat
  deriving DecidableEq, Repr

/-- What runs share. -/
structure Shared where
  markers : Markers
  disk : Staging.Disk
  slots : Slots
  deriving DecidableEq, Repr

/-- The file operation with which a payload is staged at the moment. -/
inductive StagingStep where
  | looking
  | makingFolders
  | writing
  deriving DecidableEq, Repr

/-- What a run that did not fail found out. -/
inductive Verdict where
  /-- Its container ended. -/
  | launched (exit : Container.Exit)
  /-- Another run is dispatched under its name. -/
  | alreadyDispatched

/-- What is stored and reported of a run that did not fail. -/
structure Finding where
  outcome : Outcome
  dispatched : Bool
  cleanupFailed : Bool
  deriving DecidableEq, Repr

/-- What a run waits for. -/
inductive Phase where
  /-- The connector's configuration. -/
  | reading
  /-- A slot. -/
  | queued (configuration : Bytes)
  /-- A file operation on the first payload that is left. -/
  | staging (place : StagingStep) (left : List Staging.Payload)
  /-- The container. -/
  | living (stage : Container.Stage)
  /-- The removal of the first staged file that is left. -/
  | releasing (left : List Staging.StagedFile) (exit : Container.Exit)
  /-- The second attempt to remove a container that ended. -/
  | retrying (exit : Container.Exit)
  /-- The store, which takes the connectivity. -/
  | recording (finding : Finding)
  /-- The removal of the container of a run that failed. -/
  | compensating (failure : Failure)
  /-- Nothing: the run is over. -/
  | ended (result : Except Failure Report)
  /-- Nothing: the run broke down. -/
  | broken
  /-- Nothing: the run was dropped. -/
  | dropped

/-- What happens to a run. -/
inductive Event where
  /-- The store answers the configuration. -/
  | configuration (r : Except StoreError Bytes)
  /-- A slot was given to the run. -/
  | slot
  /-- The file operation is over. -/
  | file
  /-- The container runtime answers. -/
  | container (r : Container.Reply)
  /-- The store has taken the connectivity, or not. -/
  | stored (r : Except StoreError Unit)
  /-- The run is told to stop. -/
  | cancel
  /-- The run's time is up. -/
  | timeout
  /-- What the run called broke down, and the run with it. -/
  | panic
  /-- The run is given up from outside. -/
  | drop

/-- A call that a run makes and then waits for. -/
inductive Call where
  | readConfiguration (owner : String) (connector : Connector.Id)
  | writeState (owner : String) (connector : Connector.Id) (state : Connector.State)
  | container (ask : Container.Ask)
  deriving DecidableEq

end Run

/-- A run: its number, its request, whether it was told to stop, whether it claimed the marker, the
staged files it guards, when its time is up, and what it waits for. -/
structure Run where
  number : Nat
  request : Request
  cancelled : Bool
  claimed : Bool
  guarded : List Staging.StagedFile
  deadline : Option Nat
  phase : Run.Phase

namespace Run

/-- A run at its start. -/
def start (number : Nat) (request : Request) : Run where
  number := number
  request := request
  cancelled := false
  claimed := false
  guarded := []
  deadline := none
  phase := .reading

/-- The name of a run. -/
def name (r : Run) : String := r.request.containerName

/-- Whether the run is over, in whatever way. -/
def isOver (r : Run) : Bool :=
  match r.phase with
  | .ended _ | .broken | .dropped => true
  | _ => false

/-- Whether the run holds a slot. -/
def holdsSlot (r : Run) : Bool :=
  match r.phase with
  | .staging _ _ | .living _ | .releasing _ _ => true
  | _ => false

/-- Whether the run stops as soon as it is told to: while it waits for a slot, or holds one. -/
def listens (r : Run) : Bool :=
  match r.phase with
  | .queued _ => true
  | _ => r.holdsSlot

/-- What the run makes of something that happens: being told to stop comes before all else but being
given up. -/
def heeded (r : Run) : Event → Event
  | .drop => .drop
  | e => if r.cancelled && r.listens then .cancel else e

/-- The call that the run waits for. -/
def call? (setup : Setup) (r : Run) : Option Call :=
  match r.phase with
  | .reading => some (.readConfiguration r.request.owner r.request.connector)
  | .living stage =>
    (stage.ask? (specFor r.request setup.layout) r.request.records).map .container
  | .retrying _ => some (.container (.remove r.name))
  | .compensating _ => some (.container (.remove r.name))
  | .recording finding =>
    some (.writeState r.request.owner r.request.connector finding.outcome.connectivity)
  | _ => none

/-! ## The way of a run -/

/-- The run is over. -/
def finish (r : Run) (result : Except Failure Report) : Run :=
  { r with phase := .ended result }

/-- Deletes the marker that the run claimed. -/
def dropMarker (s : Shared) (r : Run) : Shared :=
  if r.claimed then { s with markers := (s.markers.delete r.name).2 } else s

/-- Gives the run's slot back. -/
def leaveSlot (s : Shared) : Shared :=
  { s with slots := s.slots.leave }

/-- Removes the files that the run guards. -/
def dropGuard (s : Shared) (r : Run) : Shared × Run :=
  ({ s with disk := (Staging.release s.disk r.guarded).1 }, { r with guarded := [] })

/-- The run fails without its slot: its container is removed if there may be one, and then its
marker. -/
def fail (s : Shared) (r : Run) (f : Failure) : Shared × Run :=
  if r.claimed ∧ ¬ f.isPull then (s, { r with phase := .compensating f })
  else (dropMarker s r, r.finish (.error f))

/-- The run did not fail: what it found out is stored, after a second attempt to remove a container
that could not be removed. -/
def complete (s : Shared) (r : Run) : Verdict → Shared × Run
  | .alreadyDispatched => (s, { r with phase := .recording ⟨.ok, false, false⟩ })
  | .launched exit =>
    if exit.cleanup.isSome then (s, { r with phase := .retrying exit })
    else (s, { r with phase := .recording ⟨.ofExitStatus exit.status, true, false⟩ })

/-- The way of staging the first payload that is left. -/
def firstStep (mode : StagingMode) : StagingStep :=
  if mode = .keep then .looking else .makingFolders

/-- Goes on with the payloads that are left, or with the container when none is. -/
def stageNext (s : Shared) (r : Run) (left : List Staging.Payload) : Shared × Run :=
  match left with
  | [] => (s, { r with phase := .living .pulling })
  | _ :: _ => (s, { r with phase := .staging (firstStep r.request.kind.stagingMode) left })

/-- Staging failed: what was staged goes, and so does the marker, since nothing was launched. -/
def stagingFailed (s : Shared) (r : Run) (e : Staging.StagingError) : Shared × Run :=
  let (s, r) := dropGuard s r
  let s := dropMarker s r
  fail (leaveSlot s) { r with claimed := false } (.staging e)

/-- The payloads of a run. -/
def payloads (r : Run) (configuration : Bytes) : List Staging.Payload :=
  (.config, configuration) :: (r.request.catalog.map fun c => (.catalog, c)).toList

/-- The run has its slot: its time starts, and it claims its marker. -/
def enter (setup : Setup) (now : Nat) (s : Shared) (r : Run) (configuration : Bytes) :
    Shared × Run :=
  let r := { r with deadline := some (now + setup.activityTimeout) }
  match s.markers.claim now r.name with
  | (false, markers) => complete (leaveSlot { s with markers }) r .alreadyDispatched
  | (true, markers) =>
    let r := { r with claimed := true }
    stageNext { s with markers } r (r.payloads configuration)

/-- The configuration is there: the run takes a slot or waits for one, unless it was told to
stop. -/
def queue (setup : Setup) (now : Nat) (s : Shared) (r : Run) (configuration : Bytes) :
    Shared × Run :=
  if r.cancelled then (s, r.finish (.error (.cancelled r.name)))
  else match s.slots.acquire r.number with
    | (true, slots) => enter setup now { s with slots } r configuration
    | (false, slots) => ({ s with slots }, { r with phase := .queued configuration })

/-- The path of a payload. -/
def payloadPath (setup : Setup) (r : Run) (kind : Staging.PayloadKind) : String :=
  Staging.pathFor setup.root kind r.request.stagingName

/-- The first payload that is left is staged; the run guards its file. -/
def staged (setup : Setup) (s : Shared) (r : Run) (kind : Staging.PayloadKind) (reused : Bool)
    (left : List Staging.Payload) : Shared × Run :=
  let file : Staging.StagedFile := ⟨kind, payloadPath setup r kind, reused⟩
  stageNext s { r with guarded := r.guarded ++ [file] } left

/-- A file operation of staging is over. -/
def stageFile (setup : Setup) (s : Shared) (r : Run) (place : StagingStep)
    (left : List Staging.Payload) : Shared × Run :=
  match left with
  | [] => stageNext s r []
  | (kind, content) :: rest =>
    let path := payloadPath setup r kind
    match place with
    | .looking =>
      match s.disk.holds path with
      | (true, disk) => staged setup { s with disk } r kind true rest
      | (false, disk) => ({ s with disk }, { r with phase := .staging .makingFolders left })
    | .makingFolders =>
      match s.disk.makeParents path with
      | (disk, none) => ({ s with disk }, { r with phase := .staging .writing left })
      | (disk, some e) => stagingFailed { s with disk } r (.of .createFolders path e)
    | .writing =>
      match s.disk.write path content with
      | (disk, none) => staged setup { s with disk } r kind false rest
      | (disk, some e) => stagingFailed { s with disk } r (.of .write path e)

/-- The container of a run is over: what was staged goes, file by file after a success, at once
after a failure. -/
def lived (s : Shared) (r : Run) : Except Container.Failure Container.Exit → Shared × Run
  | .error f =>
    let (s, r) := dropGuard s r
    fail (leaveSlot s) r (.container f)
  | .ok exit => (s, { r with guarded := [], phase := .releasing r.guarded exit })

/-- Nothing is left to be removed: the slot is given back, and the run is complete. -/
def released (s : Shared) (r : Run) (exit : Container.Exit) : Shared × Run :=
  complete (leaveSlot s) r (.launched exit)

/-- A reply of the container runtime while the container lives, with the output to be shown. -/
def live (s : Shared) (r : Run) (stage : Container.Stage) (reply : Container.Reply) :
    (Shared × Run) × List Container.Chunk :=
  match stage.next reply with
  | (.ended result, shown) =>
    match lived s r result with
    | (s, r) =>
      match r.phase with
      | .releasing [] exit => (released s r exit, shown)
      | _ => ((s, r), shown)
  | (stage, shown) => ((s, { r with phase := .living stage }), shown)

/-- The removal of a staged file is over, whatever came of it. -/
def releaseFile (s : Shared) (r : Run) (left : List Staging.StagedFile) (exit : Container.Exit) :
    Shared × Run :=
  match left with
  | [] => released s r exit
  | file :: rest =>
    let s := { s with disk := (s.disk.remove file.path).1 }
    match rest with
    | [] => released s r exit
    | _ :: _ => (s, { r with phase := .releasing rest exit })

/-- The file operation that the run waited for goes on by itself when the run stops waiting. It is taken to
be done at that moment; in truth it may be done a little later, since a thread of its own does it. -/
def finishFile (setup : Setup) (s : Shared) (r : Run) : Shared :=
  match r.phase with
  | .staging place ((kind, content) :: _) =>
    let path := payloadPath setup r kind
    match place with
    | .looking => { s with disk := (s.disk.holds path).2 }
    | .makingFolders => { s with disk := (s.disk.makeParents path).1 }
    | .writing => { s with disk := (s.disk.write path content).1 }
  | .releasing (file :: _) _ => { s with disk := (s.disk.remove file.path).1 }
  | _ => s

/-- The run leaves its slot from whatever it was doing there: the files it guards go. -/
def interrupt (setup : Setup) (s : Shared) (r : Run) : Shared × Run :=
  let (guardless, r') := dropGuard s r
  (leaveSlot (finishFile setup guardless r), r')

/-- The run is told to stop. It stops while it waits for a slot or holds one. -/
def cancel (setup : Setup) (s : Shared) (r : Run) : Shared × Run :=
  let r := { r with cancelled := true }
  let stopped : Failure := .cancelled r.name
  match r.phase with
  | .queued _ => ({ s with slots := s.slots.giveUp r.number }, r.finish (.error stopped))
  | _ =>
    if r.holdsSlot then
      let (s, r) := interrupt setup s r
      fail s r stopped
    else (s, r)

/-- The time of the run is up. It counts while the run holds a slot. -/
def expire (setup : Setup) (s : Shared) (r : Run) : Shared × Run :=
  if r.holdsSlot then
    let (s, r) := interrupt setup s r
    fail s r (.timeout r.name setup.activityTimeout)
  else (s, r)

/-- The run stops for good without more ado: only its slot and the files it guards are given
back. -/
def abandon (setup : Setup) (s : Shared) (r : Run) (phase : Phase) : Shared × Run :=
  if r.isOver then (s, r)
  else match r.phase with
    | .queued _ => ({ s with slots := s.slots.giveUp r.number }, { r with phase })
    | _ =>
      if r.holdsSlot then
        let (s, r) := interrupt setup s r
        (s, { r with phase })
      else (s, { r with phase })

/-- The report of a run that did not fail. -/
def report (r : Run) (finding : Finding) : Report :=
  ⟨r.name, r.request.kind, finding.outcome, finding.dispatched, finding.cleanupFailed⟩

/-- The store has answered: the marker goes in any case. -/
def recorded (s : Shared) (r : Run) (finding : Finding) : Except StoreError Unit → Shared × Run
  | .ok () => (dropMarker s r, r.finish (.ok (r.report finding)))
  | .error e => (dropMarker s r, r.finish (.error (.stale r.name finding.outcome e)))

/-- What is found of a container that ended, after the second attempt to remove it. -/
def retried (exit : Container.Exit) (reply : Container.Reply) : Option Finding :=
  match reply with
  | .done => some ⟨.ofExitStatus exit.status, true, false⟩
  | .failed _ => some ⟨.ofExitStatus exit.status, true, true⟩
  | _ => none

/-- How a run goes on with what it heeds, and the output to be shown. What does not fit the phase
changes nothing. -/
def react (setup : Setup) (now : Nat) (s : Shared) (r : Run) :
    Event → (Shared × Run) × List Container.Chunk
  | .configuration result =>
    match r.phase, result with
    | .reading, .ok configuration => (queue setup now s r configuration, [])
    | .reading, .error e => ((s, r.finish (.error (.store e))), [])
    | _, _ => ((s, r), [])
  | .slot =>
    match r.phase with
    | .queued configuration =>
      match s.slots.takeUp r.number with
      | (true, slots) => (enter setup now { s with slots } r configuration, [])
      | (false, _) => ((s, r), [])
    | _ => ((s, r), [])
  | .file =>
    match r.phase with
    | .staging place left => (stageFile setup s r place left, [])
    | .releasing left exit => (releaseFile s r left exit, [])
    | _ => ((s, r), [])
  | .container reply =>
    match r.phase with
    | .living stage => live s r stage reply
    | .retrying exit =>
      match retried exit reply with
      | some finding => ((s, { r with phase := .recording finding }), [])
      | none => ((s, r), [])
    | .compensating f =>
      match reply with
      | .done | .failed _ => ((dropMarker s r, r.finish (.error f)), [])
      | _ => ((s, r), [])
    | _ => ((s, r), [])
  | .stored result =>
    match r.phase with
    | .recording finding => (recorded s r finding result, [])
    | _ => ((s, r), [])
  | .cancel => (cancel setup s r, [])
  | .timeout => (expire setup s r, [])
  | .panic => (abandon setup s r .broken, [])
  | .drop => (abandon setup s r .dropped, [])

/-- How a run goes on when something happens, and the output to be shown. -/
def step (setup : Setup) (now : Nat) (s : Shared) (r : Run) (e : Event) :
    (Shared × Run) × List Container.Chunk :=
  r.react setup now s (r.heeded e)

end Run

end RunDispatch
