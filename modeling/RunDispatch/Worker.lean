/-
# The worker

A worker takes requests, lets a run work on each, and keeps the registry of what became of them. A
submitted run is watched: its end is recorded. Once shutdown has begun nothing more is taken, and
the submitted runs are told to stop.

Key definitions: `Task`, `Worker`, `Worker.ofSettings?`, `Worker.spawn`, `Worker.submit`,
`Worker.deliver`, `Worker.inFlight`, `Worker.beginShutdown`, `Worker.cleanup`.
-/
import RunDispatch.Http.Problem
import RunDispatch.Registry
import RunDispatch.Run.Machine
import RunDispatch.Settings

namespace RunDispatch

/-- A run that a worker has spawned: whether it was submitted, and whether its end is watched. -/
structure Task where
  run : Run
  submitted : Bool
  watched : Bool

/-- A worker: how it is set up, what its runs share, the registry, its runs in the order in which
they were spawned, and whether shutdown has begun. -/
structure Worker where
  setup : Run.Setup
  shared : Run.Shared
  registry : Registry
  tasks : List Task
  closing : Bool

namespace Worker

/-- How the runs of a worker are set up. -/
def setupOf (s : Settings) : Run.Setup where
  root := s.stagingRoot
  layout := s.layout
  activityTimeout := s.activityTimeout * 1000
  stopGrace := s.stopGrace * 1000

/-- A worker before its first run, unless it has more slots than can be kept count of. -/
def ofSettings? (s : Settings) (disk : Staging.Disk) : Option Worker := do
  let slots ← Run.Slots.ofNat? s.slots
  return {
    setup := setupOf s
    shared := ⟨.empty (s.dispatchTtl * 1000), disk, slots⟩
    registry := .empty
    tasks := []
    closing := false }

/-- The run of a number. -/
def run? (w : Worker) (number : Nat) : Option Run :=
  w.tasks[number]?.map (·.run)

/-- How many submitted runs have not ended. -/
def inFlight (w : Worker) : Nat :=
  w.tasks.countP fun t => t.watched && !t.run.isOver

/-- How many slots are free. -/
def availableSlots (w : Worker) : Nat := w.shared.slots.free

/-- Spawns a run, and tells its number. A run that is submitted after shutdown has begun is told to
stop from the start. -/
def spawn (w : Worker) (r : Request) (submitted : Bool) : Worker × Nat :=
  let number := w.tasks.length
  let run := { Run.start number r with cancelled := submitted && w.closing }
  let task : Task := ⟨run, submitted, submitted⟩
  ({ w with tasks := w.tasks ++ [task] }, number)

/-- Records a request as running. -/
def recordStart (w : Worker) (now : Nat) (r : Request) : Worker :=
  { w with registry := w.registry.started now r.containerName r.kind }

/-- Takes a request, unless shutdown has begun: it is recorded as running, and its run is
spawned. -/
def submit (w : Worker) (now : Nat) (r : Request) : Except Http.Problem (Worker × Nat) :=
  if w.closing then .error .shuttingDown
  else .ok ((w.recordStart now r).spawn r true)

/-- Records the end of a watched run. -/
def recordEnd (g : Registry) (now : Nat) (t : Task) : Registry :=
  if t.watched then
    match t.run.phase with
    | .ended result => g.finished now t.run.name t.run.request.kind result
    | .broken => g.panicked now t.run.name t.run.request.kind
    | _ => g
  else g

/-- Something happens to a run; tells the output to be shown. -/
def deliver (w : Worker) (now number : Nat) (e : Run.Event) : Worker × List Container.Chunk :=
  match w.tasks[number]? with
  | none => (w, [])
  | some t =>
    if t.run.isOver then (w, [])
    else
      let ((shared, run), shown) := t.run.step w.setup now w.shared e
      let t := { t with run }
      ({ w with
          shared
          tasks := w.tasks.set number t
          registry := if run.isOver then recordEnd w.registry now t else w.registry },
        shown)

/-- Marks a run as told to stop, which it notices when it looks next. -/
def tellToStop (w : Worker) (number : Nat) : Worker :=
  match w.tasks[number]? with
  | none => w
  | some t => { w with tasks := w.tasks.set number { t with run.cancelled := true } }

/-- Stops watching a run: it goes on, but counts no more and its end is not recorded. -/
def forget (w : Worker) (number : Nat) : Worker :=
  match w.tasks[number]? with
  | none => w
  | some t => { w with tasks := w.tasks.set number { t with watched := false } }

/-- Shutdown begins: nothing more is taken, and all submitted runs are told to stop. -/
def beginShutdown (w : Worker) : Worker :=
  { w with
    closing := true
    tasks := w.tasks.map fun t =>
      if t.submitted then { t with run := { t.run with cancelled := true } } else t }

/-- The last status of a run. -/
def status (w : Worker) (name : String) : Option Status := w.registry.get name

/-- Removes expired markers, then finished runs as old as a marker gets. -/
def evict (w : Worker) (now : Nat) : Worker :=
  { w with
    shared := { w.shared with markers := (w.shared.markers.evict now).2 }
    registry := (w.registry.evict now w.shared.markers.ttl).2 }

/-- Removes the staged files of a connector's operations in turn, and counts them. -/
def unstageAll (root : String) (id : Connector.Id) (d : Staging.Disk) (removed : Nat) :
    List Operation → Staging.Disk × Except Staging.StagingError Nat
  | [] => (d, .ok removed)
  | kind :: r =>
    match Staging.unstage root (Container.nameFor id kind) d with
    | (d, .ok n) => unstageAll root id d (removed + n) r
    | (d, .error e) => (d, .error e)

/-- Removes every staged file of a connector, and counts them. Without any time for it only the
first removal is begun. -/
def cleanup (w : Worker) (id : Connector.Id) : Worker × Except Run.Failure Nat :=
  if w.setup.activityTimeout = 0 then
    let path := Staging.pathFor w.setup.root .config (Container.nameFor id .check)
    ({ w with shared.disk := (w.shared.disk.remove path).1 }, .error (.timeout id.display 0))
  else
    let (disk, result) := unstageAll w.setup.root id w.shared.disk 0 Operation.all
    ({ w with shared.disk := disk }, result.mapError Run.Failure.staging)

end Worker

end RunDispatch
