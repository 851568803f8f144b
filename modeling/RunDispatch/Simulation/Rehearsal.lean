/-
# A rehearsal of a worker

A rehearsal lets a worker run against scripted collaborators in simulated time, which moves only
when the rehearsal waits. Runs go on as far as they can at each instant; a call that takes no time
is answered at once. File operations take no time either, but whatever is due at the same instant
goes before they are over. What is called, and what containers print, goes into the trace.

Key definitions: `Happening`, `Rehearsal`, `Rehearsal.feed`, `Rehearsal.advance`,
`Rehearsal.sleep`, `Rehearsal.await`, `Rehearsal.shutdown`, `Rehearsal.http`.
-/
import RunDispatch.Http.Service
import RunDispatch.Simulation.Agenda
import RunDispatch.Simulation.Script

namespace RunDispatch.Simulation

/-- What a trace tells. -/
inductive Happening where
  | readConfiguration (owner : String) (connector : Connector.Id)
  | writeState (owner : String) (connector : Connector.Id) (state : Connector.State)
  /-- A question to the runtime, and how long a container may take to stop. -/
  | asked (ask : Container.Ask) (grace : Nat)
  /-- A line that a container printed. -/
  | printed (name : String) (stream : Container.Stream) (line : String)

/-- What the agenda of a rehearsal holds. -/
inductive Wake where
  /-- A run starts. -/
  | start (run : Nat)
  /-- An event for a run, if the run has not been woken since: `turn` counts its wake-ups. -/
  | event (run turn : Nat) (e : Run.Event)
  /-- A run may notice that it was told to stop, or given a slot, or that its time is up. -/
  | notice (run : Nat) (e : Run.Event)
  /-- A task is given up from outside. -/
  | abort (run : Nat)
  /-- The attached output of a run's container ends. -/
  | pump (run : Nat) (name : String) (lines : List Container.Chunk)
  /-- The evictions with a number begin, or are due. -/
  | beginEviction (number : Nat)
  | evict (number : Nat)
  /-- All evictions end. -/
  | endEvictions

/-- Regular evictions: their period, and whether they have ended. -/
structure Evictions where
  period : Nat
  ended : Bool

/-- A worker with its collaborators, at an instant. -/
structure Rehearsal where
  worker : Worker
  now : Nat
  agenda : Agenda Wake
  runtime : RuntimeScript
  store : StoreScript
  counts : Counts
  reads : Nat
  writes : Nat
  /-- What has happened since the trace was last taken, the latest first. -/
  trace : List (Nat × Happening)
  /-- How often each run was woken. -/
  turns : List (Nat × Nat)
  /-- The runs whose attached output has ended. -/
  drained : List Nat
  evictions : List Evictions

namespace Rehearsal

/-- The beginning of a rehearsal. -/
def start (worker : Worker) (runtime : RuntimeScript) (store : StoreScript) : Rehearsal where
  worker := worker
  now := 0
  agenda := []
  runtime := runtime
  store := store
  counts := []
  reads := 0
  writes := 0
  trace := []
  turns := []
  drained := []
  evictions := []

/-- Something happens now. -/
def note (w : Rehearsal) (h : Happening) : Rehearsal :=
  { w with trace := (w.now, h) :: w.trace }

/-- Something is to happen after a while. -/
def plan (w : Rehearsal) (after : Nat) (urgency : Urgency) (what : Wake) : Rehearsal :=
  { w with agenda := w.agenda.insert ⟨w.now + after, urgency, what⟩ }

/-- How often a run was woken. -/
def turn (w : Rehearsal) (run : Nat) : Nat := (w.turns.lookup run).getD 0

/-- A run is woken once more. -/
def wake (w : Rehearsal) (run : Nat) : Rehearsal :=
  { w with turns := (run, w.turn run + 1) :: w.turns.filter fun e => e.1 != run }

/-- The lines of a chunk are printed. -/
def print (w : Rehearsal) (name : String) (c : Container.Chunk) : Rehearsal :=
  c.shownLines.foldl (fun w line => w.note (.printed name c.stream line)) w

/-- The lines of chunks are printed. -/
def printAll (w : Rehearsal) (name : String) (cs : List Container.Chunk) : Rehearsal :=
  cs.foldl (fun w c => w.print name c) w

/-- The event in which a call to a collaborator ends. -/
def eventOf {α : Type} (f : α → Run.Event) : Result α → Run.Event
  | .reply a => f a
  | .panic => .panic

/-- A call is made: it is noted and counted, and its delay and its end are told. -/
def call (w : Rehearsal) : Run.Call → Rehearsal × Nat × Run.Event
  | .readConfiguration owner id =>
    let w := { w.note (.readConfiguration owner id) with reads := w.reads + 1 }
    (w, w.store.readDelay, eventOf .configuration (w.store.read w.reads owner id))
  | .writeState owner id state =>
    let w := { w.note (.writeState owner id state) with writes := w.writes + 1 }
    (w, w.store.writeDelay, eventOf .stored (w.store.write w.writes owner id))
  | .container ask =>
    match subjectOf ask with
    | none => (w, 0, .container .done)
    | some (subject, step) =>
      let w := w.note (.asked ask w.worker.setup.stopGrace)
      let w := { w with counts := w.counts.more subject step }
      let (delay, result) := w.runtime.answer subject step (w.counts.of subject step)
      (w, delay, eventOf .container result)

/-- Whether something that a run may notice concerns it. -/
def concerns (r : Run) : Run.Event → Bool
  | .cancel => r.cancelled && r.listens
  | .timeout => r.holdsSlot
  | .slot =>
    match r.phase with
    | .queued _ => true
    | _ => false
  | _ => true

/-- The runs that were given a slot by a step are woken. -/
def wakeGranted (w : Rehearsal) (before : List Nat) : Rehearsal :=
  (w.worker.shared.slots.granted.filter fun n => !before.contains n).foldl
    (fun w n => w.plan 0 .answer (.notice n .slot)) w

/-- A run whose time has begun to run is woken when it is up. -/
def planLimit (w : Rehearsal) (number : Nat) (before : Option Nat) : Rehearsal :=
  match before, (w.worker.run? number).bind (·.deadline) with
  | none, some deadline => w.plan (deadline - w.now) .limit (.notice number .timeout)
  | _, _ => w

/-- Attached output that a reply of the runtime started ends after a while. -/
def planPump (w : Rehearsal) (number : Nat) (name : String) (e : Run.Event) : Rehearsal :=
  match e, (w.runtime.scriptFor name).pump with
  | .container (.started true), some p => w.plan p.ms .answer (.pump number name p.lines)
  | _, _ => w

mutual

/-- A run makes the call of its phase and goes on as far as it can at this instant. -/
def proceed : Nat → Rehearsal → Nat → Rehearsal
  | 0, w, _ => w
  | fuel + 1, w, number =>
    match w.worker.run? number with
    | none => w
    | some r =>
      match r.phase with
      | .staging _ _ | .releasing _ _ => w.plan 0 .file (.event number (w.turn number) .file)
      | .living (.draining _ _) =>
        if w.drained.contains number then feed fuel w number (.container .done) else w
      | _ =>
        match r.call? w.worker.setup with
        | none => w
        | some c =>
          let (w, delay, e) := w.call c
          if delay = 0 then feed fuel w number e
          else w.plan delay .answer (.event number (w.turn number) e)

/-- Something happens to a run, and it goes on as far as it can at this instant. -/
def feed : Nat → Rehearsal → Nat → Run.Event → Rehearsal
  | 0, w, _, _ => w
  | fuel + 1, w, number, e =>
    match w.worker.run? number with
    | none => w
    | some r =>
      let granted := w.worker.shared.slots.granted
      let (worker, shown) := w.worker.deliver w.now number e
      let w := { w with worker }.wake number
      let w := w.printAll r.name shown
      let w := w.planLimit number r.deadline
      let w := w.planPump number r.name (r.heeded e)
      let w := w.wakeGranted granted
      proceed fuel w number

end

/-- More steps than a run takes at one instant. -/
def instantFuel : Nat := 1000

/-- Whether a run has yet to start. -/
def isPending (w : Rehearsal) (number : Nat) : Bool :=
  w.agenda.any fun item =>
    match item.what with
    | .start run => run == number
    | _ => false

/-- A task is given up. A submitted run that has started goes on without being watched. -/
def giveUp (w : Rehearsal) (number : Nat) (t : Task) : Rehearsal :=
  if t.run.isOver then w
  else
    let pending := w.isPending number
    let w := if t.submitted then { w with worker := w.worker.forget number } else w
    if t.submitted && !pending then w else feed instantFuel w number .drop

/-- Something on the agenda happens. -/
def happen (w : Rehearsal) : Wake → Rehearsal
  | .start run => proceed instantFuel w run
  | .event run turn e => if w.turn run = turn then feed instantFuel w run e else w
  | .notice run e =>
    match w.worker.run? run with
    | some r => if !r.isOver && concerns r e then feed instantFuel w run e else w
    | none => w
  | .abort run =>
    match w.worker.tasks[run]? with
    | some t => w.giveUp run t
    | none => w
  | .pump run name lines =>
    let w := { w.printAll name lines with drained := run :: w.drained }
    match w.worker.run? run with
    | some r =>
      match r.phase with
      | .living (.draining _ _) => feed instantFuel w run (.container .done)
      | _ => w
    | none => w
  | .beginEviction number =>
    match w.evictions[number]? with
    | some v =>
      -- Without a period there is nothing to wait for.
      if w.worker.closing ∨ v.period = 0 then
        { w with evictions := w.evictions.set number { v with ended := true } }
      else w.plan v.period .answer (.evict number)
    | none => w
  | .evict number =>
    match w.evictions[number]? with
    | some v =>
      if v.ended then w
      else { w with worker := w.worker.evict w.now }.plan v.period .answer (.evict number)
    | none => w
  | .endEvictions => { w with evictions := w.evictions.map fun v => { v with ended := true } }

/-- Lets everything happen that is due before a time, until a condition is met; `fuel` bounds how
much that is. -/
def runUntil (stop : Rehearsal → Bool) (limit : Nat) : Nat → Rehearsal → Rehearsal
  | 0, w => w
  | fuel + 1, w =>
    if stop w then w
    else match w.agenda.next? limit with
      | none => w
      | some (item, agenda) =>
        runUntil stop limit fuel ({ w with agenda, now := item.time }.happen item.what)

/-- More steps than a rehearsal takes. -/
def horizon : Nat := Nat.pow 2 40

/-- Lets time pass until an instant; what is due at that very instant does not happen yet. -/
def advance (w : Rehearsal) (target : Nat) : Rehearsal :=
  { runUntil (fun _ => false) target horizon w with now := target }

/-- Waits for a number of milliseconds. -/
def sleep (w : Rehearsal) (ms : Nat) : Rehearsal := w.advance (w.now + ms)

/-- Lets the present instant pass. -/
def settle (w : Rehearsal) : Rehearsal := w.sleep 1

/-- What became of a task. -/
inductive Ending where
  | result (r : Except Run.Failure Run.Report)
  | panicked
  | aborted

/-- What has become of a task, if it is over. -/
def ending? (w : Rehearsal) (number : Nat) : Option Ending :=
  match w.worker.tasks[number]? with
  | none => none
  | some t =>
    if t.submitted && !t.watched then some .aborted
    else match t.run.phase with
      | .ended r => some (.result r)
      | .broken => some .panicked
      | .dropped => some .aborted
      | _ => none

/-- Waits for the end of a task, and lets that instant pass. -/
def await (w : Rehearsal) (number : Nat) : Rehearsal × Option Ending :=
  let limit := w.agenda.foldl (fun m i => max m i.time) w.now + horizon
  let w := runUntil (fun w => (w.ending? number).isSome) limit horizon w
  (w.settle, w.ending? number)

/-- Spawns a run outside the registry; tells its number. -/
def run (w : Rehearsal) (r : Request) : Rehearsal × Nat :=
  let (worker, number) := w.worker.spawn r false
  ({ w with worker }.plan 0 .answer (.start number), number)

/-- A run that was submitted starts when time is given to it. -/
def started (w : Rehearsal) (worker : Worker) (number : Nat) : Rehearsal :=
  { w with worker }.plan 0 .answer (.start number)

/-- Submits a request; tells the number of its run. -/
def submit (w : Rehearsal) (r : Request) : Except Http.Problem (Rehearsal × Nat) := do
  let (worker, number) ← w.worker.submit w.now r
  return (w.started worker number, number)

/-- Tells a run to stop. -/
def cancel (w : Rehearsal) (number : Nat) : Rehearsal :=
  { w with worker := w.worker.tellToStop number }.plan 0 .answer (.notice number .cancel)

/-- Gives a task up from outside. -/
def abort (w : Rehearsal) (number : Nat) : Rehearsal :=
  w.plan 0 .abort (.abort number)

/-- Starts regular evictions. -/
def startEviction (w : Rehearsal) (period : Nat) : Rehearsal :=
  let number := w.evictions.length
  let w : Rehearsal := { w with evictions := w.evictions ++ [⟨period, false⟩] }
  w.plan 0 .answer (.beginEviction number)

/-- Whether the regular evictions that were started last have ended. -/
def evictionEnded (w : Rehearsal) : Bool :=
  (w.evictions.getLast?.map (·.ended)).getD false

/-- Begins shutdown, waits at most `grace` milliseconds for the submitted runs, and lets that
instant pass; tells whether all have ended. -/
def shutdown (w : Rehearsal) (grace : Nat) : Rehearsal × Bool :=
  let w := { w with worker := w.worker.beginShutdown }
  let submitted := (List.range w.worker.tasks.length).filter fun n =>
    (w.worker.tasks[n]?.map (·.submitted)).getD false
  let w := submitted.foldl (fun w n => w.plan 0 .answer (.notice n .cancel)) w
  let w := w.plan 0 .answer .endEvictions
  let deadline := w.now + grace
  let w := runUntil (fun w => w.worker.inFlight == 0) deadline horizon w
  if w.worker.inFlight = 0 then (w.settle, true)
  else ({ w with now := deadline }.settle, false)

/-- Removes the staged files of a connector, and lets the instant pass. -/
def cleanup (w : Rehearsal) (id : Connector.Id) : Rehearsal × Except Run.Failure Nat :=
  let (worker, result) := w.worker.cleanup id
  ({ w with worker }.settle, result)

/-- Serves an HTTP request for which there are `timeout` seconds, and lets the instant pass. -/
def http (w : Rehearsal) (timeout : Nat) (r : Http.Request)
    (undecoded : Http.Undecoded := .lossy) : Rehearsal × Http.Answer :=
  let served := Http.serve timeout w.worker w.now r undecoded
  let w := match served.spawned with
    | some number => w.started served.worker number
    | none => { w with worker := served.worker }
  (w.settle, served.answer)

/-- What has happened since the trace was last taken, in order. -/
def takeTrace (w : Rehearsal) : List (Nat × Happening) × Rehearsal :=
  (w.trace.reverse, { w with trace := [] })

end Rehearsal

end RunDispatch.Simulation
