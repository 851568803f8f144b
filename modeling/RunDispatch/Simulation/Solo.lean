/-
# Containers one after another

Containers live one after another on one scripted runtime, in simulated time. Attached output ends
by itself, possibly after the container whose output it is was removed, or while another lives.

Key definitions: `Solo`, `Solo.live`, `Solo.remove`.
-/
import RunDispatch.Simulation.Agenda
import RunDispatch.Simulation.Script

namespace RunDispatch.Simulation

/-- What happens to containers: a question is asked, or a line is printed. -/
inductive SoloEvent where
  | asked (ask : Container.Ask)
  | printed (name : String) (stream : Container.Stream) (line : String)

/-- A scripted runtime, at an instant. -/
structure Solo where
  runtime : RuntimeScript
  now : Nat
  /-- The attached outputs that have not ended, each with a number. -/
  pumps : Agenda (Nat × String × List Container.Chunk)
  counts : Counts
  /-- What has happened since the trace was last taken, the latest first. -/
  trace : List (Nat × SoloEvent)
  /-- How many attached outputs there were. -/
  pumped : Nat

namespace Solo

/-- A runtime at the beginning. -/
def start (runtime : RuntimeScript) : Solo := ⟨runtime, 0, [], [], [], 0⟩

/-- Something happens now. -/
def note (w : Solo) (e : SoloEvent) : Solo :=
  { w with trace := (w.now, e) :: w.trace }

/-- The lines of chunks are printed. -/
def printAll (w : Solo) (name : String) (cs : List Container.Chunk) : Solo :=
  cs.foldl (fun w c => c.shownLines.foldl (fun w l => w.note (.printed name c.stream l)) w) w

/-- Lets the attached outputs end that are due before a time; `fuel` bounds their number. -/
def passUntil (limit : Nat) : Nat → Solo → Solo
  | 0, w => w
  | fuel + 1, w =>
    match w.pumps.next? limit with
    | none => w
    | some (item, pumps) =>
      passUntil limit fuel
        ({ w with pumps, now := max w.now item.time }.printAll item.what.2.1 item.what.2.2)

/-- Lets time pass until an instant. -/
def advance (w : Solo) (target : Nat) : Solo :=
  { passUntil target w.pumps.length w with now := target }

/-- Waits for the end of the attached output of a number. -/
def drain (w : Solo) (number : Nat) : Solo :=
  match w.pumps.find? fun item => item.what.1 == number with
  | none => w
  | some item => passUntil (item.time + 1) w.pumps.length w

/-- Asks the runtime; tells the reply, or that the runtime broke down. -/
def ask (w : Solo) (a : Container.Ask) : Solo × Result Container.Reply :=
  match subjectOf a with
  | none => (w.drain w.pumped, .reply .done)
  | some (subject, step) =>
    let w := w.note (.asked a)
    let w := { w with counts := w.counts.more subject step }
    let (delay, result) := w.runtime.answer subject step (w.counts.of subject step)
    (w.advance (w.now + delay), result)

/-- Attached output that a reply started ends after a while. -/
def startPump (w : Solo) (name : String) (r : Container.Reply) : Solo :=
  match r, (w.runtime.scriptFor name).pump with
  | .started true, some p =>
    let number := w.pumped + 1
    { w with
      pumped := number
      pumps := w.pumps.insert ⟨w.now + p.ms, .answer, (number, name, p.lines)⟩ }
  | _, _ => w

/-- Lets a container live from a stage on; `fuel` exceeds the number of stages. -/
def liveFrom (spec : Container.Spec) (stdin : Option Bytes) :
    Nat → Solo → Container.Stage → Solo × Option (Except Container.Failure Container.Exit)
  | 0, w, _ => (w, none)
  | fuel + 1, w, stage =>
    match stage.ask? spec stdin with
    | none =>
      match stage with
      | .ended result => (w, some result)
      | _ => (w, none)
    | some a =>
      match w.ask a with
      | (w, .panic) => (w, none)
      | (w, .reply r) =>
        let w := w.startPump spec.name r
        let (stage, shown) := stage.next r
        liveFrom spec stdin fuel (w.printAll spec.name shown) stage

/-- Lets a container live; tells how it ended, unless the runtime broke down. -/
def live (w : Solo) (spec : Container.Spec) (stdin : Option Bytes) :
    Solo × Option (Except Container.Failure Container.Exit) :=
  liveFrom spec stdin 8 w .pulling

/-- Removes a container; tells what went wrong, unless the runtime broke down. -/
def remove (w : Solo) (name : String) : Solo × Option (Option Container.Failure) :=
  match w.ask (.remove name) with
  | (w, .reply (.failed f)) => (w, some (some f))
  | (w, .reply _) => (w, some none)
  | (w, .panic) => (w, none)

/-- What has happened since the trace was last taken, in order. -/
def takeTrace (w : Solo) : List (Nat × SoloEvent) × Solo :=
  (w.trace.reverse, { w with trace := [] })

end Solo

end RunDispatch.Simulation
