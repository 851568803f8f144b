/-
# The life of one container

A container's image is pulled, the container is made, started and waited for, and its output is
shown: as it comes if the container's streams are attached, from its logs otherwise. Once the image
is there the container is removed whatever happens, and a failure on the way there is not hidden by
one of the removal. Each stage asks the runtime one question and goes on with the reply.

Key definitions: `Ask`, `Reply`, `Stage`, `Exit`, `Stage.ask?`, `Stage.next`.
-/
import RunDispatch.Container.Failure
import RunDispatch.Container.Output
import RunDispatch.Container.Spec

namespace RunDispatch.Container

/-- A question to the runtime. -/
inductive Ask where
  | pull (image : Image)
  | create (spec : Spec)
  | start (id name : String) (stdin : Option Bytes)
  | wait (id name : String)
  /-- Not a request: the end of the attached output is awaited. -/
  | drain (name : String)
  | logs (id name : String)
  | remove (name : String)
  deriving DecidableEq, Repr

/-- A reply of the runtime. -/
inductive Reply where
  | failed (f : Failure)
  | done
  | created (id : String)
  /-- The container runs; its output is attached or not. -/
  | started (attached : Bool)
  | exited (status : Int)
  | collected (chunks : List Chunk)
  deriving DecidableEq, Repr

/-- How a container ended: its identifier, its exit status, and what went wrong when it was to be
removed. -/
structure Exit where
  id : String
  status : Int
  cleanup : Option Failure
  deriving DecidableEq, Repr

/-- Where a container's life stands. -/
inductive Stage where
  | pulling
  | creating
  | starting (id : String)
  | waiting (id : String) (attached : Bool)
  | draining (id : String) (status : Int)
  | collecting (id : String) (status : Int)
  | removing (result : Except Failure (String × Int))
  | ended (result : Except Failure Exit)

namespace Stage

/-- The payload of standard input, if the container reads it: what is given, or nothing. -/
def stdinFor (spec : Spec) (stdin : Option Bytes) : Option Bytes :=
  if spec.attachStdin then some (stdin.getD []) else none

/-- The question that a stage asks. -/
def ask? (spec : Spec) (stdin : Option Bytes) : Stage → Option Ask
  | pulling => some (.pull spec.image)
  | creating => some (.create spec)
  | starting id => some (.start id spec.name (stdinFor spec stdin))
  | waiting id _ => some (.wait id spec.name)
  | draining _ _ => some (.drain spec.name)
  | collecting id _ => some (.logs id spec.name)
  | removing _ => some (.remove spec.name)
  | ended _ => none

/-- The end that a container comes to when its removal is over. -/
def exit (result : Except Failure (String × Int)) (cleanup : Option Failure) :
    Except Failure Exit :=
  result.map fun (id, status) => ⟨id, status, cleanup⟩

/-- The stage after a reply, and the output to be shown. A reply to another question changes
nothing. -/
def next : Stage → Reply → Stage × List Chunk
  | pulling, .failed f => (ended (.error f), [])
  | pulling, .done => (creating, [])
  | creating, .failed f => (removing (.error f), [])
  | creating, .created id => (starting id, [])
  | starting _, .failed f => (removing (.error f), [])
  | starting id, .started attached => (waiting id attached, [])
  | waiting _ _, .failed f => (removing (.error f), [])
  | waiting id true, .exited status => (draining id status, [])
  | waiting id false, .exited status => (collecting id status, [])
  | draining id status, .done => (removing (.ok (id, status)), [])
  | collecting _ _, .failed f => (removing (.error f), [])
  | collecting id status, .collected chunks => (removing (.ok (id, status)), chunks)
  | removing result, .failed f => (ended (exit result (some f)), [])
  | removing result, .done => (ended (exit result none), [])
  | stage, _ => (stage, [])

end Stage

end RunDispatch.Container
