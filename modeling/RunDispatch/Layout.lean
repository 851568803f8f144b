/-
# What a connector's container sees

The staging root is mounted into every container, and a shared volume into those of write runs.
The command names the staged files as they are seen inside: `check --config PATH`, or
`write --config PATH --catalog PATH`.

Key definitions: `Layout`, `Layout.mountsFor`, `Layout.containerPath`, `command`, `specFor`.
-/
import RunDispatch.Container.Spec
import RunDispatch.Request
import RunDispatch.Staging.Path

namespace RunDispatch

/-- The mount of the staging root, and that of the shared volume if there is one. -/
structure Layout where
  staging : Container.Mount
  shared : Option Container.Mount
  deriving DecidableEq, Repr

namespace Layout

/-- The staging root mounted at its own path. -/
def bind (root : String) : Layout := ⟨⟨.bind, root, root⟩, none⟩

/-- The mounts of a run. -/
def mountsFor (l : Layout) (kind : Operation) : List Container.Mount :=
  l.staging :: (if kind.isWrite then l.shared.toList else [])

/-- A staged file as it is seen inside a container. -/
def containerPath (l : Layout) (payload : Staging.PayloadKind) (name : String) : String :=
  Staging.joinPath l.staging.target (Staging.relativePath payload name)

end Layout

/-- The command of a run's container. -/
def command (r : Request) (l : Layout) : List String :=
  [r.kind.verb, "--config", l.containerPath .config r.stagingName] ++
    (if r.kind.isWrite then ["--catalog", l.containerPath .catalog r.stagingName] else [])

/-- The container of a run. Only write runs read standard input. -/
def specFor (r : Request) (l : Layout) : Container.Spec where
  name := r.containerName
  image := r.image
  command := command r l
  mounts := l.mountsFor r.kind
  attachStdin := r.kind.isWrite

end RunDispatch
