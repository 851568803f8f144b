/-
# Container specifications

A container is made from an image, with a command, with mounts, and with its standard streams
attached or not.

Key definitions: `MountKind`, `Mount`, `Spec`.
-/
import RunDispatch.Image
import RunDispatch.Text.Case

namespace RunDispatch.Container

/-- How a place on the host is seen inside a container. -/
inductive MountKind where
  | bind
  | volume
  deriving DecidableEq, Repr

namespace MountKind

/-- The name of a kind. -/
def name : MountKind → String
  | bind => "bind"
  | volume => "volume"

/-- The kind of a name, in letters of either case. -/
def ofName? (s : String) : Option MountKind :=
  [bind, volume].find? fun k => k.name.toList = Text.lowered s.toList

end MountKind

/-- One mount: what is mounted, and where it appears inside. -/
structure Mount where
  kind : MountKind
  source : String
  target : String
  deriving DecidableEq, Repr

/-- All that it takes to make a container. -/
structure Spec where
  name : String
  image : Image
  command : List String
  mounts : List Mount
  attachStdin : Bool
  deriving DecidableEq, Repr

end RunDispatch.Container
