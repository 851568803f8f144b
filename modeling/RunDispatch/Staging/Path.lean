/-
# Paths

A path is a text with slashes. Joining appends a relative path and replaces by an absolute one;
nothing is normalised. A staged file of a run lies under the staging root in `connector-data`, in a
folder for its kind of payload, under the run's name.

Key definitions: `joinPath`, `PayloadKind`, `relativePath`, `pathFor`, `components`.
-/
namespace RunDispatch.Staging

/-- One path after another: an absolute second path stands alone. -/
def joinPath (a b : String) : String :=
  if b.toList.head? = some '/' then b
  else if a.isEmpty ∨ a.toList.getLast? = some '/' then a ++ b
  else a ++ "/" ++ b

/-- What a run stages: the connector's configuration, and for a write its catalog. -/
inductive PayloadKind where
  | config
  | catalog
  deriving DecidableEq, Repr

namespace PayloadKind

/-- Every kind, in the order in which they are removed. -/
def all : List PayloadKind := [config, catalog]

/-- The folder of a kind. -/
def folder : PayloadKind → String
  | config => "config"
  | catalog => "catalog"

end PayloadKind

/-- The folder that holds all staged files. -/
def dataFolder : String := "connector-data"

/-- Where a payload lies under the staging root. -/
def relativePath (kind : PayloadKind) (name : String) : String :=
  joinPath (joinPath dataFolder kind.folder) (name ++ ".json")

/-- Where a payload lies. -/
def pathFor (root : String) (kind : PayloadKind) (name : String) : String :=
  joinPath root (relativePath kind name)

/-- The names on a path, from the top; empty names and `.` lead nowhere. -/
def components (path : String) : List String :=
  ((path.toList.splitOn '/').map String.ofList).filter fun c => c != "" && c != "."

end RunDispatch.Staging
