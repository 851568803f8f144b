/-
# Routes

A request names its target by a path, whose segments are compared as they stand, so that a slash
too many or an escaped letter leads elsewhere. What a path stands for answers to one method; where
that is GET, HEAD answers like it, without a body.

Key definitions: `Method`, `Target`, `Target.ofUri`, `Target.allowed`.
-/
namespace RunDispatch.Http

/-- A method, as far as methods make a difference. -/
inductive Method where
  | get
  | head
  | post
  | other
  deriving DecidableEq, Repr

/-- The method of a name. -/
def Method.ofName : String → Method
  | "GET" => .get
  | "HEAD" => .head
  | "POST" => .post
  | _ => .other

/-- What a path stands for. A segment is given as it stands in the path. -/
inductive Target where
  | health
  | runs
  | run (segment : String)
  | cleanup (segment : String)
  | unknown
  deriving DecidableEq, Repr

namespace Target

/-- The path of a URI: what stands before the query and the fragment. -/
def pathOf (uri : String) : List Char :=
  uri.toList.takeWhile fun c => c != '?' && c != '#'

/-- What the segments of a path stand for. A run has a name. -/
def ofSegments : List String → Target
  | ["", "health"] => health
  | ["", "api", "v1", "runs"] => runs
  | ["", "api", "v1", "runs", segment] => if segment = "" then unknown else run segment
  | ["", "api", "v1", "runs", segment, "cleanup"] => cleanup segment
  | _ => unknown

/-- What a URI stands for. -/
def ofUri (uri : String) : Target :=
  ofSegments (((pathOf uri).splitOn '/').map String.ofList)

/-- The methods to which a target answers; an unknown target has none. -/
def allowed : Target → Option (List Method)
  | health => some [.get, .head]
  | runs => some [.post]
  | run _ => some [.get, .head]
  | cleanup _ => some [.post]
  | unknown => none

end Target

/-- Methods as they are announced. -/
def announced (methods : List Method) : String :=
  if methods.contains .get then "GET,HEAD" else "POST"

end RunDispatch.Http
