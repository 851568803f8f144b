/-
# HTTP answers

What a request comes to: a status, a body with its content type, the methods that are allowed if
the one used is not, and the identifier of the request. JSON bodies are envelopes with the member
`data`, or with the members `error` and `code`.

Key definitions: `Content`, `Answer`, `Status.toJson`, `dataContent`, `Problem.answer`.
-/
import RunDispatch.Http.Problem
import RunDispatch.Json.Value
import RunDispatch.Registry

namespace RunDispatch

/-- A report as a JSON value. -/
def Run.Report.toJson (r : Run.Report) : Json.Value :=
  .object
    [ ("container_name", .string r.containerName), ("kind", .string r.kind.name),
      ("outcome", .string r.outcome.name), ("state", .string r.state.word),
      ("dispatched", .bool r.dispatched), ("cleanup_failed", .bool r.cleanupFailed) ]

/-- A status as a JSON value. -/
def Status.toJson : Status → Json.Value
  | running kind => .object [("status", .string "running"), ("operation", .string kind.name)]
  | completed report => .object [("status", .string "completed"), ("report", report.toJson)]
  | failed kind category message =>
    .object
      [ ("status", .string "failed"), ("operation", .string kind.name),
        ("kind", .string category), ("error", .string message) ]

namespace Http

/-- The content of an answer. -/
inductive Content where
  | empty
  | text (s : String)
  | json (v : Json.Value)

/-- The type of a content. -/
def Content.type : Content → Option String
  | empty => none
  | text _ => some "text/plain; charset=utf-8"
  | json _ => some "application/json"

/-- What a request comes to. Without a body the content still tells its type. -/
structure Answer where
  status : Nat
  content : Content
  bodiless : Bool
  allow : Option String
  /-- The identifier that the request came with; otherwise one is made. -/
  requestId : Option String

namespace Answer

def of (status : Nat) (content : Content) : Answer := ⟨status, content, false, none, none⟩

def body (a : Answer) : Content := if a.bodiless then .empty else a.content

end Answer

def count (n : Nat) : Json.Value := .number (.whole n)

/-- The envelope of a value. -/
def dataContent (v : Json.Value) : Content := .json (.object [("data", v)])

/-- The answer to a request that meets a problem. -/
def Problem.answer (p : Problem) : Answer :=
  .of p.status (.json (.object [("error", .string p.shown), ("code", .string p.code)]))

end Http

end RunDispatch
