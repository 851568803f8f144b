/-
# Problems as HTTP answers

What keeps a request from being served, with its status, its code and its wording. Internal
problems of a request are not shown to the caller.

Key definitions: `Problem`, `Problem.status`, `Problem.code`, `Problem.shown`, `Problem.message`.
-/
import RunDispatch.Run.Failure

namespace RunDispatch.Http

/-- What keeps a request from being served. -/
inductive Problem where
  | rejected (r : Rejection)
  | failed (f : Run.Failure)
  | notFound (detail : String)
  | unavailable (detail : String)
  deriving DecidableEq

namespace Problem

/-- The status of the answer. -/
def status : Problem → Nat
  | rejected ⟨.internal, _⟩ => 500
  | rejected _ => 400
  | failed (.request _) => 400
  | failed _ => 500
  | notFound _ => 404
  | unavailable _ => 503

/-- The code in the answer. -/
def code : Problem → String
  | rejected ⟨.identifier, _⟩ => "INVALID_IDENTIFIER"
  | rejected ⟨.rule, _⟩ => "VALIDATION_ERROR"
  | rejected ⟨.internal, _⟩ => "INTERNAL_ERROR"
  | failed (.request _) => "PARSING_ERROR"
  | failed _ => "WORKFLOW_ERROR"
  | notFound _ => "NOT_FOUND"
  | unavailable _ => "UNAVAILABLE"

/-- The wording in the answer. -/
def shown : Problem → String
  | rejected ⟨.internal, _⟩ => "An internal error occurred"
  | rejected r => r.detail
  | failed (.request r) => r.message
  | failed f => f.message
  | notFound detail => detail
  | unavailable detail => detail

/-- The full wording. -/
def message : Problem → String
  | rejected r => r.message
  | failed f => f.message
  | notFound detail => "Not found: " ++ detail
  | unavailable detail => "Service unavailable: " ++ detail

/-- The refusal of submissions once shutdown has begun. -/
def shuttingDown : Problem := unavailable "Worker is shutting down"

end Problem

end RunDispatch.Http
