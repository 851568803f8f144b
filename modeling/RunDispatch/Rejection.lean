/-
# Rejections of what a caller asks for

A caller's request is rejected because an identifier is malformed, because the request breaks a
rule, or because the library itself could not go on. The category opens the wording.

Key definitions: `Category`, `Rejection`, `Rejection.message`.
-/
namespace RunDispatch

/-- The three sorts of rejection. -/
inductive Category where
  | identifier
  | rule
  | internal
  deriving DecidableEq, Repr

/-- How the wording of a category begins. -/
def Category.opening : Category → String
  | identifier => "Invalid identifier: "
  | rule => "Validation failed: "
  | internal => "Internal error: "

/-- A rejection: its category, and what is wrong in words. -/
structure Rejection where
  category : Category
  detail : String
  deriving DecidableEq, Repr

/-- The full wording. -/
def Rejection.message (r : Rejection) : String :=
  r.category.opening ++ r.detail

end RunDispatch
