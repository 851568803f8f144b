/-
# Container names

A container name has 1 to 128 octets, starts with a letter or digit of ASCII, and goes on with
letters, digits, underscores, dots and hyphens.

Key definitions: `NameFault`, `checkName`, `nameFor`.
-/
import RunDispatch.Connector.Id
import RunDispatch.Operation

namespace RunDispatch.Container

/-- What is wrong with a container name. -/
inductive NameFault where
  | empty
  | tooLong
  | start (name : String)
  | character (name : String)
  deriving DecidableEq, Repr

/-- The greatest length of a name in octets. -/
def maxNameLength : Nat := 128

/-- The wording of a fault. -/
def NameFault.message : NameFault → String
  | empty => "Container name must not be empty"
  | tooLong => "Container name must not exceed " ++ toString maxNameLength ++ " characters"
  | start n => "Container name '" ++ n ++ "' must start with an alphanumeric character"
  | character n =>
    "Container name '" ++ n ++
      "' may only contain alphanumeric, underscore, dot, or hyphen characters"

/-- A letter or digit of ASCII. -/
def isAlphanumeric (c : Char) : Bool :=
  ('0' ≤ c && c ≤ '9') || ('a' ≤ c && c ≤ 'z') || ('A' ≤ c && c ≤ 'Z')

/-- A character that a name may hold. -/
def isNameChar (c : Char) : Bool :=
  isAlphanumeric c || c == '_' || c == '.' || c == '-'

/-- Finds the first rule that a name breaks. -/
def checkName (name : String) : Except NameFault Unit :=
  match name.toList with
  | [] => .error .empty
  | c :: r =>
    if maxNameLength < (Text.utf8 name).length then .error .tooLong
    else if !isAlphanumeric c then .error (.start name)
    else if (c :: r).all isNameChar then .ok ()
    else .error (.character name)

/-- The name of the container that runs an operation of a connector, unless another is asked for. -/
def nameFor (id : Connector.Id) (kind : Operation) : String :=
  id.display ++ "." ++ kind.name

end RunDispatch.Container
