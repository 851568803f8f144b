/-
# JSON values

A value of a JSON text. Numbers are whole numbers of 64 bits, signed or not, or doubles. In an
object that is read the members are in the order of their names, each name once.

Key definitions: `Number`, `Value`, `insertMember`, `Value.member?`.
-/
import RunDispatch.Decimal.Binary64

namespace RunDispatch.Json

/-- A number: whole and between -2^63 and 2^64 - 1, or a double. -/
inductive Number where
  | whole (n : Int)
  | double (x : Decimal.Binary64)
  deriving DecidableEq, Repr

/-- A JSON value. -/
inductive Value where
  | null
  | bool (b : Bool)
  | number (n : Number)
  | string (s : String)
  | array (items : List Value)
  | object (members : List (String × Value))
  deriving Repr

/-- Puts a member into a list that is ordered by name; the last member of a name wins. -/
def insertMember (name : String) (v : Value) : List (String × Value) → List (String × Value)
  | [] => [(name, v)]
  | (n, w) :: r =>
    if name < n then (name, v) :: (n, w) :: r
    else if name = n then (name, v) :: r
    else (n, w) :: insertMember name v r

namespace Value

/-- The member of an object. -/
def member? (v : Value) (name : String) : Option Value :=
  match v with
  | object members => (members.find? (·.1 = name)).map (·.2)
  | _ => none

end Value

end RunDispatch.Json
