/-
# The store of connectors

The store keeps a row for each connector: its owner, its configuration and the number of its
connectivity. A row that is marked as deleted is not seen. Reading and writing may fail as a whole,
and then change nothing.

Key definitions: `Row`, `Database`, `Database.find`, `Database.listStates`,
`Database.readConfiguration`, `Database.writeState`.
-/
import RunDispatch.Json.Writer
import RunDispatch.Run.Failure
import RunDispatch.Store.Moment

namespace RunDispatch.Store

/-- A connector in the store. -/
structure Row where
  id : Connector.Id
  owner : String
  configuration : Json.Value
  stateNumber : Int
  deletedAt : Option Moment
  createdAt : Moment
  updatedAt : Moment

/-- A connectivity that the store knows by number. -/
structure StateRow where
  number : Int
  name : String
  description : Option String
  createdAt : Moment
  updatedAt : Moment
  deriving DecidableEq, Repr

/-- The tables of the store, and what it says to every read or write if these fail. -/
structure Database where
  rows : List Row
  states : List StateRow
  readFault : Option String
  writeFault : Option String

/-- A failure of the store, in its own words. -/
structure DatabaseError where
  detail : String
  deriving DecidableEq, Repr

/-- The wording of a failure. -/
def DatabaseError.message (e : DatabaseError) : String :=
  "error returned from database: " ++ e.detail

/-- A failure as a caller of the store meets it. -/
def DatabaseError.toStoreError (e : DatabaseError) : StoreError := .backend e.message

/-- Whether a row is the connector of an owner, and is seen. -/
def Row.isSeen (r : Row) (owner : String) (id : Connector.Id) : Bool :=
  r.id = id && r.owner == owner && r.deletedAt.isNone

namespace Database

/-- A result, if no fault stands in its way. -/
def barring {α : Type} (fault : Option String) (a : α) : Except DatabaseError α :=
  match fault with
  | some detail => .error ⟨detail⟩
  | none => .ok a

/-- Whether the store answers. -/
def check (d : Database) : Except DatabaseError Unit := barring d.readFault ()

/-- The connector of an owner. -/
def find (d : Database) (owner : String) (id : Connector.Id) : Except DatabaseError (Option Row) :=
  barring d.readFault (d.rows.find? (·.isSeen owner id))

/-- The states that the store knows, by number. -/
def listStates (d : Database) : Except DatabaseError (List StateRow) :=
  barring d.readFault (d.states.mergeSort fun a b => a.number ≤ b.number)

/-- The configuration of an owner's connector. -/
def readConfiguration (d : Database) (owner : String) (id : Connector.Id) :
    Except StoreError Bytes :=
  match d.find owner id with
  | .error e => .error e.toStoreError
  | .ok none => .error (.notFound owner id)
  | .ok (some row) => .ok (Text.utf8Chars row.configuration.write)

/-- A row with another connectivity, if it is the one that is meant. The store stamps it with its own
time, where it keeps one. -/
def setState (owner : String) (id : Connector.Id) (state : Connector.State) (stamp : Option Moment)
    (r : Row) : Row :=
  if r.isSeen owner id then
    { r with stateNumber := state.number, updatedAt := stamp.getD r.updatedAt }
  else r

/-- Stores the connectivity of an owner's connector. -/
def writeState (d : Database) (owner : String) (id : Connector.Id) (state : Connector.State)
    (stamp : Option Moment := none) : Database × Except StoreError Unit :=
  match barring d.writeFault () with
  | .error e => (d, .error e.toStoreError)
  | .ok () =>
    if d.rows.any (·.isSeen owner id) then
      ({ d with rows := d.rows.map (setState owner id state stamp) }, .ok ())
    else (d, .error (.notFound owner id))

end Database

end RunDispatch.Store
