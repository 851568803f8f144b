/-
# Run requests

A request says what to run against which connector, under which container name. It is built step by
step: a blank owner is refused, and so is a container name that breaks the naming rules. A request
is complete when a write has a catalog and no other operation has a catalog or records.

Key definitions: `Violation`, `Violation.rejection`, `Request`, `Request.new`,
`Request.withContainerName`, `Request.validate`, `parseId`, `parseImage`.
-/
import RunDispatch.Connector.State
import RunDispatch.Container.Name
import RunDispatch.Image
import RunDispatch.Rejection
import RunDispatch.Text.Blank

namespace RunDispatch

/-- A rule that what a caller gives can break. -/
inductive Violation where
  | id (raw : String) (fault : Connector.IdFault)
  | image (fault : ImageFault)
  | blankOwner
  | containerName (fault : Container.NameFault)
  | catalogMissing
  | payloadUnwanted (kind : Operation)
  | unknownOperation (name : String)
  | unknownState (name : String)
  deriving DecidableEq, Repr

/-- A violation in words. -/
def Violation.rejection : Violation → Rejection
  | id raw fault =>
    ⟨.identifier, "Unable to parse connector id '" ++ raw ++ "': " ++ fault.message⟩
  | image fault => ⟨.identifier, fault.message⟩
  | blankOwner => ⟨.identifier, "Owner id must not be empty"⟩
  | containerName fault => ⟨.rule, fault.message⟩
  | catalogMissing => ⟨.rule, "Write runs require a configured catalog"⟩
  | payloadUnwanted kind =>
    ⟨.rule, "'" ++ kind.name ++ "' runs do not accept a catalog or messages"⟩
  | unknownOperation name =>
    ⟨.rule, "Unknown operation '" ++ name ++ "'. Must be one of: check, write, healthcheck"⟩
  | unknownState name => ⟨.rule, "Unknown connector state '" ++ name ++ "'"⟩

/-- The connector that a text names. -/
def parseId (raw : String) : Except Violation Connector.Id :=
  (Connector.Id.parse raw).mapError (Violation.id raw)

/-- The image that a reference names. -/
def parseImage (reference : String) : Except Violation Image :=
  (Image.parse reference).mapError Violation.image

/-- The operation that a name names. -/
def parseOperation (name : String) : Except Violation Operation :=
  match Operation.ofName? name with
  | some kind => .ok kind
  | none => .error (.unknownOperation name)

/-- The connectivity that a stored name names. -/
def parseState (name : String) : Except Violation Connector.State :=
  match Connector.State.ofName? name with
  | some state => .ok state
  | none => .error (.unknownState name)

/-- The naming rules of containers. -/
def checkContainerName (name : String) : Except Violation Unit :=
  (Container.checkName name).mapError Violation.containerName

/-- What to run, against which connector, under which name. -/
structure Request where
  owner : String
  connector : Connector.Id
  image : Image
  containerName : String
  kind : Operation
  catalog : Option Bytes
  records : Option Bytes
  deriving DecidableEq

namespace Request

/-- A request under the derived container name, without payloads. -/
def new (owner : String) (connector : Connector.Id) (image : Image) (kind : Operation) :
    Except Violation Request :=
  if Text.allBlank owner then .error .blankOwner
  else .ok ⟨owner, connector, image, Container.nameFor connector kind, kind, none, none⟩

/-- The request under another container name. -/
def withContainerName (r : Request) (name : String) : Except Violation Request := do
  checkContainerName name
  return { r with containerName := name }

/-- The request with a catalog. -/
def withCatalog (r : Request) (catalog : Bytes) : Request :=
  { r with catalog := some catalog }

/-- The request with records for standard input. -/
def withRecords (r : Request) (records : Bytes) : Request :=
  { r with records := some records }

/-- The name under which the run's files are staged. -/
def stagingName (r : Request) : String := r.containerName

/-- Whether the payloads are those that the operation takes. -/
def checkPayloads (r : Request) : Except Violation Unit :=
  if r.kind.isWrite then
    if r.catalog.isNone then .error .catalogMissing else .ok ()
  else if r.catalog.isSome ∨ r.records.isSome then .error (.payloadUnwanted r.kind)
  else .ok ()

/-- The first rule that a request breaks. -/
def validate (r : Request) : Except Violation Unit := do
  checkContainerName r.containerName
  r.checkPayloads

end Request

end RunDispatch
