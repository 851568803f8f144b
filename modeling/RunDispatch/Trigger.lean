/-
# Run triggers

A trigger is a run request as a caller writes it: texts, and JSON for the catalog and the records.
It is turned into a request before anything else happens; the connector's identifier, the image,
the owner and the container name are looked at in this order, and the payloads last.

Key definitions: `Trigger`, `Trigger.record`, `Trigger.toRequest`.
-/
import RunDispatch.Records
import RunDispatch.Request

namespace RunDispatch

/-- A run request as a caller writes it. -/
structure Trigger where
  owner : String
  connector : String
  image : String
  kind : Operation
  containerName : Option String
  catalog : Option Json.Value
  records : Option (List Json.Value)

namespace Trigger

/-- The request with an optional container name of its own. -/
def named (name : Option String) (r : Request) : Except Violation Request :=
  match name with
  | some name => r.withContainerName name
  | none => .ok r

/-- The request with the payloads of a trigger. -/
def withPayloads (t : Trigger) (r : Request) : Request :=
  { r with
    catalog := t.catalog.map fun v => Text.utf8Chars v.write
    records := t.records.map encodeRecords }

/-- The request that a trigger makes, or the first rule that it breaks. -/
def toRequest (t : Trigger) : Except Violation Request := do
  let connector ← parseId t.connector
  let image ← parseImage t.image
  let request ← Request.new t.owner connector image t.kind
  let request ← named t.containerName request
  let request := t.withPayloads request
  request.validate
  return request

/-- A trigger of which some members are read. -/
structure Draft where
  owner : Option String := none
  connector : Option String := none
  image : Option String := none
  kind : Option Operation := none
  containerName : Option String := none
  catalog : Option Json.Value := none
  records : Option (List Json.Value) := none

/-- The trigger of a draft that has the members it needs. -/
def ofDraft (d : Draft) : Except Json.Mismatch Trigger :=
  match d.owner, d.connector, d.image, d.kind with
  | none, _, _, _ => .error (.missingField "owner_id")
  | _, none, _, _ => .error (.missingField "connector_id")
  | _, _, none, _ => .error (.missingField "image")
  | _, _, _, none => .error (.missingField "operation")
  | some owner, some connector, some image, some kind =>
    .ok ⟨owner, connector, image, kind, d.containerName, d.catalog, d.records⟩

/-- The members of a trigger in a JSON text. -/
def record : Json.Record Draft Trigger where
  title := "struct RunTrigger"
  fields :=
    [ Json.Field.of "owner_id" Json.Reader.string (fun s d => { d with owner := some s }) false,
      Json.Field.of "connector_id" Json.Reader.string
        (fun s d => { d with connector := some s }) false,
      Json.Field.of "image" Json.Reader.string (fun s d => { d with image := some s }) false,
      Json.Field.of "operation" (Json.Reader.names Operation.names)
        (fun k d => { d with kind := some k }) false,
      Json.Field.of "container_name" (Json.Reader.optional Json.Reader.string)
        (fun s d => { d with containerName := s }) true,
      Json.Field.of "catalog" (Json.Reader.optional Json.readValue)
        (fun v d => { d with catalog := v }) true,
      Json.Field.of "messages" (Json.Reader.optional (Json.Reader.list Json.readValue))
        (fun vs d => { d with records := vs }) true ]
  empty := {}
  finish := ofDraft

/-- The trigger that a JSON text holds. -/
def parse (body : String) : Except Json.Failure Trigger :=
  Json.parse record.reader body.toList

end Trigger

end RunDispatch
