/-
# Documents of the engine

The JSON values that the engine answers with, as far as a caller looks at them. Members that are
known have to be of their type even if nobody needs them.

Key definitions: `image`, `progress`, `creation`, `ending`.
-/
import RunDispatch.Json.Reader

namespace RunDispatch.Engine

/-- A member that is checked and forgotten, and may be null or missing. -/
def checked {α δ : Type} (name : String) (reader : Json.Reader α) : Json.Field δ :=
  Json.Field.of name (Json.Reader.optional reader) (fun _ d => d) false

/-- A record of members that are checked and forgotten. -/
def checkedRecord (title : String) (fields : List (Json.Field Unit)) : Json.Record Unit Unit :=
  ⟨title, fields, (), fun _ => .ok ()⟩

def text {δ : Type} (name : String) : Json.Field δ := checked name Json.Reader.string

def texts {δ : Type} (name : String) : Json.Field δ :=
  checked name (Json.Reader.list Json.Reader.string)

def flag {δ : Type} (name : String) : Json.Field δ := checked name Json.Reader.bool

def size {δ : Type} (name : String) : Json.Field δ := checked name Json.Reader.int64

/-- A set of names that is checked. -/
def nameSet {δ : Type} (name : String) : Json.Field δ :=
  checked name (Json.Reader.map Json.Reader.emptyMap)

/-- How an image checks the health of its containers. -/
def healthConfig : Json.Record Unit Unit :=
  checkedRecord "struct HealthConfig"
    [texts "Test", size "Interval", size "Timeout", size "Retries", size "StartPeriod",
      size "StartInterval"]

/-- The configuration that an image gives to its containers. -/
def containerConfig : Json.Record Unit Unit :=
  checkedRecord "struct ContainerConfig"
    [ text "Hostname", text "Domainname", text "User", flag "AttachStdin", flag "AttachStdout",
      flag "AttachStderr", nameSet "ExposedPorts", flag "Tty", flag "OpenStdin", flag "StdinOnce",
      texts "Env", texts "Cmd", checked "Healthcheck" healthConfig.reader, flag "ArgsEscaped",
      text "Image", nameSet "Volumes", text "WorkingDir", texts "Entrypoint",
      flag "NetworkDisabled", text "MacAddress", texts "OnBuild",
      checked "Labels" (Json.Reader.map Json.Reader.string), text "StopSignal",
      size "StopTimeout", texts "Shell" ]

/-- Members that have to be there, whatever they hold: those that are still missing. -/
abbrev Missing := List String

/-- A member that is checked and has to be there. -/
def needed {α : Type} (name : String) (reader : Json.Reader α) : Json.Field Missing :=
  Json.Field.of name reader (fun _ missing => missing.erase name) false

/-- The end of a record some of whose members have to be there. -/
def noneMissing : Missing → Except Json.Mismatch Unit
  | [] => .ok ()
  | name :: _ => .error (.missingField name)

/-- The storage of an image. -/
def graphDriver : Json.Record Missing Unit where
  title := "struct GraphDriverData"
  fields :=
    [ needed "Name" Json.Reader.string,
      needed "Data" (Json.Reader.optional (Json.Reader.map Json.Reader.string)) ]
  empty := ["Name", "Data"]
  finish := noneMissing

/-- The layers of an image. -/
def rootFs : Json.Record Missing Unit where
  title := "struct ImageInspectRootFs"
  fields := [needed "Type" Json.Reader.string, texts "Layers"]
  empty := ["Type"]
  finish := noneMissing

/-- What is noted about an image. -/
def imageMetadata : Json.Record Unit Unit :=
  checkedRecord "struct ImageInspectMetadata" [text "LastTagTime"]

/-- An image that the engine has. -/
def image : Json.Record Unit Unit :=
  checkedRecord "struct ImageInspect"
    [ text "Id", texts "RepoTags", texts "RepoDigests", text "Parent", text "Comment",
      text "Created", text "DockerVersion", text "Author",
      checked "Config" containerConfig.reader, text "Architecture", text "Variant", text "Os",
      text "OsVersion", size "Size", size "VirtualSize", checked "GraphDriver" graphDriver.reader,
      checked "RootFS" rootFs.reader, checked "Metadata" imageMetadata.reader ]

/-- The detail of an error in a pull. -/
def errorDetail : Json.Record Unit Unit :=
  checkedRecord "struct ErrorDetail" [size "code", text "message"]

/-- The detail of the progress of a pull. -/
def progressDetail : Json.Record Unit Unit :=
  checkedRecord "struct ProgressDetail" [size "current", size "total"]

/-- The progress of a pull: the error that it tells of, if any. -/
def progress : Json.Record (Option String) (Option String) where
  title := "struct CreateImageInfo"
  fields :=
    [ text "id",
      Json.Field.of "error" (Json.Reader.optional Json.Reader.string) (fun e _ => e) false,
      checked "errorDetail" errorDetail.reader,
      text "status",
      text "progress",
      checked "progressDetail" progressDetail.reader ]
  empty := none
  finish := .ok

/-- A container that was made, of which some members are read. -/
structure CreationDraft where
  id : Option String
  warnings : Bool

/-- A container that was made: its identifier. -/
def creation : Json.Record CreationDraft String where
  title := "struct ContainerCreateResponse"
  fields :=
    [ Json.Field.of "Id" Json.Reader.string (fun s d => { d with id := some s }) false,
      Json.Field.of "Warnings" (Json.Reader.optional (Json.Reader.list Json.Reader.string))
        (fun _ d => { d with warnings := true }) false ]
  empty := ⟨none, false⟩
  finish
    | ⟨none, _⟩ => .error (.missingField "Id")
    | ⟨some _, false⟩ => .error (.missingField "Warnings")
    | ⟨some id, true⟩ => .ok id

/-- What went wrong while a container was waited for: its wording, if there is one. -/
def exitError : Json.Record (Option String) (Option String) where
  title := "struct ContainerWaitExitError"
  fields :=
    [Json.Field.of "Message" (Json.Reader.optional Json.Reader.string) (fun m _ => m) false]
  empty := none
  finish := .ok

/-- The end of a container: its exit status, and what went wrong with the waiting, if anything. -/
structure Ending where
  status : Int
  error : Option (Option String)
  deriving DecidableEq, Repr

/-- The end of a container, of which some members are read. -/
structure EndingDraft where
  status : Option Int
  error : Option (Option String)

/-- The end of a container. -/
def ending : Json.Record EndingDraft Ending where
  title := "struct ContainerWaitResponse"
  fields :=
    [ Json.Field.of "StatusCode" Json.Reader.int64 (fun n d => { d with status := some n }) false,
      Json.Field.of "Error" (Json.Reader.optional exitError.reader)
        (fun e d => { d with error := e }) false ]
  empty := ⟨none, none⟩
  finish
    | ⟨none, _⟩ => .error (.missingField "StatusCode")
    | ⟨some status, error⟩ => .ok ⟨status, error⟩

end RunDispatch.Engine
