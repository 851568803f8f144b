/-
# Image references

An image is a repository and a tag. In a reference the tag follows the last colon after the last
slash; a reference without such a colon means the tag `latest`. So the colon of a registry's port
separates no tag. References by digest are refused, since runs pull by tag.

Key definitions: `Image`, `Image.display`, `Image.splitTag?`, `Image.parse`, `ImageFault`.
-/
import RunDispatch.Json.Reader
import RunDispatch.Text.Blank

namespace RunDispatch

/-- An image of a connector. -/
structure Image where
  repository : String
  tag : String
  deriving DecidableEq, Repr

/-- What is wrong with an image reference, which is given without blanks at its ends. -/
inductive ImageFault where
  | empty
  | blank (reference : String)
  | digest (reference : String)
  | emptyPart (reference : String)
  deriving DecidableEq, Repr

/-- The wording of a fault. -/
def ImageFault.message : ImageFault → String
  | empty => "Image reference must not be empty"
  | blank r => "Image reference '" ++ r ++ "' must not contain whitespace"
  | digest r => "Image reference '" ++ r ++ "' must use a tag, not a digest"
  | emptyPart r => "Image reference '" ++ r ++ "' has an empty repository or tag"

namespace Image

/-- The reference of an image. -/
def display (i : Image) : String :=
  i.repository ++ ":" ++ i.tag

/-- The tag of a reference without one. -/
def defaultTag : String := "latest"

/-- A reference cut at the last colon after its last slash. -/
def splitTag? (reference : List Char) : Option (List Char × List Char) :=
  let backwards := reference.reverse
  let inTag (c : Char) : Bool := c != ':' && c != '/'
  match backwards.dropWhile inTag with
  | ':' :: repository => some (repository.reverse, (backwards.takeWhile inTag).reverse)
  | _ => none

/-- The image of a reference. -/
def parse (reference : String) : Except ImageFault Image :=
  let t := Text.trim reference
  if t.toList.isEmpty then .error .empty
  else if t.toList.any Text.isBlank then .error (.blank t)
  else if t.toList.contains '@' then .error (.digest t)
  else match splitTag? t.toList with
    | none => .ok ⟨t, defaultTag⟩
    | some (repository, tag) =>
      if repository.isEmpty ∨ tag.isEmpty then .error (.emptyPart t)
      else .ok ⟨String.ofList repository, String.ofList tag⟩

/-- An image as a JSON value. -/
def toJson (i : Image) : List (String × Json.Value) :=
  [("repository", .string i.repository), ("tag", .string i.tag)]

/-- An image of which some members are read. -/
structure Draft where
  repository : Option String
  tag : Option String

/-- The members of an image in a JSON text. -/
def record : Json.Record Draft Image where
  title := "struct ImageRef"
  fields :=
    [ Json.Field.of "repository" Json.Reader.string
        (fun s d => { d with repository := some s }) false,
      Json.Field.of "tag" Json.Reader.string (fun s d => { d with tag := some s }) false ]
  empty := ⟨none, none⟩
  finish
    | ⟨none, _⟩ => .error (.missingField "repository")
    | ⟨_, none⟩ => .error (.missingField "tag")
    | ⟨some repository, some tag⟩ => .ok ⟨repository, tag⟩

end Image

end RunDispatch
