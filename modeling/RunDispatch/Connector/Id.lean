/-
# Connector identifiers

A connector is named by a UUID, which is 32 hexadecimal digits. It is spelled as the digits alone,
with hyphens after the 8th, 12th, 16th and 20th digit, with these hyphens and in braces, or with
them and after `urn:uuid:`, in letters of either case; `connectors/` may stand before any spelling.
It is displayed with hyphens and in lower case.

Key definitions: `Id`, `Id.display`, `Id.ofUuid?`, `Id.value`, `Id.parse`.
-/
import RunDispatch.Connector.IdFault

namespace RunDispatch.Connector

/-- A UUID, as its 32 digits. -/
structure Id where
  digits : List (Fin 16)
  length_digits : digits.length = 32
  deriving DecidableEq

namespace Id

/-- The number that the digits denote. -/
def value (id : Id) : Nat :=
  id.digits.foldl (fun n d => n * 16 + d.val) 0

/-- Texts with a hyphen between each two. -/
def hyphenated (parts : List (List Char)) : List Char :=
  (parts.intersperse ['-']).flatten

/-- Cuts a text into pieces of given lengths. -/
def cut {α : Type} : List Nat → List α → List (List α)
  | [], _ => []
  | n :: ns, s => s.take n :: cut ns (s.drop n)

/-- The characters of the displayed form. -/
def displayChars (id : Id) : List Char :=
  hyphenated (cut groupLengths (id.digits.map fun d => Text.hexDigit d.val))

/-- The displayed form: lower case, with hyphens. -/
def display (id : Id) : String :=
  String.ofList id.displayChars

/-- The value of a hexadecimal digit. -/
def digit? (c : Char) : Option (Fin 16) :=
  (Text.hexValue? c).map (Fin.ofNat 16)

/-- The identifier of 32 digits and nothing else. -/
def ofDigits? (s : List Char) : Option Id := do
  let digits ← s.mapM digit?
  if h : digits.length = 32 then return ⟨digits, h⟩ else none

/-- The identifier of digits with hyphens between the groups. -/
def ofHyphenated? (s : List Char) : Option Id :=
  let groups := s.splitOn '-'
  if groups.map List.length = groupLengths then ofDigits? groups.flatten else none

/-- The identifier that a UUID's spelling denotes. -/
def ofUuid? (t : List Char) : Option Id :=
  match spelling t with
  | (.hyphenated, s) => ofHyphenated? s
  | (.free, s) => if s.length = 32 then ofDigits? s else none

/-- The identifier that a text denotes, with or without `connectors/` before it. -/
def parse (raw : String) : Except IdFault Id :=
  let t := withoutCollection raw.toList
  match ofUuid? t with
  | some id => .ok id
  | none => .error (diagnose t)

end Id

end RunDispatch.Connector
