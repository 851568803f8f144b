/-
# Why a connector identifier is refused

A text that is no UUID is diagnosed from left to right. A hyphenated spelling is looked at without
its braces or `urn:uuid:`; any other text is looked at as it stands, braces and `urn:uuid:` being
passed over. A character that is neither a hexadecimal digit nor a hyphen comes first, then the
number of groups, then the first group of a wrong length.

Key definitions: `IdFault`, `IdFault.message`, `spelling`, `diagnose`.
-/
import RunDispatch.Text.Case
import RunDispatch.Text.Hex

namespace RunDispatch.Connector

/-- What is wrong with a text that should be a UUID. -/
inductive IdFault where
  /-- A number of octets that no spelling has. -/
  | length (found : Nat)
  /-- A character that no spelling has, and the octet at which it stands. -/
  | character (found : Char) (index : Nat)
  /-- A number of groups other than five. -/
  | groupCount (found : Nat)
  /-- A group of a wrong length. -/
  | groupLength (group expected found : Nat)
  deriving DecidableEq, Repr

/-- A character between back quotes. -/
def backQuotedChar (c : Char) : String :=
  String.ofList ['\x60', c, '\x60']

/-- The wording of a fault. -/
def IdFault.message : IdFault → String
  | length found => "invalid length: found " ++ toString found
  | character found index =>
    "invalid character: found " ++ backQuotedChar found ++ " at " ++ toString index
  | groupCount found => "invalid group count: expected 5, found " ++ toString found
  | groupLength group expected found =>
    "invalid group length in group " ++ toString group ++ ": expected " ++ toString expected ++
      ", found " ++ toString found

/-- The lengths of the groups between hyphens. -/
def groupLengths : List Nat := [8, 4, 4, 4, 12]

/-- How many octets a text has. -/
def octets (s : List Char) : Nat := (Text.utf8Chars s).length

def collection : List Char := "connectors/".toList

/-- A text without the collection's name before it. -/
def withoutCollection (raw : List Char) : List Char :=
  if collection.isPrefixOf raw then raw.drop collection.length else raw

/-- What stands before the URN of a UUID. -/
def urnMark : List Char := "urn:uuid:".toList

/-- Whether a text begins with `urn:uuid:`, in either case. -/
def hasUrnMark (s : List Char) : Bool :=
  urnMark.isPrefixOf (Text.lowered s)

/-- What stands between braces, if the text is in braces. -/
def inBraces? (s : List Char) : Option (List Char) :=
  match s with
  | '\x7b' :: r => if r.getLast? = some '\x7d' then some r.dropLast else none
  | _ => none

/-- How a text is to be looked at: as digits with hyphens, or freely. -/
inductive Spelling where
  | hyphenated
  | free
  deriving DecidableEq, Repr

/-- How a text is to be looked at, and the part of it that is. Only lengths decide: 36 octets, 38
in braces, or 45 after `urn:uuid:`. -/
def spelling (t : List Char) : Spelling × List Char :=
  if octets t = 36 then (.hyphenated, t)
  else if octets t = 38 then
    match inBraces? t with
    | some s => (.hyphenated, s)
    | none => (.free, t)
  else if octets t = 45 ∧ hasUrnMark t then (.hyphenated, t.drop urnMark.length)
  else (.free, t)

/-- The first character that is neither a digit nor a hyphen, if there is one, otherwise the octets
at which hyphens stand. -/
def scanHyphens (offset : Nat) : Nat → List Char → Except IdFault (List Nat)
  | _, [] => .ok []
  | index, c :: r => do
    if Text.isHexDigit c then scanHyphens offset (index + 1) r
    else if c = '-' then return index :: (← scanHyphens offset (index + 1) r)
    else .error (.character c (index + offset))

/-- The first group of a wrong length, given where each should start, how long it should be, and
where the hyphens stand; the last group is as long as what is left of `size`. -/
def wrongGroup (size : Nat) : Nat → Nat → List Nat → List Nat → IdFault
  | group, start, expected :: lengths, hyphen :: hyphens =>
    if hyphen = start + expected then
      wrongGroup size (group + 1) (start + expected + 1) lengths hyphens
    else .groupLength group expected (hyphen - start)
  | group, start, expected :: _, [] => .groupLength group expected (size - start)
  | group, _, [], _ => .groupLength group 0 0

/-- The part of a freely spelled text that is looked at, the octets before it, and whether it is
marked off by braces or `urn:uuid:`. -/
def freePart (s : List Char) : List Char × Nat × Bool :=
  match inBraces? s with
  | some r => (r, 1, true)
  | none => if hasUrnMark s then (s.drop urnMark.length, urnMark.length, true) else (s, 0, false)

/-- What is wrong with a text that is no UUID. -/
def diagnose (t : List Char) : IdFault :=
  let (kind, s) := spelling t
  let size := octets s
  if size = 0 ∨ 45 < size then .length size
  else
    let (part, offset, marked) := if kind = .free then freePart s else (s, 0, true)
    match scanHyphens offset 0 part with
    | .error fault => fault
    | .ok hyphens =>
      if hyphens.isEmpty ∧ ¬ marked then .length size
      else if hyphens.length ≠ 4 then .groupCount (hyphens.length + 1)
      else wrongGroup size 0 0 groupLengths hyphens

end RunDispatch.Connector
