/-
# Media types

A media type is a type and a subtype with a slash between them, then parameters, each after a
semicolon. Type, subtype and parameter names are made of token characters; the subtype may hold
plus signs behind its first character, and what follows the last one is the suffix. A parameter's
value is a token or stands between quotes, which are never empty. Letters of either case are alike.

Key definitions: `MediaType`, `MediaType.parse?`, `MediaType.isJson`.
-/
import RunDispatch.Text.Case

namespace RunDispatch.Http

/-- A media type without its parameters, in lower case. -/
structure MediaType where
  type : String
  subtype : String
  suffix : Option String
  deriving DecidableEq, Repr

namespace MediaType

/-- A character of a token. -/
def isToken (c : Char) : Bool :=
  ('0' ≤ c && c ≤ '9') || ('A' ≤ c && c ≤ 'Z') || ('a' ≤ c && c ≤ 'z') ||
    ['!', '#', '$', '%', '&', '-', '.', '^', '_', '\x60'].contains c

/-- A character between the quotes of a parameter's value. -/
def isQuotable (c : Char) : Bool := 31 < c.toNat && c.toNat < 127

/-- The text after the blanks that may follow a quoted value: the next parameters, or nothing. -/
def afterQuoted? : List Char → Option (List Char)
  | [] => some []
  | ';' :: r => some r
  | ' ' :: r => afterQuoted? r
  | _ => none

/-- The text after a value between quotes, the first of which has been read. Its first character
is part of it even if it is a quote. -/
def afterQuote? : List Char → Option (List Char)
  | [] => none
  | c :: r =>
    if !isQuotable c then none
    else
      match r.dropWhile fun c => isQuotable c && c != '"' with
      | '"' :: r => afterQuoted? r
      | _ => none

/-- The text after a value that is a token: the next parameters, or nothing. -/
def afterToken? (cs : List Char) : Option (List Char) :=
  match cs.dropWhile isToken with
  | [] => some []
  | ';' :: r => if (cs.takeWhile isToken).isEmpty then none else some r
  | _ => none

/-- The text after a parameter. -/
def afterParameter? (cs : List Char) : Option (List Char) :=
  if (cs.takeWhile isToken).isEmpty then none
  else match cs.dropWhile isToken with
    | '=' :: '"' :: r => afterQuote? r
    | '=' :: r => afterToken? r
    | _ => none

/-- Whether a text is a list of parameters; `fuel` exceeds its length. -/
def areParameters : Nat → List Char → Bool
  | 0, _ => false
  | _ + 1, [] => true
  | fuel + 1, ' ' :: r => areParameters fuel r
  | fuel + 1, cs =>
    match afterParameter? cs with
    | some r => areParameters fuel r
    | none => false

/-- A subtype cut at its last plus sign. -/
def splitSuffix (subtype : List Char) : List Char × Option (List Char) :=
  let backwards := subtype.reverse
  match backwards.dropWhile (· != '+') with
  | _ :: subtype => (subtype.reverse, some (backwards.takeWhile (· != '+')).reverse)
  | [] => (subtype, none)

/-- A character of a subtype. -/
def isSubtypeChar (c : Char) : Bool := isToken c || c == '+'

/-- The media type of a text. -/
def parse? (s : String) : Option MediaType := do
  let cs := s.toList
  let type := cs.takeWhile isToken
  match type, cs.dropWhile isToken with
  | _ :: _, '/' :: r =>
    let subtype := r.takeWhile isSubtypeChar
    let parametersFit := match r.dropWhile isSubtypeChar with
      | [] => true
      | ';' :: r => !subtype.isEmpty && areParameters (r.length + 1) r
      | _ => false
    if subtype.head? = some '+' ∨ !parametersFit then none
    else
      let (subtype, suffix) := splitSuffix subtype
      let text (cs : List Char) : String := String.ofList (Text.lowered cs)
      return ⟨text type, text subtype, suffix.map text⟩
  | _, _ => none

/-- Whether a media type stands for JSON. -/
def isJson (m : MediaType) : Bool :=
  m.type == "application" && (m.subtype == "json" || m.suffix == some "json")

end MediaType

end RunDispatch.Http
