/-
# Why a JSON text is refused

Reading goes from left to right and stops at the first problem. A text may be malformed, which
any reader would refuse, or well formed and of another shape than the reader wants. A failure also
tells the place where the reader stood: the names and indexes that lead to the value it was in.

Key definitions: `Malformed`, `Mismatch`, `Cause`, `Failure`, `Cause.message`, `pathText`.
-/
import RunDispatch.Json.Writer
import RunDispatch.Text.Printable

namespace RunDispatch.Json

/-- What is wrong with a text that is not JSON. -/
inductive Malformed where
  | endInValue
  | endInList
  | endInObject
  | endInString
  | expectedValue
  | expectedColon
  | expectedCommaOrBracket
  | expectedCommaOrBrace
  | expectedIdent
  | invalidNumber
  | numberOutOfRange
  | keyNotString
  | trailingComma
  | trailingCharacters
  | controlCharacter
  | invalidEscape
  | unexpectedEndOfEscape
  | loneSurrogate
  | tooDeep
  | notUtf8
  deriving DecidableEq, Repr

/-- The text between back quotes. -/
def backQuoted (s : String) : String :=
  String.ofList ('\x60' :: (s.toList ++ ['\x60']))

namespace Malformed

/-- The wording of a problem. -/
def message : Malformed → String
  | endInValue => "EOF while parsing a value"
  | endInList => "EOF while parsing a list"
  | endInObject => "EOF while parsing an object"
  | endInString => "EOF while parsing a string"
  | expectedValue => "expected value"
  | expectedColon => "expected " ++ backQuoted ":"
  | expectedCommaOrBracket => "expected " ++ backQuoted "," ++ " or " ++ backQuoted "]"
  | expectedCommaOrBrace => "expected " ++ backQuoted "," ++ " or " ++ backQuoted "\x7d"
  | expectedIdent => "expected ident"
  | invalidNumber => "invalid number"
  | numberOutOfRange => "number out of range"
  | keyNotString => "key must be a string"
  | trailingComma => "trailing comma"
  | trailingCharacters => "trailing characters"
  | controlCharacter => "control character (\\u0000-\\u001F) found while parsing a string"
  | invalidEscape => "invalid escape"
  | unexpectedEndOfEscape => "unexpected end of hex escape"
  | loneSurrogate => "lone leading surrogate in hex escape"
  | tooDeep => "recursion limit exceeded"
  | notUtf8 => "invalid unicode code point"

end Malformed

/-- What was found where something else was wanted. -/
inductive Found where
  | number (n : Number)
  | bool (b : Bool)
  | string (s : String)
  | null
  | sequence
  | map
  deriving DecidableEq, Repr

namespace Found

/-- The wording of what was found. -/
def message : Found → String
  | number (.whole n) => "integer " ++ backQuoted (String.ofList (writeInt n))
  | number (.double x) => "floating point " ++ backQuoted (String.ofList (numberLayout.write x))
  | bool b => "boolean " ++ backQuoted (if b then "true" else "false")
  | string s => "string " ++ Text.visiblyQuoted s
  | null => "null"
  | sequence => "sequence"
  | map => "map"

end Found

/-- How a well-formed text misses the shape that is wanted. -/
inductive Mismatch where
  /-- A value of one kind where another was wanted. -/
  | invalidType (found : Found) (wanted : String)
  /-- A number that the wanted kind of number does not hold. -/
  | invalidValue (found : Found) (wanted : String)
  /-- A name that is none of the names there are. -/
  | unknownVariant (name : String) (names : List String)
  /-- An object without a member that it needs. -/
  | missingField (name : String)
  /-- An object that names a member twice. -/
  | duplicateField (name : String)
  /-- An array with too few items for the members of `wanted`. -/
  | invalidLength (length : Nat) (wanted : String)
  deriving DecidableEq, Repr

namespace Mismatch

/-- Names between back quotes, with a comma between each two. -/
def nameList : List String → String
  | [] => ""
  | [n] => backQuoted n
  | n :: r => backQuoted n ++ ", " ++ nameList r

/-- The wording of a mismatch. -/
def message : Mismatch → String
  | invalidType found wanted => "invalid type: " ++ found.message ++ ", expected " ++ wanted
  | invalidValue found wanted => "invalid value: " ++ found.message ++ ", expected " ++ wanted
  | unknownVariant name names =>
    "unknown variant " ++ backQuoted name ++ ", expected one of " ++ nameList names
  | missingField name => "missing field " ++ backQuoted name
  | duplicateField name => "duplicate field " ++ backQuoted name
  | invalidLength length wanted =>
    "invalid length " ++ toString length ++ ", expected " ++ wanted

end Mismatch

/-- Why a text is refused. -/
inductive Cause where
  | malformed (m : Malformed)
  | mismatch (m : Mismatch)
  deriving DecidableEq, Repr

/-- The wording of a cause. -/
def Cause.message : Cause → String
  | malformed m => m.message
  | mismatch m => m.message

/-- One step on the way to a value: a member's name or an item's index. -/
inductive Step where
  | name (n : String)
  | index (i : Nat)
  deriving DecidableEq, Repr

/-- A cause and the way to the value in which the reader stood. -/
structure Failure where
  path : List Step
  cause : Cause
  deriving DecidableEq, Repr

namespace Failure

/-- A failure at the value that is being read. -/
def malformed (m : Malformed) : Failure := ⟨[], .malformed m⟩

/-- A failure at the value that is being read. -/
def mismatch (m : Mismatch) : Failure := ⟨[], .mismatch m⟩

/-- The same failure, seen from the value one step up. -/
def under (s : Step) (f : Failure) : Failure := { f with path := s :: f.path }

/-- The wording of the cause. -/
def message (f : Failure) : String := f.cause.message

/-- The steps of a path, with a dot before each name but the first. -/
def stepsText : List Step → String
  | [] => ""
  | .name n :: r => "." ++ n ++ stepsText r
  | .index i :: r => "[" ++ toString i ++ "]" ++ stepsText r

/-- A path as it is shown: `messages[0].k`. -/
def pathText : List Step → String
  | .name n :: r => n ++ stepsText r
  | p => stepsText p

/-- The wording of the cause after the path, if there is one. -/
def located (f : Failure) : String :=
  if f.path.isEmpty then f.message else pathText f.path ++ ": " ++ f.message

end Failure

end RunDispatch.Json
