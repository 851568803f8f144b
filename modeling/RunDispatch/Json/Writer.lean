/-
# Writing JSON compactly

No blank is written between the parts of a value. In strings only the quote, the backslash and the
controls U+0000 to U+001F are escaped, the latter by their short escape if they have one and by
four lower-case digits otherwise. Doubles are written with the fewest digits that read back,
positionally while the first digit stands between 10^-5 and 10^15.

Key definitions: `quoted`, `Number.write`, `Value.write`.
-/
import RunDispatch.Decimal.Shortest
import RunDispatch.Json.Value
import RunDispatch.Text.Hex

namespace RunDispatch.Json

/-- A control as four hexadecimal digits. -/
def unicodeEscape (c : Char) : List Char :=
  ['\\', 'u', '0', '0', Text.hexDigit (c.toNat / 16), Text.hexDigit (c.toNat % 16)]

/-- One character of a string. -/
def escaped (c : Char) : List Char :=
  if c = '"' then ['\\', '"']
  else if c = '\\' then ['\\', '\\']
  else if c = '\n' then ['\\', 'n']
  else if c = '\r' then ['\\', 'r']
  else if c = '\t' then ['\\', 't']
  else if c.toNat = 0x08 then ['\\', 'b']
  else if c.toNat = 0x0C then ['\\', 'f']
  else if c.toNat < 0x20 then unicodeEscape c
  else [c]

/-- A string between quotes. -/
def quoted (s : List Char) : List Char :=
  '"' :: (s.flatMap escaped ++ ['"'])

/-- Doubles are positional from 10^-5 to 10^15, whole ones end in `.0`, and an exponent has a
sign. -/
def numberLayout : Decimal.Layout := ⟨-5, 15, ['.', '0'], ['+']⟩

/-- A whole number in decimal. -/
def writeInt (n : Int) : List Char :=
  if n < 0 then '-' :: Nat.toDigits 10 n.natAbs else Nat.toDigits 10 n.natAbs

/-- A number. -/
def Number.write : Number → List Char
  | whole n => writeInt n
  | double x => numberLayout.write x

/-- Texts with a comma between each two. -/
def commaSeparated : List (List Char) → List Char
  | [] => []
  | [t] => t
  | t :: r => t ++ ',' :: commaSeparated r

mutual

/-- A value, without blanks. -/
def Value.write : Value → List Char
  | .null => ['n', 'u', 'l', 'l']
  | .bool true => ['t', 'r', 'u', 'e']
  | .bool false => ['f', 'a', 'l', 's', 'e']
  | .number n => n.write
  | .string s => quoted s.toList
  | .array items => '[' :: (commaSeparated (writeItems items) ++ [']'])
  | .object members => '\x7b' :: (commaSeparated (writeMembers members) ++ ['\x7d'])

/-- The items of an array. -/
def writeItems : List Value → List (List Char)
  | [] => []
  | v :: r => v.write :: writeItems r

/-- The members of an object, each name before its value. -/
def writeMembers : List (String × Value) → List (List Char)
  | [] => []
  | (n, v) :: r => (quoted n.toList ++ ':' :: v.write) :: writeMembers r

end

/-- The text of a value, without blanks. -/
def Value.compact (v : Value) : String :=
  String.ofList v.write

end RunDispatch.Json
