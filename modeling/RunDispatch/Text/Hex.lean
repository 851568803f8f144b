/-
# Hexadecimal digits

Sixteen digits, read in either case and written in lower case; octets as pairs of them.

Key definitions: `hexValue?`, `hexDigit`, `hexOfBytes`, `bytesOfHex?`.
-/
import RunDispatch.Text.Utf8

namespace RunDispatch.Text

/-- The value of a hexadecimal digit of either case. -/
def hexValue? (c : Char) : Option Nat :=
  if '0' ≤ c ∧ c ≤ '9' then some (c.toNat - '0'.toNat)
  else if 'a' ≤ c ∧ c ≤ 'f' then some (c.toNat - 'a'.toNat + 10)
  else if 'A' ≤ c ∧ c ≤ 'F' then some (c.toNat - 'A'.toNat + 10)
  else none

/-- Whether a character is a hexadecimal digit. -/
def isHexDigit (c : Char) : Bool :=
  (hexValue? c).isSome

/-- The lower-case digit of a value below sixteen. -/
def hexDigit (n : Nat) : Char :=
  if n < 10 then Char.ofNat ('0'.toNat + n) else Char.ofNat ('a'.toNat + (n - 10))

/-- Two digits for each octet. -/
def hexOfBytes (bs : Bytes) : String :=
  String.ofList (bs.flatMap fun b => [hexDigit (b.toNat / 16), hexDigit (b.toNat % 16)])

/-- The octets that pairs of digits spell. -/
def bytesOfHexChars? : List Char → Option Bytes
  | [] => some []
  | [_] => none
  | h :: l :: r => do
    let hi ← hexValue? h
    let lo ← hexValue? l
    let rest ← bytesOfHexChars? r
    return UInt8.ofNat (hi * 16 + lo) :: rest

/-- The octets that pairs of digits spell. -/
def bytesOfHex? (s : String) : Option Bytes :=
  bytesOfHexChars? s.toList

theorem hexValue?_hexDigit {n : Nat} (h : n < 16) : hexValue? (hexDigit n) = some n := by
  have all : ∀ m, m < 16 → hexValue? (hexDigit m) = some m := by decide
  exact all n h

end RunDispatch.Text
