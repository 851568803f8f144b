/-
# Percent escapes of URLs

Reading replaces `%` and two hexadecimal digits by the octet they spell and keeps every other
octet, a malformed escape included. Writing, for a path, keeps what a URL path may hold as it
is, existing escapes included, and escapes the octets of everything else.

Key definitions: `percentDecode`, `percentEncodePath`.
-/
import RunDispatch.Text.Hex

namespace RunDispatch.Text

/-- The octets that an escaped text spells. -/
def percentDecodeChars : List Char → Bytes
  | '%' :: h :: l :: r =>
    match hexValue? h, hexValue? l with
    | some hi, some lo => UInt8.ofNat (hi * 16 + lo) :: percentDecodeChars r
    | _, _ => utf8Chars ['%'] ++ percentDecodeChars (h :: l :: r)
  | c :: r => String.utf8EncodeChar c ++ percentDecodeChars r
  | [] => []
termination_by cs => cs.length

/-- The octets that an escaped text spells. -/
def percentDecode (s : String) : Bytes :=
  percentDecodeChars s.toList

/-- The escape of one octet, in upper case. -/
def percentEscape (b : UInt8) : List Char :=
  ['%', (hexDigit (b.toNat / 16)).toUpper, (hexDigit (b.toNat % 16)).toUpper]

/-- The characters that a URL path escapes: controls, what is not ASCII, and the few that would
end or disturb the path. -/
def escapedInPath (c : Char) : Bool :=
  let n := c.toNat
  n ≤ 0x20 || 0x7E < n || n == 0x22 || n == 0x23 || n == 0x3C || n == 0x3E || n == 0x3F ||
    n == 0x60 || n == 0x7B || n == 0x7D

/-- A text as it stands in a URL path. -/
def percentEncodePath (s : String) : String :=
  String.ofList (s.toList.flatMap fun c =>
    if escapedInPath c then (String.utf8EncodeChar c).flatMap percentEscape else [c])

end RunDispatch.Text
