/-
# Literals: blanks, words, numbers and strings

The leaves of the JSON grammar, each a function on the characters that are left. A number that
does not fit 64 bits, or has a fraction or an exponent, or is `-0`, is a double; its digits are
gathered until the next would overflow 64 bits, and further ones only move the point.

Key definitions: `skipBlanks`, `readWord`, `readNumber`, `readString`.
-/
import RunDispatch.Decimal.Scaled
import RunDispatch.Json.Failure

namespace RunDispatch.Json

/-- The reading that fails because the text is malformed. -/
def refuse {α : Type} (m : Malformed) : Except Failure α := .error (.malformed m)

/-- The blanks of JSON: space, tab, carriage return and newline. -/
def isJsonBlank (c : Char) : Bool :=
  c == ' ' || c == '\n' || c == '\t' || c == '\r'

/-- The text from the first character that is no blank. -/
def skipBlanks (cs : List Char) : List Char :=
  cs.dropWhile isJsonBlank

/-- Reads the letters of a word. -/
def readWord : List Char → List Char → Except Failure (List Char)
  | [], cs => .ok cs
  | _ :: _, [] => refuse .endInValue
  | w :: ws, c :: cs => if w = c then readWord ws cs else refuse .expectedIdent

/-- The value of a decimal digit. -/
def digitValue (c : Char) : Nat := c.toNat - '0'.toNat

/-- A decimal digit of ASCII. -/
def isDigit (c : Char) : Bool := '0' ≤ c && c ≤ '9'

/-- Sixty-four bits hold no number from here on. -/
def wordLimit : Nat := Nat.pow 2 64

/-- Sixty-four bits with a sign hold no number from here on. -/
def signedLimit : Nat := Nat.pow 2 63

/-- A gathered number: its sign, its digits, and the power of ten they are to be multiplied by. -/
structure Gathered where
  negative : Bool
  significand : Nat
  exponent : Int

/-- The double of gathered digits. -/
def Gathered.double (g : Gathered) : Except Failure Number :=
  match Decimal.ofScaled? g.significand g.exponent with
  | none => refuse .numberOutOfRange
  | some x => .ok (.double (if g.negative then x.neg else x))

/-- The whole number of gathered digits: a word of 64 bits if it fits, otherwise a double. Minus
zero is a double too. -/
def Gathered.whole (g : Gathered) : Except Failure Number :=
  if g.negative then
    if 0 < g.significand ∧ g.significand ≤ signedLimit then .ok (.whole (-(g.significand : Int)))
    else g.double
  else .ok (.whole g.significand)

/-- Digits read into a significand while it stays below 2^64; tells how many were read. -/
def gatherDigits (significand count : Nat) : List Char → Nat × Nat × List Char
  | [] => (significand, count, [])
  | c :: cs =>
    if isDigit c then
      let next := significand * 10 + digitValue c
      if wordLimit ≤ next then (significand, count, c :: cs)
      else gatherDigits next (count + 1) cs
    else (significand, count, c :: cs)

/-- The greatest exponent that is read as a number. -/
def exponentLimit : Nat := Nat.pow 2 31 - 1

/-- The digits of an exponent: its value, or `none` if it exceeds the limit, and the rest. -/
def gatherExponent (value : Nat) : List Char → Option Nat × List Char
  | [] => (some value, [])
  | c :: cs =>
    if isDigit c then
      let next := value * 10 + digitValue c
      if exponentLimit < next then (none, cs.dropWhile isDigit) else gatherExponent next cs
    else (some value, c :: cs)

/-- Reads an exponent after its `e`. -/
def readExponent (g : Gathered) (cs : List Char) : Except Failure (Number × List Char) :=
  let (down, cs) := match cs with
    | '+' :: r => (false, r)
    | '-' :: r => (true, r)
    | _ => (false, cs)
  match cs with
  | [] => refuse .endInValue
  | c :: r =>
    if !isDigit c then refuse .invalidNumber
    else match gatherExponent (digitValue c) r with
      | (some e, rest) => do
        let e : Int := if down then -(e : Int) else e
        return (← ({ g with exponent := g.exponent + e } : Gathered).double, rest)
      | (none, rest) =>
        if g.significand ≠ 0 ∧ ¬ down then refuse .numberOutOfRange
        else .ok (.double (.zero g.negative), rest)

/-- Reads what follows the digits of a fraction, or of a whole part that did not fit. -/
def readAfterDigits (g : Gathered) : List Char → Except Failure (Number × List Char)
  | 'e' :: r => readExponent g r
  | 'E' :: r => readExponent g r
  | cs => do return (← g.double, cs)

/-- Reads a fraction after its point. -/
def readFraction (g : Gathered) (cs : List Char) : Except Failure (Number × List Char) :=
  let (significand, count, rest) := gatherDigits g.significand 0 cs
  let g : Gathered := { g with significand := significand, exponent := g.exponent - count }
  match rest with
  | [] => if count = 0 then refuse .endInValue else readAfterDigits g rest
  | c :: _ =>
    if isDigit c then readAfterDigits g (rest.dropWhile isDigit)
    else if count = 0 then refuse .invalidNumber
    else readAfterDigits g rest

/-- Reads what follows the whole part. -/
def readAfterWhole (g : Gathered) : List Char → Except Failure (Number × List Char)
  | '.' :: r => readFraction g r
  | 'e' :: r => readExponent g r
  | 'E' :: r => readExponent g r
  | cs =>
    match cs.takeWhile isDigit with
    | [] => do return (← g.whole, cs)
    | more =>
      let g : Gathered := { g with exponent := more.length }
      match cs.dropWhile isDigit with
      | '.' :: r => readFraction g r
      | rest => readAfterDigits g rest

/-- Reads a number after its sign. -/
def readUnsigned (negative : Bool) : List Char → Except Failure (Number × List Char)
  | [] => refuse .endInValue
  | '0' :: r =>
    match r with
    | c :: _ => if isDigit c then refuse .invalidNumber else readAfterWhole ⟨negative, 0, 0⟩ r
    | [] => readAfterWhole ⟨negative, 0, 0⟩ r
  | c :: r =>
    if isDigit c then
      let (significand, _, rest) := gatherDigits (digitValue c) 0 r
      readAfterWhole ⟨negative, significand, 0⟩ rest
    else refuse .invalidNumber

/-- Reads a number. -/
def readNumber : List Char → Except Failure (Number × List Char)
  | '-' :: r => readUnsigned true r
  | cs => readUnsigned false cs

/-- Reads the four digits of a `\u` escape. They are four octets: fewer end the text, and others
than digits are a bad escape. -/
def readHex4 : List Char → Except Failure (Nat × List Char)
  | a :: b :: c :: d :: r =>
    match Text.hexValue? a, Text.hexValue? b, Text.hexValue? c, Text.hexValue? d with
    | some a, some b, some c, some d => .ok (((a * 16 + b) * 16 + c) * 16 + d, r)
    | _, _, _, _ => refuse .invalidEscape
  | cs => if 4 ≤ (Text.utf8Chars cs).length then refuse .invalidEscape else refuse .endInString

/-- Whether a unit of UTF-16 starts a pair. -/
def isHighSurrogate (n : Nat) : Bool := 0xD800 ≤ n && n ≤ 0xDBFF

/-- Whether a unit of UTF-16 ends a pair. -/
def isLowSurrogate (n : Nat) : Bool := 0xDC00 ≤ n && n ≤ 0xDFFF

/-- Reads the character of a `\u` escape, which takes a second escape if the first unit starts a
pair. -/
def readUnicode (cs : List Char) : Except Failure (Char × List Char) := do
  let (n, cs) ← readHex4 cs
  if isLowSurrogate n then refuse .loneSurrogate
  else if !isHighSurrogate n then return (Char.ofNat n, cs)
  else match cs with
    | [] => refuse .endInString
    | '\\' :: [] => refuse .endInString
    | '\\' :: 'u' :: r =>
      let (m, r) ← readHex4 r
      if isLowSurrogate m then
        return (Char.ofNat (0x10000 + (n - 0xD800) * 0x400 + (m - 0xDC00)), r)
      else refuse .loneSurrogate
    | _ => refuse .unexpectedEndOfEscape

/-- The character of a short escape. -/
def shortEscape? (c : Char) : Option Char :=
  if c = '"' ∨ c = '\\' ∨ c = '/' then some c
  else if c = 'b' then some (Char.ofNat 0x08)
  else if c = 'f' then some (Char.ofNat 0x0C)
  else if c = 'n' then some '\n'
  else if c = 'r' then some '\r'
  else if c = 't' then some '\t'
  else none

/-- Reads one escape after its backslash. -/
def readEscape : List Char → Except Failure (Char × List Char)
  | [] => refuse .endInString
  | 'u' :: r => readUnicode r
  | c :: r => match shortEscape? c with
    | some d => .ok (d, r)
    | none => refuse .invalidEscape

/-- Reads the characters of a string up to its closing quote; `fuel` exceeds their number. -/
def readStringFrom : Nat → List Char → Except Failure (List Char × List Char)
  | 0, _ => refuse .endInString
  | _ + 1, [] => refuse .endInString
  | fuel + 1, c :: cs =>
    if c = '"' then .ok ([], cs)
    else if c = '\\' then do
      let (d, r) ← readEscape cs
      let (s, r) ← readStringFrom fuel r
      return (d :: s, r)
    else if c.toNat < 0x20 then refuse .controlCharacter
    else do
      let (s, r) ← readStringFrom fuel cs
      return (c :: s, r)

/-- Reads a string after its opening quote. -/
def readString (cs : List Char) : Except Failure (String × List Char) := do
  let (s, r) ← readStringFrom (cs.length + 1) cs
  return (String.ofList s, r)

end RunDispatch.Json
