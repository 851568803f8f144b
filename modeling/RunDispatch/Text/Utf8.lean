/-
# UTF-8, written and read leniently

Bytes are lists of octets. Writing is exact. Reading never fails: the longest beginning of a
character that cannot be completed is replaced by one U+FFFD, and reading goes on at the octet
that did not fit.

Key definitions: `Bytes`, `utf8`, `readUtf8`.
-/
namespace RunDispatch

/-- A string of octets. -/
abbrev Bytes := List UInt8

namespace Text

/-- The octets of a text. -/
def utf8Chars (cs : List Char) : Bytes :=
  cs.flatMap String.utf8EncodeChar

/-- The octets of a text. -/
def utf8 (s : String) : Bytes :=
  utf8Chars s.toList

/-- The character that stands for octets that are no character. -/
def replacement : Char := '\uFFFD'

/-- Where reading stands: between characters, or inside one that lacks `owed` octets, the next of
which has to lie between `low` and `high`. -/
structure Utf8Place where
  owed : Nat
  low : Nat
  high : Nat
  bits : Nat
  deriving DecidableEq

namespace Utf8Place

/-- Between two characters. -/
def between : Utf8Place := ⟨0, 0x80, 0xBF, 0⟩

/-- What the first octet of a character announces; `none` if no character starts with it. -/
def lead (b : Nat) : Option Utf8Place :=
  if 0xC2 ≤ b ∧ b ≤ 0xDF then some ⟨1, 0x80, 0xBF, b - 0xC0⟩
  else if b = 0xE0 then some ⟨2, 0xA0, 0xBF, 0⟩
  else if b = 0xED then some ⟨2, 0x80, 0x9F, 0xD⟩
  else if 0xE1 ≤ b ∧ b ≤ 0xEF then some ⟨2, 0x80, 0xBF, b - 0xE0⟩
  else if b = 0xF0 then some ⟨3, 0x90, 0xBF, 0⟩
  else if 0xF1 ≤ b ∧ b ≤ 0xF3 then some ⟨3, 0x80, 0xBF, b - 0xF0⟩
  else if b = 0xF4 then some ⟨3, 0x80, 0x8F, 4⟩
  else none

/-- The place after an octet that is read between characters, and the character it completes. -/
def start (b : Nat) : Utf8Place × List Char :=
  if b < 0x80 then (between, [Char.ofNat b])
  else match lead b with
    | some p => (p, [])
    | none => (between, [replacement])

/-- The place after one more octet, and the characters that it settles. -/
def step (p : Utf8Place) (b : Nat) : Utf8Place × List Char :=
  if p.owed = 0 then start b
  else if p.low ≤ b ∧ b ≤ p.high then
    let bits := p.bits * 64 + b % 64
    if p.owed = 1 then (between, [Char.ofNat bits])
    else (⟨p.owed - 1, 0x80, 0xBF, bits⟩, [])
  else
    let (q, cs) := start b
    (q, replacement :: cs)

end Utf8Place

/-- The characters that octets spell from a place on. -/
def readUtf8From (p : Utf8Place) : Bytes → List Char
  | [] => if p.owed = 0 then [] else [replacement]
  | b :: r => let (q, cs) := p.step b.toNat; cs ++ readUtf8From q r

/-- The characters that octets spell, with U+FFFD for what is no character. -/
def readUtf8Chars (bs : Bytes) : List Char :=
  readUtf8From Utf8Place.between bs

/-- The text that octets spell, with U+FFFD for what is no character. -/
def readUtf8 (bs : Bytes) : String :=
  String.ofList (readUtf8Chars bs)

/-- Whether octets are the UTF-8 of some text. -/
def isUtf8 (bs : Bytes) : Bool :=
  utf8Chars (readUtf8Chars bs) == bs

end Text
end RunDispatch
