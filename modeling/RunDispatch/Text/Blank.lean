/-
# White space

The characters of Unicode's property White_Space, and what the library does with them: trimming
a text at both ends and telling whether it is blank. U+200B, U+FEFF and U+001C to U+001F are not
in the property, so a text of these alone is not blank.

Key definitions: `isBlank`, `trim`, `allBlank`.
Key theorems: `isBlank_of_isWhitespace`, `trimLeft_eq_nil_iff`.
-/
namespace RunDispatch.Text

/-- The white space characters of Unicode. -/
def isBlank (c : Char) : Bool :=
  let n := c.toNat
  (9 ≤ n && n ≤ 13) || n == 0x20 || n == 0x85 || n == 0xA0 || n == 0x1680 ||
    (0x2000 ≤ n && n ≤ 0x200A) || n == 0x2028 || n == 0x2029 || n == 0x202F || n == 0x205F ||
    n == 0x3000

/-- The characters from the first that is not white space. -/
def trimLeft (cs : List Char) : List Char :=
  cs.dropWhile isBlank

/-- The characters without the white space at both ends. -/
def trimChars (cs : List Char) : List Char :=
  (trimLeft (trimLeft cs).reverse).reverse

/-- The text without the white space at both ends. -/
def trim (s : String) : String :=
  String.ofList (trimChars s.toList)

/-- A text is blank when it holds white space only, or nothing. -/
def allBlank (s : String) : Bool :=
  s.toList.all isBlank

theorem isBlank_of_isWhitespace {c : Char} (h : c.isWhitespace) : isBlank c := by
  simp only [Char.isWhitespace, Bool.or_eq_true, decide_eq_true_eq] at h
  rcases h with ((h | h) | h) | h <;> subst h <;> decide

theorem trimLeft_eq_nil_iff (cs : List Char) : trimLeft cs = [] ↔ cs.all isBlank := by
  induction cs with
  | nil => simp [trimLeft]
  | cons c r ih =>
    simp only [trimLeft] at ih
    cases h : isBlank c <;> simp [trimLeft, h, ih]

end RunDispatch.Text
