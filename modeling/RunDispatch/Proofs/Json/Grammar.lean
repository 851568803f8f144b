/-
# The grammar of JSON, and what its texts denote

A text is a phrase with blanks around it. A phrase is a word, a number, a string, or an array or an object of
phrases, with blanks anywhere between its parts. The grammar is a relation between a phrase, a text that
begins with it, and what follows it there; numbers are taken as long as they can be.

What a phrase denotes is a meaning. A number denotes the rational number that its digits, its point and its
exponent spell, however long it is; a string denotes its characters; and an object denotes a map from names,
in which the last member of a name counts. A string with a unit of UTF-16 that has no partner denotes nothing.
A text denotes one meaning at most.

Key definitions: `Literal`, `Literal.lex?`, `Literal.exact`, `Piece`, `chars?`, `Phrase`, `Begins`,
`Meaning`, `Phrase.meaning`, `Phrase.Paired`, `Denotes`.
Key theorems: `Begins.unique`, `Denotes.unique`.
-/
import Mathlib.Algebra.Order.Field.Rat
import RunDispatch.Json.Literal

namespace RunDispatch.Json

/-! ### Numbers -/

/-- A number as it is written: its sign, its digits before and after the point, and the digits of its
exponent, which may point down. -/
structure Literal where
  negative : Bool
  whole : List Char
  fraction : List Char
  exponent : Option (Bool × List Char)

def spelled (digits : List Char) : Nat := Nat.ofDigitChars 10 digits 0

def digits? (cs : List Char) : Option (List Char × List Char) :=
  if cs.takeWhile isDigit = [] then none
  else some (cs.takeWhile isDigit, cs.dropWhile isDigit)

namespace Literal

/-- The power of ten in the exponent. -/
def power (l : Literal) : Int :=
  match l.exponent with
  | none => 0
  | some (true, digits) => -(spelled digits : Int)
  | some (false, digits) => spelled digits

/-- The number that a literal denotes, exactly. -/
def exact (l : Literal) : ℚ :=
  (if l.negative then -1 else 1) * spelled (l.whole ++ l.fraction) *
    10 ^ (l.power - l.fraction.length)

/-- The digits before the point: a zero stands alone. -/
def whole? (cs : List Char) : Option (List Char × List Char) := do
  let (digits, r) ← digits? cs
  if digits.head? = some '0' ∧ digits ≠ ['0'] then none else return (digits, r)

/-- The digits after a point, if there is one. -/
def fraction? : List Char → Option (List Char × List Char)
  | '.' :: cs => digits? cs
  | cs => some ([], cs)

/-- The sign of an exponent, and what follows. -/
def exponentSign : List Char → Bool × List Char
  | '+' :: cs => (false, cs)
  | '-' :: cs => (true, cs)
  | cs => (false, cs)

/-- The exponent, if there is one. -/
def exponent? : List Char → Option (Option (Bool × List Char) × List Char)
  | [] => some (none, [])
  | c :: cs =>
    if c = 'e' ∨ c = 'E' then
      (digits? (exponentSign cs).2).map fun (digits, r) =>
        (some ((exponentSign cs).1, digits), r)
    else some (none, c :: cs)

/-- The parts of a number after its sign. -/
def unsigned? (negative : Bool) (cs : List Char) : Option (Literal × List Char) := do
  let (whole, cs) ← whole? cs
  let (fraction, cs) ← fraction? cs
  let (exponent, cs) ← exponent? cs
  return (⟨negative, whole, fraction, exponent⟩, cs)

/-- The number at the beginning of a text, and what follows it. -/
def lex? : List Char → Option (Literal × List Char)
  | '-' :: cs => unsigned? true cs
  | cs => unsigned? false cs

/-- A number begins with a digit or with a minus sign. -/
theorem lex?_cons {c : Char} {t : List Char} (hm : c ≠ '-') (hd : isDigit c = false) :
    lex? (c :: t) = none := by
  have hw : whole? (c :: t) = none := by
    have hdigits : digits? (c :: t) = none := by
      rw [digits?, List.takeWhile_cons_of_neg (by simp [hd]), if_pos rfl]
    rw [whole?, hdigits]
    rfl
  have hl : lex? (c :: t) = unsigned? false (c :: t) := by
    unfold lex?
    split
    · rename_i h
      cases h
      exact absurd rfl hm
    · rfl
  rw [hl, unsigned?, hw]
  rfl

end Literal

/-! ### Strings -/

/-- A part of a string as it is written: a character, or a unit of UTF-16 given by its number. -/
inductive Piece where
  | char (c : Char)
  | unit (n : Nat)

def quad? (a b c d : Char) : Option Nat := do
  let a ← Text.hexValue? a
  let b ← Text.hexValue? b
  let c ← Text.hexValue? c
  let d ← Text.hexValue? d
  return ((a * 16 + b) * 16 + c) * 16 + d

/-- The pieces of a string after its opening quote, up to the closing one, and what follows that. -/
inductive Body : List Piece → List Char → List Char → Prop where
  | close {r : List Char} : Body [] ('"' :: r) r
  | char {ps : List Piece} {c : Char} {cs r : List Char} (hq : c ≠ '"') (hb : c ≠ '\\')
      (hc : 0x20 ≤ c.toNat) (h : Body ps cs r) : Body (.char c :: ps) (c :: cs) r
  | short {ps : List Piece} {c e : Char} {cs r : List Char} (he : shortEscape? e = some c)
      (h : Body ps cs r) : Body (.char c :: ps) ('\\' :: e :: cs) r
  | unit {ps : List Piece} {n : Nat} {w x y z : Char} {cs r : List Char}
      (hn : quad? w x y z = some n) (h : Body ps cs r) :
      Body (.unit n :: ps) ('\\' :: 'u' :: w :: x :: y :: z :: cs) r

/-- The character that two units of UTF-16 are. -/
def pairOf (high low : Nat) : Char :=
  Char.ofNat (0x10000 + (high - 0xD800) * 0x400 + (low - 0xDC00))

/-- The characters that pieces spell, unless a unit of a pair stands alone. -/
def chars? : List Piece → Option (List Char)
  | [] => some []
  | .char c :: ps => (chars? ps).map (c :: ·)
  | .unit n :: .unit m :: ps =>
    if isLowSurrogate n then none
    else if isHighSurrogate n then
      if isLowSurrogate m then (chars? ps).map (pairOf n m :: ·) else none
    else (chars? (.unit m :: ps)).map (Char.ofNat n :: ·)
  | .unit n :: ps =>
    if isLowSurrogate n ∨ isHighSurrogate n then none
    else (chars? ps).map (Char.ofNat n :: ·)

def textOf (ps : List Piece) : String := String.ofList ((chars? ps).getD [])

/-! ### Phrases -/

/-- A JSON value as it is written, but for the blanks in it. -/
inductive Phrase where
  | null
  | bool (b : Bool)
  | number (l : Literal)
  | string (ps : List Piece)
  | array (items : List Phrase)
  | object (members : List (List Piece × Phrase))

mutual

/-- A text begins, after blanks, with a phrase, and goes on as told. -/
inductive Begins : Phrase → List Char → List Char → Prop where
  | null {cs r : List Char} (h : skipBlanks cs = 'n' :: 'u' :: 'l' :: 'l' :: r) : Begins .null cs r
  | yes {cs r : List Char} (h : skipBlanks cs = 't' :: 'r' :: 'u' :: 'e' :: r) :
      Begins (.bool true) cs r
  | no {cs r : List Char} (h : skipBlanks cs = 'f' :: 'a' :: 'l' :: 's' :: 'e' :: r) :
      Begins (.bool false) cs r
  | number {l : Literal} {cs r : List Char} (h : Literal.lex? (skipBlanks cs) = some (l, r)) :
      Begins (.number l) cs r
  | string {ps : List Piece} {cs d r : List Char} (h : skipBlanks cs = '"' :: d) (hs : Body ps d r) :
      Begins (.string ps) cs r
  | array {xs : List Phrase} {cs d r : List Char} (h : skipBlanks cs = '[' :: d)
      (hi : Items true xs d r) : Begins (.array xs) cs r
  | object {ms : List (List Piece × Phrase)} {cs d r : List Char} (h : skipBlanks cs = '\x7b' :: d)
      (hm : Members true ms d r) : Begins (.object ms) cs r

/-- The items that are left of an array, of which the next is the first or not, and the closing bracket. -/
inductive Items : Bool → List Phrase → List Char → List Char → Prop where
  | close {first : Bool} {cs r : List Char} (h : skipBlanks cs = ']' :: r) : Items first [] cs r
  | first {x : Phrase} {xs : List Phrase} {cs d r : List Char} (hx : Begins x cs d)
      (hxs : Items false xs d r) : Items true (x :: xs) cs r
  | next {x : Phrase} {xs : List Phrase} {cs e d r : List Char} (h : skipBlanks cs = ',' :: e)
      (hx : Begins x e d) (hxs : Items false xs d r) : Items false (x :: xs) cs r

/-- The members that are left of an object, of which the next is the first or not, and the closing brace. -/
inductive Members : Bool → List (List Piece × Phrase) → List Char → List Char → Prop where
  | close {first : Bool} {cs r : List Char} (h : skipBlanks cs = '\x7d' :: r) : Members first [] cs r
  | first {ps : List Piece} {x : Phrase} {ms : List (List Piece × Phrase)} {cs e d c t r : List Char}
      (hq : skipBlanks cs = '"' :: e) (hs : Body ps e d) (hc : skipBlanks d = ':' :: c)
      (hx : Begins x c t) (hms : Members false ms t r) : Members true ((ps, x) :: ms) cs r
  | next {ps : List Piece} {x : Phrase} {ms : List (List Piece × Phrase)} {cs b e d c t r : List Char}
      (h : skipBlanks cs = ',' :: b) (hq : skipBlanks b = '"' :: e) (hs : Body ps e d)
      (hc : skipBlanks d = ':' :: c) (hx : Begins x c t) (hms : Members false ms t r) :
      Members false ((ps, x) :: ms) cs r

end

/-! ### Meanings -/

/-- What a JSON text denotes. -/
inductive Meaning where
  | null
  | bool (b : Bool)
  | number (q : ℚ)
  | string (s : String)
  | array (items : List Meaning)
  | object (member : String → Option Meaning)

/-- The last value of a name. -/
def lastOf {α : Type} : List (String × α) → String → Option α
  | [], _ => none
  | (n, v) :: r, name => (lastOf r name).or (if n = name then some v else none)

mutual

/-- What a phrase denotes if its numbers denote what `ν` says. -/
def Phrase.meaning (ν : Literal → ℚ) : Phrase → Meaning
  | .null => .null
  | .bool b => .bool b
  | .number l => .number (ν l)
  | .string ps => .string (textOf ps)
  | .array items => .array (itemMeanings ν items)
  | .object members => .object (lastOf (memberMeanings ν members))

def itemMeanings (ν : Literal → ℚ) : List Phrase → List Meaning
  | [] => []
  | x :: xs => x.meaning ν :: itemMeanings ν xs

/-- What the members of an object denote, each with its name. -/
def memberMeanings (ν : Literal → ℚ) : List (List Piece × Phrase) → List (String × Meaning)
  | [] => []
  | (ps, x) :: ms => (textOf ps, x.meaning ν) :: memberMeanings ν ms

end

mutual

/-- Every string in a phrase spells characters. -/
def Phrase.Paired : Phrase → Prop
  | .string ps => (chars? ps).isSome
  | .array items => ItemsPaired items
  | .object members => MembersPaired members
  | _ => True

def ItemsPaired : List Phrase → Prop
  | [] => True
  | x :: xs => x.Paired ∧ ItemsPaired xs

def MembersPaired : List (List Piece × Phrase) → Prop
  | [] => True
  | (ps, x) :: ms => (chars? ps).isSome ∧ x.Paired ∧ MembersPaired ms

end

/-- A text is a phrase with blanks around it. -/
def Spells (text : List Char) (x : Phrase) : Prop :=
  ∃ r, Begins x text r ∧ skipBlanks r = []

/-- A text denotes a meaning: that of the phrase that it is, its numbers taken exactly. -/
def Denotes (text : List Char) (m : Meaning) : Prop :=
  ∃ x, Spells text x ∧ x.Paired ∧ x.meaning Literal.exact = m

/-! ### A text denotes one meaning -/

theorem shortEscape?_u : shortEscape? 'u' = none := by decide

theorem Body.unique {ps qs : List Piece} {cs r s : List Char} (hp : Body ps cs r)
    (hq : Body qs cs s) : ps = qs ∧ r = s := by
  induction hp generalizing qs s with
  | close =>
    cases hq with
    | close => exact ⟨rfl, rfl⟩
    | char hq => exact absurd rfl hq
  | char hne hb hc h ih =>
    cases hq with
    | close => exact absurd rfl hne
    | char _ _ _ h' =>
      obtain ⟨rfl, rfl⟩ := ih h'
      exact ⟨rfl, rfl⟩
    | short => exact absurd rfl hb
    | unit => exact absurd rfl hb
  | short he h ih =>
    cases hq with
    | char _ hb => exact absurd rfl hb
    | short he' h' =>
      obtain ⟨rfl, rfl⟩ := ih h'
      cases he.symm.trans he'
      exact ⟨rfl, rfl⟩
    | unit => cases shortEscape?_u.symm.trans he
  | unit hn h ih =>
    cases hq with
    | char _ hb => exact absurd rfl hb
    | short he' => cases shortEscape?_u.symm.trans he'
    | unit hn' h' =>
      obtain ⟨rfl, rfl⟩ := ih h'
      cases hn.symm.trans hn'
      exact ⟨rfl, rfl⟩

theorem lex?_ne {cs t r : List Char} {c : Char} {l : Literal} (h : skipBlanks cs = c :: t)
    (hm : c ≠ '-') (hd : isDigit c = false) : Literal.lex? (skipBlanks cs) ≠ some (l, r) := by
  rw [h, Literal.lex?_cons hm hd]
  exact nofun

theorem Begins.not_close {x : Phrase} {cs r t : List Char} (hx : Begins x cs r) :
    skipBlanks cs ≠ ']' :: t := by
  intro hb
  cases hx with
  | number h => exact lex?_ne hb (by decide) (by decide) h
  | null h | yes h | no h | string h | array h | object h => cases hb.symm.trans h

mutual

/-- **A text begins with one phrase.** -/
theorem Begins.unique {x y : Phrase} {cs r s : List Char} (hx : Begins x cs r) (hy : Begins y cs s) :
    x = y ∧ r = s := by
  cases hx with
  | null h =>
    cases hy with
    | null h' =>
      cases h.symm.trans h'
      exact ⟨rfl, rfl⟩
    | number h' => exact absurd h' (lex?_ne h (by decide) (by decide))
    | yes h' | no h' | string h' | array h' | object h' => cases h.symm.trans h'
  | yes h =>
    cases hy with
    | yes h' =>
      cases h.symm.trans h'
      exact ⟨rfl, rfl⟩
    | number h' => exact absurd h' (lex?_ne h (by decide) (by decide))
    | null h' | no h' | string h' | array h' | object h' => cases h.symm.trans h'
  | no h =>
    cases hy with
    | no h' =>
      cases h.symm.trans h'
      exact ⟨rfl, rfl⟩
    | number h' => exact absurd h' (lex?_ne h (by decide) (by decide))
    | null h' | yes h' | string h' | array h' | object h' => cases h.symm.trans h'
  | number h =>
    cases hy with
    | number h' =>
      cases h.symm.trans h'
      exact ⟨rfl, rfl⟩
    | null h' | yes h' | no h' | string h' | array h' | object h' =>
      exact absurd h (lex?_ne h' (by decide) (by decide))
  | string h hs =>
    cases hy with
    | string h' hs' =>
      cases h.symm.trans h'
      obtain ⟨rfl, rfl⟩ := hs.unique hs'
      exact ⟨rfl, rfl⟩
    | number h' => exact absurd h' (lex?_ne h (by decide) (by decide))
    | null h' | yes h' | no h' | array h' | object h' => cases h.symm.trans h'
  | array h hi =>
    cases hy with
    | array h' hi' =>
      cases h.symm.trans h'
      obtain ⟨rfl, rfl⟩ := hi.unique hi'
      exact ⟨rfl, rfl⟩
    | number h' => exact absurd h' (lex?_ne h (by decide) (by decide))
    | null h' | yes h' | no h' | string h' | object h' => cases h.symm.trans h'
  | object h hm =>
    cases hy with
    | object h' hm' =>
      cases h.symm.trans h'
      obtain ⟨rfl, rfl⟩ := hm.unique hm'
      exact ⟨rfl, rfl⟩
    | number h' => exact absurd h' (lex?_ne h (by decide) (by decide))
    | null h' | yes h' | no h' | string h' | array h' => cases h.symm.trans h'

theorem Items.unique {first : Bool} {xs ys : List Phrase} {cs r s : List Char}
    (hx : Items first xs cs r) (hy : Items first ys cs s) : xs = ys ∧ r = s := by
  cases hx with
  | close h =>
    cases hy with
    | close h' =>
      cases h.symm.trans h'
      exact ⟨rfl, rfl⟩
    | first hx => exact absurd h hx.not_close
    | next h' => cases h.symm.trans h'
  | first hx hxs =>
    cases hy with
    | close h => exact absurd h hx.not_close
    | first hx' hxs' =>
      obtain ⟨rfl, rfl⟩ := hx.unique hx'
      obtain ⟨rfl, rfl⟩ := hxs.unique hxs'
      exact ⟨rfl, rfl⟩
  | next h hx hxs =>
    cases hy with
    | close h' => cases h.symm.trans h'
    | next h' hx' hxs' =>
      cases h.symm.trans h'
      obtain ⟨rfl, rfl⟩ := hx.unique hx'
      obtain ⟨rfl, rfl⟩ := hxs.unique hxs'
      exact ⟨rfl, rfl⟩

theorem Members.unique {first : Bool} {ms ns : List (List Piece × Phrase)} {cs r s : List Char}
    (hx : Members first ms cs r) (hy : Members first ns cs s) : ms = ns ∧ r = s := by
  cases hx with
  | close h =>
    cases hy with
    | close h' =>
      cases h.symm.trans h'
      exact ⟨rfl, rfl⟩
    | first h' | next h' => cases h.symm.trans h'
  | first hq hs hc hx hms =>
    cases hy with
    | close h' => cases hq.symm.trans h'
    | first hq' hs' hc' hx' hms' =>
      cases hq.symm.trans hq'
      obtain ⟨rfl, rfl⟩ := hs.unique hs'
      cases hc.symm.trans hc'
      obtain ⟨rfl, rfl⟩ := hx.unique hx'
      obtain ⟨rfl, rfl⟩ := hms.unique hms'
      exact ⟨rfl, rfl⟩
  | next h hq hs hc hx hms =>
    cases hy with
    | close h' => cases h.symm.trans h'
    | next h' hq' hs' hc' hx' hms' =>
      cases h.symm.trans h'
      cases hq.symm.trans hq'
      obtain ⟨rfl, rfl⟩ := hs.unique hs'
      cases hc.symm.trans hc'
      obtain ⟨rfl, rfl⟩ := hx.unique hx'
      obtain ⟨rfl, rfl⟩ := hms.unique hms'
      exact ⟨rfl, rfl⟩

end

/-- **A text denotes one meaning at most.** -/
theorem Denotes.unique {text : List Char} {m n : Meaning} (hm : Denotes text m) (hn : Denotes text n) :
    m = n := by
  obtain ⟨x, ⟨r, hx, -⟩, -, rfl⟩ := hm
  obtain ⟨y, ⟨s, hy, -⟩, -, rfl⟩ := hn
  rw [(hx.unique hy).1]

end RunDispatch.Json
