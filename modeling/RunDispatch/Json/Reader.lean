/-
# Reading JSON

Values are read from left to right, at most 127 arrays and objects deep. A reader wants a shape:
any value, a string, one of a few names, an array, or the members of a record; it stops at the
first problem, of whichever sort. A record is an object, whose unknown members are skipped, or an
array of its members in order. What is skipped has to be JSON as well, but is read more coarsely:
to any depth, with numbers of any size, and with unpaired surrogates.

Key definitions: `Reader`, `readValue`, `skipValue`, `Reader.string`, `Reader.names`,
`Reader.list`, `Reader.map`, `Reader.optional`, `Field`, `Record`, `Record.reader`, `parse`.
-/
import RunDispatch.Json.Literal

namespace RunDispatch.Json

/-- How deep arrays and objects may nest, and one more. -/
def depthLimit : Nat := 128

/-- A reader of a shape: takes the depth that is left and the text that is left. -/
abbrev Reader (α : Type) := Nat → List Char → Except Failure (α × List Char)

/-! ## Any value -/

/-- What stands before an item of an array: the array's end, or the text of the item. -/
def beforeItem (first : Bool) (cs : List Char) : Except Failure (Option (List Char) × List Char) :=
  match skipBlanks cs with
  | [] => refuse .endInList
  | ']' :: r => .ok (none, r)
  | ',' :: r =>
    if first then .ok (some (',' :: r), [])
    else match skipBlanks r with
      | [] => refuse .endInValue
      | ']' :: _ => refuse .trailingComma
      | s => .ok (some s, [])
  | s => if first then .ok (some s, []) else refuse .expectedCommaOrBracket

/-- What stands before a member of an object: the object's end, or the text after the opening quote
of the member's name. -/
def beforeMember (first : Bool) (cs : List Char) :
    Except Failure (Option (List Char) × List Char) :=
  match skipBlanks cs with
  | [] => refuse .endInObject
  | '\x7d' :: r => .ok (none, r)
  | c :: r =>
    if first then
      if c = '"' then .ok (some r, []) else refuse .keyNotString
    else if c = ',' then
      match skipBlanks r with
      | [] => refuse .endInValue
      | '"' :: s => .ok (some s, [])
      | '\x7d' :: _ => refuse .trailingComma
      | _ => refuse .keyNotString
    else refuse .expectedCommaOrBrace

/-- Reads the colon between a member's name and its value. -/
def readColon (cs : List Char) : Except Failure (List Char) :=
  match skipBlanks cs with
  | [] => refuse .endInObject
  | ':' :: r => .ok r
  | _ => refuse .expectedColon

/-- A failure inside a part belongs to the part's place. -/
def inPart {α : Type} (s : Step) (r : Except Failure α) : Except Failure α :=
  r.mapError (Failure.under s)

mutual

/-- Reads a value; `fuel` exceeds twice the number of characters that are left, since an opening
bracket takes two steps. -/
def readValueWith : Nat → Reader Value
  | 0, _, _ => refuse .endInValue
  | fuel + 1, depth, cs =>
    match skipBlanks cs with
    | [] => refuse .endInValue
    | 'n' :: r => do return (.null, ← readWord ['u', 'l', 'l'] r)
    | 't' :: r => do return (.bool true, ← readWord ['r', 'u', 'e'] r)
    | 'f' :: r => do return (.bool false, ← readWord ['a', 'l', 's', 'e'] r)
    | '"' :: r => do let (s, r) ← readString r; return (.string s, r)
    | '[' :: r =>
      match depth with
      | 0 | 1 => refuse .tooDeep
      | inner + 1 => do let (vs, r) ← readItems fuel inner 0 r; return (.array vs, r)
    | '\x7b' :: r =>
      match depth with
      | 0 | 1 => refuse .tooDeep
      | inner + 1 => do let (ms, r) ← readMembers fuel inner true [] r; return (.object ms, r)
    | c :: r =>
      if c = '-' ∨ isDigit c then do let (n, r) ← readNumber (c :: r); return (.number n, r)
      else refuse .expectedValue

/-- Reads the items of an array from the one at `index` on. -/
def readItems : Nat → Nat → Nat → List Char → Except Failure (List Value × List Char)
  | 0, _, _, _ => refuse .endInList
  | fuel + 1, depth, index, cs => do
    match ← beforeItem (index == 0) cs with
    | (none, r) => return ([], r)
    | (some s, _) =>
      let (v, r) ← inPart (.index index) (readValueWith fuel depth s)
      let (vs, r) ← readItems fuel depth (index + 1) r
      return (v :: vs, r)

/-- Reads the members of an object that are left, and puts them to those read before. -/
def readMembers : Nat → Nat → Bool → List (String × Value) → List Char →
    Except Failure (List (String × Value) × List Char)
  | 0, _, _, _, _ => refuse .endInObject
  | fuel + 1, depth, first, before, cs => do
    match ← beforeMember first cs with
    | (none, r) => return (before, r)
    | (some s, _) =>
      let (name, r) ← readString s
      let r ← readColon r
      let (v, r) ← inPart (.name name) (readValueWith fuel depth r)
      readMembers fuel depth false (insertMember name v before) r

end

/-- Reads any value. -/
def readValue : Reader Value := fun depth cs => readValueWith (2 * cs.length + 2) depth cs

/-! ## Skipping -/

/-- Skips the digits of an exponent after its `e`. -/
def skipExponent (cs : List Char) : Except Failure (List Char) :=
  let cs := match cs with
    | '+' :: r => r
    | '-' :: r => r
    | _ => cs
  match cs with
  | c :: r => if isDigit c then .ok (r.dropWhile isDigit) else refuse .invalidNumber
  | [] => refuse .invalidNumber

/-- Skips what may follow the digits of a number. -/
def skipAfterDigits : List Char → Except Failure (List Char)
  | 'e' :: r => skipExponent r
  | 'E' :: r => skipExponent r
  | cs => .ok cs

/-- Skips a number after its sign. -/
def skipUnsigned (cs : List Char) : Except Failure (List Char) := do
  let rest ← match cs with
    | '0' :: r =>
      match r with
      | c :: _ => if isDigit c then refuse .invalidNumber else pure r
      | [] => pure r
    | c :: r => if isDigit c then pure (r.dropWhile isDigit) else refuse .invalidNumber
    | [] => refuse .invalidNumber
  match rest with
  | '.' :: c :: r =>
    if isDigit c then skipAfterDigits (r.dropWhile isDigit) else refuse .invalidNumber
  | ['.'] => refuse .invalidNumber
  | _ => skipAfterDigits rest

/-- Skips a string after its opening quote; `fuel` exceeds the number of characters. -/
def skipStringWith : Nat → List Char → Except Failure (List Char)
  | 0, _ => refuse .endInString
  | _ + 1, [] => refuse .endInString
  | fuel + 1, c :: cs =>
    if c = '"' then .ok cs
    else if c = '\\' then
      match cs with
      | [] => refuse .endInString
      | 'u' :: r => do let (_, r) ← readHex4 r; skipStringWith fuel r
      | e :: r => if (shortEscape? e).isSome then skipStringWith fuel r else refuse .invalidEscape
    else if c.toNat < 0x20 then refuse .controlCharacter
    else skipStringWith fuel cs

/-- Skips a string after its opening quote. -/
def skipString (cs : List Char) : Except Failure (List Char) :=
  skipStringWith (cs.length + 1) cs

/-- An array or an object that is being skipped. -/
inductive Bracket where
  | square
  | curly
  deriving DecidableEq

/-- Where a skip stands: before a value, or after one, or right after an opening bracket. -/
inductive SkipPlace where
  | value
  | after
  | opened
  deriving DecidableEq

/-- Skips the name of a member and the colon after it. -/
def skipName (cs : List Char) : Except Failure (List Char) :=
  match skipBlanks cs with
  | [] => refuse .endInObject
  | '"' :: r => do readColon (← skipString r)
  | _ => refuse .keyNotString

/-- Before the next value of a bracket: a member has a name. -/
def skipToValue (b : Bracket) (cs : List Char) : Except Failure (List Char) :=
  match b with
  | .square => .ok cs
  | .curly => skipName cs

/-- Skips values; `brackets` holds the brackets that are still open, the innermost first. -/
def skipWith : Nat → SkipPlace → List Bracket → List Char → Except Failure (List Char)
  | 0, _, _, _ => refuse .endInValue
  | fuel + 1, .value, brackets, cs =>
    match skipBlanks cs with
    | [] => refuse .endInValue
    | 'n' :: r => do skipWith fuel .after brackets (← readWord ['u', 'l', 'l'] r)
    | 't' :: r => do skipWith fuel .after brackets (← readWord ['r', 'u', 'e'] r)
    | 'f' :: r => do skipWith fuel .after brackets (← readWord ['a', 'l', 's', 'e'] r)
    | '"' :: r => do skipWith fuel .after brackets (← skipString r)
    | '-' :: r => do skipWith fuel .after brackets (← skipUnsigned r)
    | '[' :: r => skipWith fuel .opened (.square :: brackets) r
    | '\x7b' :: r => skipWith fuel .opened (.curly :: brackets) r
    | c :: r =>
      if isDigit c then do skipWith fuel .after brackets (← skipUnsigned (c :: r))
      else refuse .expectedValue
  | _ + 1, _, [], cs => .ok cs
  | fuel + 1, place, b :: brackets, cs =>
    match skipBlanks cs with
    | [] => refuse (match b with | .square => .endInList | .curly => .endInObject)
    | c :: r =>
      if place = .after ∧ c = ',' then do
        skipWith fuel .value (b :: brackets) (← skipToValue b r)
      else if (b = .square ∧ c = ']') ∨ (b = .curly ∧ c = '\x7d') then
        skipWith fuel .after brackets r
      else if place = .after then
        refuse (match b with | .square => .expectedCommaOrBracket | .curly => .expectedCommaOrBrace)
      else do skipWith fuel .value (b :: brackets) (← skipToValue b (c :: r))

/-- Skips a value. -/
def skipValue : Reader Unit := fun _ cs => do
  return ((), ← skipWith (2 * cs.length + 2) .value [] cs)

/-! ## Shapes -/

/-- Fails with what stands where `wanted` was wanted. A word, number or string is read first, and
its own problem comes before. -/
def refuseType {α : Type} (wanted : String) (cs : List Char) : Except Failure α :=
  let wrong (found : Found) : Except Failure α := .error (.mismatch (.invalidType found wanted))
  match cs with
  | [] => refuse .endInValue
  | 'n' :: r => do let _ ← readWord ['u', 'l', 'l'] r; wrong .null
  | 't' :: r => do let _ ← readWord ['r', 'u', 'e'] r; wrong (.bool true)
  | 'f' :: r => do let _ ← readWord ['a', 'l', 's', 'e'] r; wrong (.bool false)
  | '"' :: r => do let (s, _) ← readString r; wrong (.string s)
  | '[' :: _ => wrong .sequence
  | '\x7b' :: _ => wrong .map
  | c :: r =>
    if c = '-' ∨ isDigit c then do let (n, _) ← readNumber (c :: r); wrong (.number n)
    else refuse .expectedValue

namespace Reader

/-- Reads a string. -/
def string : Reader String := fun _ cs =>
  match skipBlanks cs with
  | '"' :: r => readString r
  | r => refuseType "a string" r

/-- Reads a whole number of 64 bits with a sign. -/
def int64 : Reader Int := fun _ cs =>
  match skipBlanks cs with
  | [] => refuse .endInValue
  | c :: r =>
    if c = '-' ∨ isDigit c then do
      match ← readNumber (c :: r) with
      | (.whole n, r) =>
        if n < signedLimit then return (n, r)
        else .error (.mismatch (.invalidValue (.number (.whole n)) "i64"))
      | (n, _) => .error (.mismatch (.invalidType (.number n) "i64"))
    else refuseType "i64" (c :: r)

/-- Reads `null`. -/
def unit : Reader Unit := fun _ cs =>
  match skipBlanks cs with
  | 'n' :: r => do return ((), ← readWord ['u', 'l', 'l'] r)
  | r => refuseType "unit" r

/-- Reads a truth value. -/
def bool : Reader Bool := fun _ cs =>
  match skipBlanks cs with
  | 't' :: r => do return (true, ← readWord ['r', 'u', 'e'] r)
  | 'f' :: r => do return (false, ← readWord ['a', 'l', 's', 'e'] r)
  | r => refuseType "a boolean" r

/-- Reads a value of a shape, or `null`. -/
def optional {α : Type} (reader : Reader α) : Reader (Option α) := fun depth cs =>
  match skipBlanks cs with
  | 'n' :: r => do return (none, ← readWord ['u', 'l', 'l'] r)
  | r => do let (v, r) ← reader depth r; return (some v, r)

/-- The value that a table gives to a name. -/
def named {α : Type} (table : List (String × α)) (name : String) : Except Failure α :=
  match table.lookup name with
  | some v => .ok v
  | none => .error (.mismatch (.unknownVariant name (table.map (·.1))))

/-- Reads the one name of an object after its opening brace. -/
def readOnlyName (cs : List Char) : Except Failure (String × List Char) :=
  match skipBlanks cs with
  | [] => refuse .endInValue
  | '"' :: r => readString r
  | '\x7d' :: _ => refuse .expectedValue
  | _ => refuse .keyNotString

/-- Reads one of a few names: a string, or an object with that one key and the value `null`. -/
def names {α : Type} (table : List (String × α)) : Reader α := fun depth cs =>
  match skipBlanks cs with
  | [] => refuse .endInValue
  | '"' :: r => do
    let (name, r) ← readString r
    return (← named table name, r)
  | '\x7b' :: r =>
    match depth with
    | 0 | 1 => refuse .tooDeep
    | inner + 1 => do
      let (name, r) ← readOnlyName r
      let v ← named table name
      let r ← readColon r
      let (_, r) ← inPart (.name name) (unit inner r)
      match skipBlanks r with
      | [] => refuse .endInObject
      | '\x7d' :: r => return (v, r)
      | _ => refuse .expectedValue
  | _ => refuse .expectedValue

/-- Reads the items of an array of one shape from the one at `index` on; `fuel` exceeds the number
of characters. -/
def itemsWith {α : Type} (reader : Reader α) :
    Nat → Nat → Nat → List Char → Except Failure (List α × List Char)
  | 0, _, _, _ => refuse .endInList
  | fuel + 1, depth, index, cs => do
    match ← beforeItem (index == 0) cs with
    | (none, r) => return ([], r)
    | (some s, _) =>
      let (v, r) ← inPart (.index index) (reader depth s)
      let (vs, r) ← itemsWith reader fuel depth (index + 1) r
      return (v :: vs, r)

/-- Reads an array of one shape. -/
def list {α : Type} (reader : Reader α) : Reader (List α) := fun depth cs =>
  match skipBlanks cs with
  | '[' :: r =>
    match depth with
    | 0 | 1 => refuse .tooDeep
    | inner + 1 => itemsWith reader (r.length + 1) inner 0 r
  | r => refuseType "a sequence" r

/-- Reads the members that are left of an object whose values are of one shape; `fuel` exceeds the
number of characters. A name has to be one that `admits` takes. -/
def entriesWith {α : Type} (admits : String → Except Failure Unit) (reader : Reader α) :
    Nat → Nat → Bool → List Char → Except Failure (List (String × α) × List Char)
  | 0, _, _, _ => refuse .endInObject
  | fuel + 1, depth, first, cs => do
    match ← beforeMember first cs with
    | (none, r) => return ([], r)
    | (some s, _) =>
      let (name, r) ← readString s
      admits name
      let r ← readColon r
      let (v, r) ← inPart (.name name) (reader depth r)
      let (vs, r) ← entriesWith admits reader fuel depth false r
      return ((name, v) :: vs, r)

/-- Reads an object whose values are of one shape and whose names are taken by `admits`. -/
def entries {α : Type} (admits : String → Except Failure Unit) (reader : Reader α) :
    Reader (List (String × α)) := fun depth cs =>
  match skipBlanks cs with
  | '\x7b' :: r =>
    match depth with
    | 0 | 1 => refuse .tooDeep
    | inner + 1 => entriesWith admits reader (r.length + 1) inner true r
  | r => refuseType "a map" r

/-- Reads an object whose values are of one shape, under any names. -/
def map {α : Type} (reader : Reader α) : Reader (List (String × α)) :=
  entries (fun _ => .ok ()) reader

/-- Reads an object without members. -/
def emptyMap : Reader (List (String × Unit)) :=
  entries (fun name => .error (.mismatch (.invalidType (.string name) "unit"))) unit

end Reader

/-- A member of a record: its name, how it is read into the record's draft, and whether an array
may leave it out. -/
structure Field (δ : Type) where
  name : String
  reader : Reader (δ → δ)
  mayLack : Bool

/-- A member that is read with a reader and put into the draft. -/
def Field.of {α δ : Type} (name : String) (reader : Reader α) (put : α → δ → δ)
    (mayLack : Bool) : Field δ where
  name := name
  reader := fun depth cs => do
    let (v, r) ← reader depth cs
    return (put v, r)
  mayLack := mayLack

/-- A record: the name it goes by in messages, its members in order, the draft before any is read,
and what the draft makes when all are. -/
structure Record (δ α : Type) where
  title : String
  fields : List (Field δ)
  empty : δ
  finish : δ → Except Mismatch α

namespace Record

variable {δ α : Type}

/-- Reads the members of an object that are left; `seen` holds the names read before. -/
def membersWith (record : Record δ α) :
    Nat → Nat → Bool → List String → δ → List Char → Except Failure (α × List Char)
  | 0, _, _, _, _, _ => refuse .endInObject
  | fuel + 1, depth, first, seen, draft, cs => do
    match ← beforeMember first cs with
    | (none, r) =>
      match record.finish draft with
      | .ok v => return (v, r)
      | .error m => .error (.mismatch m)
    | (some s, _) =>
      let (name, r) ← readString s
      match record.fields.find? (·.name = name) with
      | none =>
        let r ← readColon r
        let (_, r) ← inPart (.name name) (skipValue depth r)
        record.membersWith fuel depth false seen draft r
      | some field =>
        if name ∈ seen then .error (.mismatch (.duplicateField name))
        else
          let r ← readColon r
          let (put, r) ← inPart (.name name) (field.reader depth r)
          record.membersWith fuel depth false (name :: seen) (put draft) r

/-- Reads the members from the one at `index` on, given as items of an array. -/
def itemsFrom (record : Record δ α) (depth : Nat) :
    Nat → List (Field δ) → δ → List Char → Except Failure (α × List Char)
  | _, [], draft, cs =>
    match record.finish draft with
    | .ok v =>
      match skipBlanks cs with
      | [] => refuse .endInList
      | ']' :: r => .ok (v, r)
      | ',' :: r =>
        match skipBlanks r with
        | ']' :: _ => refuse .trailingComma
        | _ => refuse .trailingCharacters
      | _ => refuse .trailingCharacters
    | .error m => .error (.mismatch m)
  | index, field :: fields, draft, cs => do
    match ← beforeItem (index == 0) cs with
    | (none, r) =>
      if field.mayLack then
        match record.finish draft with
        | .ok v => return (v, r)
        | .error m => .error (.mismatch m)
      else
        .error (.mismatch (.invalidLength index
          (record.title ++ " with " ++ toString record.fields.length ++
            (if record.fields.length = 1 then " element" else " elements"))))
    | (some s, _) =>
      let (put, r) ← inPart (.index index) (field.reader depth s)
      itemsFrom record depth (index + 1) fields (put draft) r

/-- Reads a record: an object of its members, or an array of them in order. -/
def reader (record : Record δ α) : Reader α := fun depth cs =>
  match skipBlanks cs with
  | '[' :: r =>
    match depth with
    | 0 | 1 => refuse .tooDeep
    | inner + 1 => record.itemsFrom inner 0 record.fields record.empty r
  | '\x7b' :: r =>
    match depth with
    | 0 | 1 => refuse .tooDeep
    | inner + 1 => record.membersWith (r.length + 1) inner true [] record.empty r
  | r => refuseType record.title r

end Record

/-- Reads a text that is one value of a shape, with blanks around it. -/
def parse {α : Type} (reader : Reader α) (s : List Char) : Except Failure α := do
  let (v, r) ← reader depthLimit s
  if (skipBlanks r).isEmpty then return v else refuse .trailingCharacters

/-- Reads a text that is one value. -/
def parseValue (s : String) : Except Failure Value :=
  parse readValue s.toList

end RunDispatch.Json
