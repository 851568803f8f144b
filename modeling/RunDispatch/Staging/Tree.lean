/-
# A tree of files

A tree gives to each place, a list of names from the top, a directory or a file with its content.
Paths are followed name by name: every name but the last has to be a directory, `..` leads back to
the parent, and a name has at most 255 octets. The operations report what goes wrong as an
operating system does. A `Disk` is a tree together with faults that coming operations meet.

Key definitions: `OsError`, `Tree`, `Tree.find?`, `Tree.locate`, `Tree.makeDirectory`,
`Tree.makeDirectories`, `Tree.openFile`, `Tree.remove`, `Tree.listing`, `Disk`.
Key theorems: `Tree.find?_put`, `Tree.find?_erase`.
-/
import RunDispatch.Staging.Path
import RunDispatch.Table
import RunDispatch.Text.Utf8

namespace RunDispatch.Staging

/-- What goes wrong with a file operation. -/
inductive OsError where
  | notFound
  | permissionDenied
  | alreadyExists
  | notDirectory
  | isDirectory
  | noSpace
  | nameTooLong
  | nulInName
  deriving DecidableEq, Repr

namespace OsError

/-- The wording of an error. -/
def message : OsError → String
  | notFound => "No such file or directory (os error 2)"
  | permissionDenied => "Permission denied (os error 13)"
  | alreadyExists => "File exists (os error 17)"
  | notDirectory => "Not a directory (os error 20)"
  | isDirectory => "Is a directory (os error 21)"
  | noSpace => "No space left on device (os error 28)"
  | nameTooLong => "File name too long (os error 36)"
  | nulInName => "file name contained an unexpected NUL byte"

/-- The error of a number. -/
def ofNumber? (n : Nat) : Option OsError :=
  [(2, notFound), (13, permissionDenied), (17, alreadyExists), (20, notDirectory),
    (21, isDirectory), (28, noSpace), (36, nameTooLong)].lookup n

end OsError

/-- A place in a tree: the names that lead to it from the top. -/
abbrev Place := List String

/-- What is at a place. -/
inductive Entry where
  | directory
  | file (content : Bytes)
  deriving DecidableEq, Repr

/-- A tree of files. The top is always a directory and is not listed. -/
structure Tree where
  entries : List (Place × Entry)
  deriving DecidableEq, Repr

namespace Tree

/-- A tree with nothing below its top. -/
def empty : Tree := ⟨[]⟩

/-- What is at a place. -/
def find? (t : Tree) (p : Place) : Option Entry :=
  if p = [] then some .directory else t.entries.lookup p

/-- The tree with an entry at a place, instead of what was there. -/
def put (t : Tree) (p : Place) (e : Entry) : Tree :=
  ⟨(p, e) :: t.entries.filter fun x => x.1 != p⟩

/-- The tree without the entry at a place. -/
def erase (t : Tree) (p : Place) : Tree :=
  ⟨t.entries.filter fun x => x.1 != p⟩

/-- The tree without a place and all below it. -/
def prune (t : Tree) (p : Place) : Tree :=
  ⟨t.entries.filter fun x => !p.isPrefixOf x.1⟩

theorem find?_erase (t : Tree) (p q : Place) :
    (t.erase p).find? q = if q = p ∧ q ≠ [] then none else t.find? q := by
  by_cases h : q = []
  · simp [find?, h]
  · simp [find?, erase, h, lookup_filter_ne]

theorem find?_put (t : Tree) (p q : Place) (e : Entry) :
    (t.put p e).find? q = if q = p ∧ q ≠ [] then some e else t.find? q := by
  by_cases h : q = []
  · simp [find?, h]
  · simp [find?, put, h, lookup_cons_filter_ne]

/-- The greatest length of a name in octets. -/
def maxNameLength : Nat := 255

/-- The place to which names lead from a directory, each of them a directory. -/
def walk (t : Tree) (start : Place) : List String → Except OsError Place
  | [] => .ok start
  | c :: r =>
    if c = ".." then t.walk start.dropLast r
    else if maxNameLength < (Text.utf8 c).length then .error .nameTooLong
    else match t.find? (start ++ [c]) with
      | none => .error .notFound
      | some (.file _) => .error .notDirectory
      | some .directory => t.walk (start ++ [c]) r

/-- The place that a path names, whether something is there or not; all on the way to it has to be
directories. -/
def locate (t : Tree) (names : List String) : Except OsError Place := do
  match names.getLast? with
  | none => return []
  | some last =>
    let dir ← t.walk [] names.dropLast
    if last = ".." then return dir.dropLast
    else if maxNameLength < (Text.utf8 last).length then .error .nameTooLong
    else return dir ++ [last]

/-- The names on a path, if none holds NUL. -/
def namesOf (path : String) : Except OsError (List String) :=
  if path.toList.contains (Char.ofNat 0) then .error .nulInName else .ok (components path)

/-- What is at the end of a path. -/
def stat (t : Tree) (names : List String) : Except OsError Entry := do
  match t.find? (← t.locate names) with
  | some e => return e
  | none => .error .notFound

/-- Whether a path leads to a directory. -/
def isDirectory (t : Tree) (names : List String) : Bool :=
  match t.stat names with
  | .ok .directory => true
  | _ => false

/-- Makes one directory. -/
def makeDirectory (t : Tree) (names : List String) : Except OsError Tree := do
  let p ← t.locate names
  if (t.find? p).isSome then .error .alreadyExists else return t.put p .directory

/-- Makes a directory after those above it, `above` of which may have to be made too. What was
made stays when something goes wrong. -/
def makeDirectoriesFrom (t : Tree) (names : List String) : Nat → Tree × Option OsError
  | 0 => (t, none)
  | above + 1 =>
    match t.makeDirectory names with
    | .ok u => (u, none)
    | .error .notFound =>
      match t.makeDirectoriesFrom names.dropLast above with
      | (u, some e) => (u, some e)
      | (u, none) =>
        match u.makeDirectory names with
        | .ok v => (v, none)
        | .error e => (u, if u.isDirectory names then none else some e)
    | .error e => (t, if t.isDirectory names then none else some e)

/-- Makes a directory and those above it, where they are missing. -/
def makeDirectories (t : Tree) (names : List String) : Tree × Option OsError :=
  t.makeDirectoriesFrom names names.length

/-- Opens a file for writing: it is made, or emptied, and its place returned. -/
def openFile (t : Tree) (names : List String) : Except OsError (Place × Tree) := do
  let p ← t.locate names
  match t.find? p with
  | some .directory => .error .isDirectory
  | _ => return (p, t.put p (.file []))

/-- Removes a file. -/
def remove (t : Tree) (names : List String) : Except OsError Tree := do
  let p ← t.locate names
  match t.find? p with
  | none => .error .notFound
  | some .directory => .error .isDirectory
  | some (.file _) => return t.erase p

/-- Whether one place comes before another in a listing: name by name. -/
def placeLe (a b : Place) : Bool :=
  match a, b with
  | [], _ => true
  | _ :: _, [] => false
  | x :: r, y :: s => x < y || (x == y && placeLe r s)

/-- What lies below a place, each directory before its content, names in order; places are given
from there. -/
def listing (t : Tree) (top : Place) : List (Place × Entry) :=
  let below := t.entries.filter fun x => top.isPrefixOf x.1 && x.1 != top
  (below.map fun x => (x.1.drop top.length, x.2)).mergeSort fun a b => placeLe a.1 b.1

end Tree

/-- A fault that an operation meets although the tree would allow it: the error, and for a write
how much of the content gets into the file before, if it is opened at all. -/
structure Fault where
  error : OsError
  written : Option Nat
  deriving DecidableEq, Repr

/-- A tree, and the faults of the coming operations in turn. -/
structure Disk where
  tree : Tree
  faults : List (Option Fault)
  deriving DecidableEq, Repr

namespace Disk

/-- A tree that is free of faults. -/
def sound (t : Tree) : Disk := ⟨t, []⟩

/-- The fault of the next operation, and the disk after it. -/
def turn (d : Disk) : Option Fault × Disk :=
  match d.faults with
  | [] => (none, d)
  | f :: r => (f, { d with faults := r })

/-- Whether something is at the end of a path; what cannot be told counts as no. -/
def holds (d : Disk) (path : String) : Bool × Disk :=
  match d.turn with
  | (some _, d) => (false, d)
  | (none, d) =>
    match Tree.namesOf path >>= d.tree.stat with
    | .ok _ => (true, d)
    | .error _ => (false, d)

/-- Makes the directories above the last name of a path, where they are missing. -/
def makeParents (d : Disk) (path : String) : Disk × Option OsError :=
  match d.turn with
  | (some f, d) => (d, some f.error)
  | (none, d) =>
    -- The last name is not looked at, so a NUL counts in those before it only.
    let names := (components path).dropLast
    if names.any fun c => c.toList.contains (Char.ofNat 0) then (d, some .nulInName)
    else
      let (t, e) := d.tree.makeDirectories names
      ({ d with tree := t }, e)

/-- Writes a file, replacing its content. A fault may leave it empty or partly written. -/
def write (d : Disk) (path : String) (content : Bytes) : Disk × Option OsError :=
  match d.turn with
  | (some ⟨error, none⟩, d) => (d, some error)
  | (fault, d) =>
    match Tree.namesOf path >>= d.tree.openFile with
    | .error e => (d, some e)
    | .ok (p, t) =>
      match fault with
      | some ⟨error, some n⟩ =>
        ({ d with tree := t.put p (.file (content.take n)) }, some error)
      | _ => ({ d with tree := t.put p (.file content) }, none)

/-- Removes a file. -/
def remove (d : Disk) (path : String) : Disk × Option OsError :=
  match d.turn with
  | (some f, d) => (d, some f.error)
  | (none, d) =>
    match Tree.namesOf path >>= d.tree.remove with
    | .error e => (d, some e)
    | .ok t => ({ d with tree := t }, none)

end Disk

end RunDispatch.Staging
