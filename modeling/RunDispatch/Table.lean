/-
# Tables

A table gives a value to each of finitely many names. It is a list of pairs in which a name occurs
once; the order of the pairs says nothing.

Key definitions: `Table`, `Table.find?`, `Table.put`, `Table.erase`, `Table.keep`.
Key theorems: `lookup_filter_ne`, `lookup_cons_filter_ne`, `Table.find?_put`, `Table.find?_erase`.
-/
namespace RunDispatch

/-- In a list of pairs without those of a key, that key has no value, and the others keep theirs. -/
theorem lookup_filter_ne {κ α : Type} [BEq κ] [LawfulBEq κ] [DecidableEq κ]
    (l : List (κ × α)) (k n : κ) :
    (l.filter fun e => e.1 != k).lookup n = if n = k then none else l.lookup n := by
  induction l with
  | nil => simp
  | cons e r ih =>
    obtain ⟨m, v⟩ := e
    by_cases hm : m = k
    · subst hm
      by_cases hn : n = m
      · subst hn
        simpa using ih
      · have hb : (n == m) = false := by simpa using hn
        simpa [List.lookup_cons, hn, hb] using ih
    · by_cases hn : n = m
      · subst hn
        simp [hm]
      · have hb : (n == m) = false := by simpa using hn
        simpa [List.lookup_cons, hm, hb] using ih

/-- In a list of pairs with a new one for a key, that key has the new value, and the others keep
theirs. -/
theorem lookup_cons_filter_ne {κ α : Type} [BEq κ] [LawfulBEq κ] [DecidableEq κ]
    (l : List (κ × α)) (k n : κ) (v : α) :
    ((k, v) :: l.filter fun e => e.1 != k).lookup n = if n = k then some v else l.lookup n := by
  by_cases h : n = k
  · simp [h]
  · have hb : (n == k) = false := by simpa using h
    simp [List.lookup_cons, hb, h, lookup_filter_ne]

/-- Finitely many names with a value each. -/
abbrev Table (α : Type) := List (String × α)

namespace Table

variable {α : Type}

/-- The value of a name. -/
def find? (t : Table α) (name : String) : Option α :=
  List.lookup name t

/-- The table without a name. -/
def erase (t : Table α) (name : String) : Table α :=
  t.filter fun e => e.1 != name

/-- The table with a new value for a name. -/
def put (t : Table α) (name : String) (v : α) : Table α :=
  (name, v) :: t.erase name

/-- The part of a table whose values pass a test. -/
def keep (t : Table α) (p : α → Bool) : Table α :=
  t.filter fun e => p e.2

theorem find?_erase (t : Table α) (name n : String) :
    (t.erase name).find? n = if n = name then none else t.find? n :=
  lookup_filter_ne t name n

theorem find?_put (t : Table α) (name n : String) (v : α) :
    (t.put name v).find? n = if n = name then some v else t.find? n :=
  lookup_cons_filter_ne t name n v

end Table

end RunDispatch
