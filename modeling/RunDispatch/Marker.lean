/-
# Dispatch markers

A marker under a container's name says that a run has been dispatched under it and has not ended.
Markers expire: one is live while it is younger than the cache's time to live. Expired markers
count as absent, though they may still lie in the cache until something removes them. Times are in
milliseconds.

Key definitions: `Markers`, `Markers.isLive`, `Markers.read`, `Markers.purge`, `Markers.get`,
`Markers.set`, `Markers.delete`, `Markers.claim`, `Markers.evict`.
Key theorems: `Markers.read_set`, `Markers.read_delete`, `Markers.read_claim`.
-/
import RunDispatch.Table

namespace RunDispatch

/-- The cache of dispatch markers: how long a marker lives, and when each was set. -/
structure Markers where
  ttl : Nat
  entries : Table Nat
  deriving DecidableEq, Repr

namespace Markers

/-- A marker lives for an hour unless the cache is told otherwise. -/
def defaultTtl : Nat := 3600000

/-- A cache without markers. -/
def empty (ttl : Nat) : Markers := ⟨ttl, []⟩

/-- Whether a marker set at `setAt` is live at `now`. -/
def isLive (m : Markers) (now setAt : Nat) : Bool := now - setAt < m.ttl

/-- What the cache holds under a name: nothing, or whether the marker is live. -/
def read (m : Markers) (now : Nat) (name : String) : Option Bool :=
  (m.entries.find? name).map (m.isLive now)

/-- The cache without the marker of a name, if that has expired. -/
def purge (m : Markers) (now : Nat) (name : String) : Markers :=
  if m.read now name = some false then { m with entries := m.entries.erase name } else m

/-- Whether a name has a live marker; an expired one is removed. -/
def get (m : Markers) (now : Nat) (name : String) : Bool × Markers :=
  match m.read now name with
  | none => (false, m)
  | some true => (true, m)
  | some false => (false, m.purge now name)

/-- The cache with a new marker under a name. -/
def set (m : Markers) (now : Nat) (name : String) : Markers :=
  { m with entries := m.entries.put name now }

/-- Removes the marker of a name, live or not; tells whether there was one. -/
def delete (m : Markers) (name : String) : Bool × Markers :=
  ((m.entries.find? name).isSome, { m with entries := m.entries.erase name })

/-- Sets a marker unless a live one is there; tells whether it was set. A refused claim leaves the
marker as old as it is. -/
def claim (m : Markers) (now : Nat) (name : String) : Bool × Markers :=
  if m.read now name = some true then (false, m) else (true, m.set now name)

/-- Removes the expired markers and counts them. -/
def evict (m : Markers) (now : Nat) : Nat × Markers :=
  let kept := m.entries.keep (m.isLive now)
  (m.entries.length - kept.length, { m with entries := kept })

/-- How many markers the cache holds, expired ones included. -/
def size (m : Markers) : Nat := m.entries.length

theorem read_set (m : Markers) (t now : Nat) (name n : String) :
    (m.set now name).read t n = if n = name then some (m.isLive t now) else m.read t n := by
  simp only [read, set, Table.find?_put]
  split <;> rfl

theorem read_delete (m : Markers) (t : Nat) (name n : String) :
    (m.delete name).2.read t n = if n = name then none else m.read t n := by
  simp only [read, delete, Table.find?_erase]
  split <;> rfl

theorem claim_eq_false_iff (m : Markers) (now : Nat) (name : String) :
    (m.claim now name).1 = false ↔ m.read now name = some true := by
  unfold claim
  split <;> simp_all

/-- A claim that is refused changes no marker, and any other sets one. -/
theorem read_claim (m : Markers) (t now : Nat) (name n : String) :
    (m.claim now name).2.read t n =
      if m.read now name = some true then m.read t n else (m.set now name).read t n := by
  unfold claim
  split <;> rfl

/-- A fraction of a thousand, without zeros at its end. -/
def fractionDigits (n : Nat) : List Char :=
  let digits := [n / 100 % 10, n / 10 % 10, n % 10].map Nat.digitChar
  (digits.reverse.dropWhile (· == '0')).reverse

/-- A duration in words: in seconds from one second on, in milliseconds below. -/
def durationText (ms : Nat) : String :=
  if ms = 0 then "0ns"
  else if ms < 1000 then toString ms ++ "ms"
  else
    let fraction := fractionDigits (ms % 1000)
    toString (ms / 1000) ++ (if fraction.isEmpty then "" else "." ++ String.ofList fraction) ++ "s"

/-- A summary of the cache in words. -/
def summary (m : Markers) : String :=
  "DispatchCache \x7b entries: " ++ toString m.size ++ ", ttl: " ++ durationText m.ttl ++ " \x7d"

end Markers

end RunDispatch
