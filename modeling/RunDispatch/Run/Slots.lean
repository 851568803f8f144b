/-
# Slots

A bounded number of runs may be active at once. A run that finds no free slot waits, and slots
that are given back go to those who wait, in the order in which they came. A slot given to a waiting
run is its own even before the run notices.

Key definitions: `Slots`, `Slots.ofNat?`, `Slots.acquire`, `Slots.takeUp`, `Slots.leave`,
`Slots.giveUp`, `Slots.unused`.
Key theorems: `Slots.unused_leave`, `Slots.unused_takeUp`, `Slots.unused_acquire`,
`Slots.unused_giveUp`.
-/
namespace RunDispatch.Run

/-- Free slots, the runs that wait, first come first, and those that were given a slot and have
not noticed yet. -/
structure Slots where
  free : Nat
  waiting : List Nat
  granted : List Nat
  deriving DecidableEq, Repr

namespace Slots

/-- The greatest number of slots that can be kept count of. -/
def maxFree : Nat := Nat.pow 2 61 - 1

/-- All slots free, if there are not too many of them. -/
def ofNat? (n : Nat) : Option Slots :=
  if n ≤ maxFree then some ⟨n, [], []⟩ else none

/-- Takes a slot at once, or lets the run wait for one. -/
def acquire (s : Slots) (run : Nat) : Bool × Slots :=
  if 0 < s.free then (true, { s with free := s.free - 1 })
  else (false, { s with waiting := s.waiting ++ [run] })

/-- Gives a slot back: to the first who waits, or to the free ones. -/
def leave (s : Slots) : Slots :=
  match s.waiting with
  | [] => { s with free := s.free + 1 }
  | r :: rest => { s with waiting := rest, granted := s.granted ++ [r] }

/-- A run notices that it was given a slot. -/
def takeUp (s : Slots) (run : Nat) : Bool × Slots :=
  if run ∈ s.granted then (true, { s with granted := s.granted.erase run }) else (false, s)

/-- A run stops waiting; a slot that it was given already is given back. -/
def giveUp (s : Slots) (run : Nat) : Slots :=
  match s.takeUp run with
  | (true, s) => s.leave
  | (false, s) => { s with waiting := s.waiting.erase run }

/-! ## Slots in nobody's use -/

/-- How many slots no run uses: the free ones, and those whose runs have not noticed yet. -/
def unused (s : Slots) : Nat := s.free + s.granted.length

theorem unused_leave (s : Slots) : s.leave.unused = s.unused + 1 := by
  unfold leave unused
  split <;> simp <;> omega

theorem unused_takeUp (s : Slots) (run : Nat) :
    (s.takeUp run).2.unused + (if (s.takeUp run).1 then 1 else 0) = s.unused := by
  unfold takeUp unused
  by_cases h : run ∈ s.granted
  · have := List.length_pos_of_mem h
    simp [h, List.length_erase_of_mem h]
    omega
  · simp [h]

theorem unused_acquire (s : Slots) (run : Nat) :
    (s.acquire run).2.unused + (if (s.acquire run).1 then 1 else 0) = s.unused := by
  unfold acquire unused
  split <;> simp
  omega

theorem unused_giveUp (s : Slots) (run : Nat) : (s.giveUp run).unused = s.unused := by
  have h := s.unused_takeUp run
  unfold giveUp
  split
  · next u e =>
    rw [e] at h
    simpa [unused_leave] using h
  · next u e =>
    rw [e] at h
    simpa [unused] using h

end Slots

end RunDispatch.Run
