/-
# Agendas

An agenda holds what is to happen, in the order in which it will: by time in milliseconds, at one
time by urgency, and at one urgency as it was put in.

Key definitions: `Urgency`, `Item`, `Agenda`, `Agenda.insert`, `Agenda.next?`.
-/
namespace RunDispatch.Simulation

/-- What goes first at one time: giving a task up, then answers and wake-ups, then time limits, then
file operations. -/
inductive Urgency where
  | abort
  | answer
  | limit
  | file
  deriving DecidableEq, Repr

/-- The rank of an urgency; the lower goes first. -/
def Urgency.rank : Urgency → Nat
  | abort => 0
  | answer => 1
  | limit => 2
  | file => 3

/-- Something that is to happen at a time. -/
structure Item (α : Type) where
  time : Nat
  urgency : Urgency
  what : α

/-- What is to happen, the next thing first. -/
abbrev Agenda (α : Type) := List (Item α)

namespace Agenda

variable {α : Type}

/-- Whether one item has to go before another that was put in earlier. -/
def before (a b : Item α) : Bool :=
  a.time < b.time || (a.time == b.time && a.urgency.rank < b.urgency.rank)

/-- Puts an item behind all that go before it or came before it. -/
def insert (item : Item α) : Agenda α → Agenda α
  | [] => [item]
  | x :: r => if before item x then item :: x :: r else x :: insert item r

/-- The next item that happens before a time, and the agenda without it. -/
def next? (limit : Nat) : Agenda α → Option (Item α × Agenda α)
  | [] => none
  | x :: r => if x.time < limit then some (x, r) else none

end Agenda

end RunDispatch.Simulation
