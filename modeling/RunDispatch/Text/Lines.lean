/-
# Lines of a text

A text is cut at each newline; one carriage return right before that newline goes with it. What
follows the last newline is a line too, unless it is empty, and keeps its carriage return.

Key definitions: `lines`.
Key theorems: `lines_append_newline`, `lines_nil`.
-/
namespace RunDispatch.Text

/-- The line without a carriage return at its end. -/
def dropReturn (line : List Char) : List Char :=
  if line.getLast? = some '\r' then line.dropLast else line

/-- The lines of `cs`, where `start` is the beginning of the first one, read backwards. -/
def linesFrom (start : List Char) : List Char → List (List Char)
  | [] => if start.isEmpty then [] else [start.reverse]
  | c :: r =>
    if c = '\n' then dropReturn start.reverse :: linesFrom [] r
    else linesFrom (c :: start) r

/-- The lines of a text. -/
def lines (cs : List Char) : List (List Char) :=
  linesFrom [] cs

@[simp] theorem lines_nil : lines [] = [] := rfl

theorem linesFrom_append (start line r : List Char) (h : '\n' ∉ line) :
    linesFrom start (line ++ '\n' :: r) = dropReturn (start.reverse ++ line) :: lines r := by
  induction line generalizing start with
  | nil => simp [linesFrom, lines]
  | cons c s ih =>
    have hc : c ≠ '\n' := fun e => h (by simp [e])
    have hs : '\n' ∉ s := fun m => h (by simp [m])
    simp [linesFrom, hc, ih (c :: start) hs]

theorem lines_append_newline (line r : List Char) (h : '\n' ∉ line) :
    lines (line ++ '\n' :: r) = dropReturn line :: lines r := by
  simpa [lines] using linesFrom_append [] line r h

end RunDispatch.Text
