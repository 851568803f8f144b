/-
# Letters of either case

Where letters of either case are alike, texts are compared in lower case. Only the letters of ASCII
have a lower case here; every other character stays as it is.

Key definitions: `lowered`.
Key theorems: `length_lowered`.
-/
namespace RunDispatch.Text

/-- The characters with ASCII letters in lower case. -/
def lowered (cs : List Char) : List Char := cs.map Char.toLower

@[simp] theorem length_lowered (cs : List Char) : (lowered cs).length = cs.length := by
  simp [lowered]

end RunDispatch.Text
