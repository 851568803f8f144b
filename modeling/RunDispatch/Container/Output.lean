/-
# Container output

Output arrives in chunks. Each chunk is shown line by line, without its blank lines and with the
others untrimmed.

Key definitions: `Stream`, `Chunk`, `Chunk.shownLines`.
-/
import RunDispatch.Text.Blank
import RunDispatch.Text.Lines

namespace RunDispatch.Container

/-- Where output comes from. The console is the terminal of an attached container. -/
inductive Stream where
  | stdout
  | stderr
  | console
  deriving DecidableEq, Repr

namespace Stream

/-- The name of a stream. -/
def name : Stream → String
  | stdout => "stdout"
  | stderr => "stderr"
  | console => "console"

/-- The stream of a name. -/
def ofName? (s : String) : Option Stream :=
  [stdout, stderr, console].find? (·.name = s)

end Stream

/-- A chunk of output. -/
structure Chunk where
  stream : Stream
  text : String
  deriving DecidableEq, Repr

/-- The lines of a chunk that are shown. -/
def Chunk.shownLines (c : Chunk) : List String :=
  ((Text.lines c.text.toList).filter fun l => !l.all Text.isBlank).map String.ofList

end RunDispatch.Container
