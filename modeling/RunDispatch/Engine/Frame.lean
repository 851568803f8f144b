/-
# Frames of container output

The engine sends the output of a container without a terminal in frames: a header of eight octets,
which names the stream and the length, and then the payload. Octets that begin no header are the
output of a terminal; they end at a newline in stored logs, and with all there is when they are
attached.

Key definitions: `Frame`, `Frame.encode`, `readChunks`.
-/
import RunDispatch.Container.Output
import RunDispatch.Text.Utf8

namespace RunDispatch.Engine

/-- What a frame carries: input that is echoed, or output. -/
inductive Channel where
  | stdin
  | stdout
  | stderr
  deriving DecidableEq, Repr

namespace Channel

/-- The octet of a channel. -/
def code : Channel → UInt8
  | stdin => 0
  | stdout => 1
  | stderr => 2

/-- The channel of an octet. -/
def ofCode? (b : UInt8) : Option Channel :=
  [stdin, stdout, stderr].find? (·.code = b)

/-- The stream of output; echoed input is none. -/
def stream? : Channel → Option Container.Stream
  | stdin => none
  | stdout => some .stdout
  | stderr => some .stderr

end Channel

/-- A piece of what goes through a channel. -/
structure Frame where
  channel : Channel
  payload : Bytes
  deriving DecidableEq, Repr

/-- The number that four octets denote, the first of which counts most. -/
def readLength (bs : Bytes) : Nat :=
  bs.foldl (fun n b => n * 256 + b.toNat) 0

/-- A number below 2^32 as four octets. -/
def writeLength (n : Nat) : Bytes :=
  [n / 16777216 % 256, n / 65536 % 256, n / 256 % 256, n % 256].map UInt8.ofNat

/-- A frame as it is sent. -/
def Frame.encode (f : Frame) : Bytes :=
  f.channel.code :: 0 :: 0 :: 0 :: (writeLength f.payload.length ++ f.payload)

/-- A chunk of output with the text that octets spell. -/
def chunk (stream : Container.Stream) (bs : Bytes) : Container.Chunk :=
  ⟨stream, Text.readUtf8 bs⟩

/-- How terminal output is cut. -/
inductive TerminalCut where
  /-- At each newline. -/
  | lines
  /-- Not at all. -/
  | whole
  deriving DecidableEq, Repr

/-- The octets up to the first newline, with it, and those after it. -/
def splitLine? (bs : Bytes) : Option (Bytes × Bytes) :=
  match bs.dropWhile (· != 0x0A) with
  | [] => none
  | b :: r => some (bs.takeWhile (· != 0x0A) ++ [b], r)

def headerLength : Nat := 8

/-- The chunks in octets, and whether the octets end where they may: not in a header, in a payload
that has begun, or in a line. `fuel` exceeds their number. -/
def readChunksFrom (cut : TerminalCut) : Nat → Bytes → List Container.Chunk × Bool
  | 0, _ => ([], false)
  | _ + 1, [] => ([], true)
  | fuel + 1, b :: r =>
    match Channel.ofCode? b with
    | none =>
      match cut with
      | .whole => ([chunk .console (b :: r)], true)
      | .lines =>
        match splitLine? (b :: r) with
        | none => ([], false)
        | some (line, rest) =>
          let (cs, ends) := readChunksFrom cut fuel rest
          (chunk .console line :: cs, ends)
    | some channel =>
      if (b :: r).length < headerLength then ([], false)
      else
        let length := readLength ((r.drop 3).take 4)
        let rest := r.drop 7
        if rest.length < length then ([], rest.isEmpty)
        else
          let (cs, ends) := readChunksFrom cut fuel (rest.drop length)
          match channel.stream? with
          | some stream => (chunk stream (rest.take length) :: cs, ends)
          | none => (cs, ends)

/-- The chunks in octets, and whether the octets end where they may. -/
def readChunks (cut : TerminalCut) (bs : Bytes) : List Container.Chunk × Bool :=
  readChunksFrom cut (bs.length + 1) bs

end RunDispatch.Engine
