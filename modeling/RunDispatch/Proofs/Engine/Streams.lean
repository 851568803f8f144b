/-
# Streams of values, line by line

The body of a response may be a stream of values, one in each line. Lines that tell a value are read one
after another, however many there are, and the first that tells none ends the stream with its trouble.
What is written of a value has no newline in it and is such a line.

Key definitions: `Tells`.
Key theorems: `readPieces_lines`, `readStream_lines`, `readStream_broken`, `tells_write`.
-/
import RunDispatch.Engine.Reply
import RunDispatch.Proofs.Json.Members
import RunDispatch.Proofs.Text.Utf8

namespace RunDispatch.Engine

variable {α : Type} {reader : Json.Reader α}

/-- Whether a line of a stream tells a value, and not the beginning of one. -/
structure Tells (reader : Json.Reader α) (line : List Char) (v : α) : Prop where
  nonempty : line ≠ []
  oneLine : '\n' ∉ line
  reads : readPiece reader line = .ok (some v)

def ended (lines : List (List Char)) : List Char := lines.flatMap (· ++ ['\n'])

theorem takeWhile_line {line : List Char} (h : '\n' ∉ line) (rest : List Char) :
    (line ++ rest).takeWhile (· != '\n') = line ++ rest.takeWhile (· != '\n') :=
  List.takeWhile_append_of_pos fun c hc => by simpa using ne_of_mem_of_not_mem hc h

theorem dropWhile_line {line : List Char} (h : '\n' ∉ line) (rest : List Char) :
    (line ++ rest).dropWhile (· != '\n') = rest.dropWhile (· != '\n') :=
  List.dropWhile_append_of_pos fun c hc => by simpa using ne_of_mem_of_not_mem hc h

theorem readPieces_ended {line : List Char} (hne : line ≠ []) (hl : '\n' ∉ line) (told : Except Trouble α)
    (h : readPiece reader line = told.map some) (fuel : Nat) (joined : Bool) (rest : List Char) :
    readPieces reader (fuel + 1) joined (line ++ '\n' :: rest) =
      match told with
      | .ok v => (v :: (readPieces reader fuel joined rest).1, (readPieces reader fuel joined rest).2)
      | .error t => ([], some t) := by
  obtain ⟨c, cs, rfl⟩ := List.exists_cons_of_ne_nil hne
  have htake := takeWhile_line hl ('\n' :: rest)
  have hdrop := dropWhile_line hl ('\n' :: rest)
  rw [List.takeWhile_cons_of_neg (by decide), List.append_nil] at htake
  rw [List.dropWhile_cons_of_neg (by decide)] at hdrop
  rw [List.cons_append] at htake hdrop ⊢
  rw [readPieces]
  cases told <;> simp only [htake, hdrop, h, Except.map]

/-- A last line may do without its newline. -/
theorem readPieces_last {line : List Char} {v : α} (h : Tells reader line v) (fuel : Nat) (joined : Bool) :
    readPieces reader (fuel + 1) joined line = ([v], none) := by
  obtain ⟨hne, hl, hreads⟩ := h
  obtain ⟨c, cs, rfl⟩ := List.exists_cons_of_ne_nil hne
  have htake := takeWhile_line hl []
  have hdrop := dropWhile_line hl []
  rw [List.append_nil, List.takeWhile_nil, List.append_nil] at htake
  rw [List.append_nil, List.dropWhile_nil] at hdrop
  rw [readPieces]
  simp only [htake, hdrop, hreads]

/-- **Lines that tell values** are read one after another, and what follows them is read as it would be by
itself. -/
theorem readPieces_lines {lines : List (List Char)} {vs : List α} (h : List.Forall₂ (Tells reader) lines vs)
    (fuel : Nat) (joined : Bool) (rest : List Char) :
    readPieces reader (fuel + lines.length) joined (ended lines ++ rest) =
      (vs ++ (readPieces reader fuel joined rest).1, (readPieces reader fuel joined rest).2) := by
  induction h with
  | nil => rfl
  | @cons line v lines vs hline _ ih =>
    have htext : ended (line :: lines) ++ rest = line ++ '\n' :: (ended lines ++ rest) := by
      simp [ended]
    rw [htext, List.length_cons, ← Nat.add_assoc,
      readPieces_ended hline.nonempty hline.oneLine (.ok v) hline.reads, ih]
    rfl

theorem length_le_ended (lines : List (List Char)) : lines.length ≤ (ended lines).length := by
  induction lines with
  | nil => exact Nat.le_refl 0
  | cons line lines ih =>
    simp only [ended, List.flatMap_cons, List.length_append, List.length_cons] at ih ⊢
    omega

/-- A stream that begins with lines of values. -/
theorem readStream_append {status : Nat} (hs : succeeds status = true) (hup : status ≠ 101)
    {lines : List (List Char)} {vs : List α} (h : List.Forall₂ (Tells reader) lines vs) (rest : List Char) :
    ∃ fuel, readStream reader (.answered status (Text.utf8Chars (ended lines ++ rest))) =
      (vs ++ (readPieces reader (fuel + 1) false rest).1, (readPieces reader (fuel + 1) false rest).2) := by
  have haccept : accept (.answered status (Text.utf8Chars (ended lines ++ rest))) =
      .ok (Text.utf8Chars (ended lines ++ rest)) := by simp [accept, hs, hup]
  have hlength := length_le_ended lines
  obtain ⟨fuel, hf⟩ : ∃ fuel, (ended lines ++ rest).length + 1 = fuel + 1 + lines.length :=
    ⟨(ended lines ++ rest).length - lines.length, by rw [List.length_append]; omega⟩
  refine ⟨fuel, ?_⟩
  rw [readStream, haccept]
  simp only [Text.readUtf8Chars_utf8Chars]
  rw [hf, readPieces_lines h]

/-- **A stream of lines that tell values** holds these values, however many they are. -/
theorem readStream_lines {status : Nat} (hs : succeeds status = true) (hup : status ≠ 101)
    {lines : List (List Char)} {vs : List α} (h : List.Forall₂ (Tells reader) lines vs) :
    readStream reader (.answered status (Text.utf8Chars (ended lines))) = (vs, none) := by
  obtain ⟨fuel, hread⟩ := readStream_append hs hup h []
  rw [List.append_nil] at hread
  rw [hread, readPieces, List.append_nil]

theorem readStream_unended {status : Nat} (hs : succeeds status = true) (hup : status ≠ 101)
    {lines : List (List Char)} {vs : List α} (h : List.Forall₂ (Tells reader) lines vs)
    {line : List Char} {v : α} (hl : Tells reader line v) :
    readStream reader (.answered status (Text.utf8Chars (ended lines ++ line))) = (vs ++ [v], none) := by
  obtain ⟨fuel, hread⟩ := readStream_append hs hup h line
  rw [hread, readPieces_last hl]

/-- **The first line that tells no value** ends the stream with its trouble, whatever follows. -/
theorem readStream_broken {status : Nat} (hs : succeeds status = true) (hup : status ≠ 101)
    {lines : List (List Char)} {vs : List α} (h : List.Forall₂ (Tells reader) lines vs)
    {line : List Char} {t : Trouble} (hne : line ≠ []) (hl : '\n' ∉ line)
    (ht : readPiece reader line = .error t) (rest : List Char) :
    readStream reader (.answered status (Text.utf8Chars (ended lines ++ (line ++ '\n' :: rest)))) =
      (vs, some t) := by
  obtain ⟨fuel, hread⟩ := readStream_append hs hup h (line ++ '\n' :: rest)
  rw [hread, readPieces_ended hne hl (.error t) ht, List.append_nil]

theorem tells_write {members : List (String × Json.Value)} {v : α}
    (h : reader.Regains Json.depthLimit (Json.Value.object members).write v) :
    Tells reader (Json.Value.object members).write v where
  nonempty := by
    rw [Json.Value.write]
    exact List.cons_ne_nil _ _
  oneLine hn := absurd (Json.write_printable (.object members) '\n' hn) (by decide)
  reads := by
    have hopt := Json.Reader.regains_optional h (by rw [Json.Value.write]) (by decide) (by decide)
    rw [readPiece, hopt.parse_eq]

end RunDispatch.Engine
