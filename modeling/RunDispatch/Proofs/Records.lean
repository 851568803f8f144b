/-
# The record stream can be decoded

The stream of a write run is one line for each record, and one end-of-transmission octet. No text of a value
holds a control character, so the octets of newline and of the end of transmission occur only where they frame
the records. Cut at them, the lines of records whose numbers are all whole are read back as these records.

Key definitions: `Json.Value.Readable`, `linesOf`, `decodeRecords`, `Framed`.
Key theorems: `framed`, `decodeRecords_terminated`, `stream_decodes`.
-/
import RunDispatch.Proofs.Json.RoundTrip
import RunDispatch.Proofs.Text.Utf8
import RunDispatch.Records

namespace RunDispatch

open Json (Value)

/-! ### Records that a text yields -/

namespace Json

/-- The reader takes the value from some text, at some depth. -/
def Value.Readable (v : Value) : Prop :=
  ∃ fuel depth cs r, depth ≤ depthLimit ∧ readValueWith fuel depth cs = .ok (v, r)

theorem readable_of_parse {text : List Char} {v : Value} (h : parse readValue text = .ok v) : v.Readable := by
  obtain ⟨⟨w, r⟩, hw, h⟩ := Staging.ok_of_bind h
  simp only at h
  split at h
  · cases h
    exact ⟨_, depthLimit, text, r, Nat.le_refl _, hw⟩
  · cases h

theorem mem_itemsWith {α : Type} {reader : Reader α} {fuel depth index : Nat} {cs r : List Char}
    {vs : List α} (h : Reader.itemsWith reader fuel depth index cs = .ok (vs, r)) :
    ∀ v ∈ vs, ∃ s t, reader depth s = .ok (v, t) := by
  induction fuel generalizing index cs vs r with
  | zero => cases h
  | succ fuel ih =>
    rw [Reader.itemsWith] at h
    obtain ⟨⟨s, t⟩, -, h⟩ := Staging.ok_of_bind h
    cases s with
    | none =>
      cases h
      exact nofun
    | some s =>
      obtain ⟨⟨v, u⟩, hv, h⟩ := Staging.ok_of_bind h
      obtain ⟨⟨ws, w⟩, hws, h⟩ := Staging.ok_of_bind h
      cases h
      intro x hx
      rcases List.mem_cons.mp hx with rfl | hx
      · exact ⟨s, u, inPart_ok hv⟩
      · exact ih hws x hx

theorem readable_of_list {depth : Nat} (hdepth : depth ≤ depthLimit) {cs r : List Char} {vs : List Value}
    (h : Reader.list readValue depth cs = .ok (vs, r)) : ∀ v ∈ vs, v.Readable := by
  unfold Reader.list at h
  split at h
  · split at h
    · cases h
    · cases h
    · rename_i inner _
      intro v hv
      obtain ⟨s, t, hs⟩ := mem_itemsWith h v hv
      exact ⟨_, inner, s, t, by omega, hs⟩
  · exact absurd h refuseType_ne_ok

theorem Value.Readable.proper {v : Value} (h : v.Readable) : v.Proper depthLimit := by
  obtain ⟨fuel, depth, cs, r, hdepth, hread⟩ := h
  obtain ⟨x, -, hx⟩ := readValueWith_sound hread
  exact hx.proper.mono hdepth

theorem Value.Exact.readable {v : Value} (h : v.Exact depthLimit) : v.Readable := by
  have hread := readValue_write h numberEnds_nil
  exact ⟨_, depthLimit, _, _, Nat.le_refl _, hread⟩

end Json

/-! ### Framing -/

theorem le_of_mem_write {v : Value} {b : UInt8} (h : b ∈ Text.utf8Chars v.write) : 0x20 ≤ b.toNat := by
  obtain ⟨c, hc, hb⟩ := List.mem_flatMap.mp h
  rcases Nat.lt_or_ge b.toNat 0x80 with hlt | hge
  · rw [← Text.eq_of_mem_utf8EncodeChar hb hlt]
    exact Json.write_printable v c hc
  · omega

theorem newline_notMem_write (v : Value) : newline ∉ Text.utf8Chars v.write :=
  fun h => absurd (le_of_mem_write h) (by decide)

theorem endOfTransmission_notMem_write (v : Value) : endOfTransmission ∉ Text.utf8Chars v.write :=
  fun h => absurd (le_of_mem_write h) (by decide)

/-- The stream of records is framed: a line for each of them, in which the newline is the last octet, and one
end of transmission after all. -/
structure Framed (records : List Value) : Prop where
  lines : encodeRecords records = (records.map fun v => Text.utf8Chars v.write ++ [newline]).flatten
  one_each : ∀ v ∈ records, newline ∉ Text.utf8Chars v.write
  newlines : (encodeRecords records).count newline = records.length
  ended : terminated (encodeRecords records) = encodeRecords records ++ [endOfTransmission]
  once : endOfTransmission ∉ encodeRecords records

theorem encodeRecords_cons (v : Value) (vs : List Value) :
    encodeRecords (v :: vs) = Text.utf8Chars v.write ++ newline :: encodeRecords vs := by
  simp [encodeRecords]

theorem count_newline (records : List Value) : (encodeRecords records).count newline = records.length := by
  induction records with
  | nil => rfl
  | cons v vs ih =>
    rw [encodeRecords_cons, List.count_append, List.count_eq_zero_of_not_mem (newline_notMem_write v),
      List.count_cons_self, ih, List.length_cons, Nat.zero_add]

theorem endOfTransmission_notMem (records : List Value) : endOfTransmission ∉ encodeRecords records := by
  intro h
  obtain ⟨v, -, hv⟩ := List.mem_flatMap.mp h
  rcases List.mem_append.mp hv with hv | hv
  · exact endOfTransmission_notMem_write v hv
  · exact absurd (List.mem_singleton.mp hv) (by decide)

theorem getLast?_encodeRecords {records : List Value} (h : records ≠ []) :
    (encodeRecords records).getLast? = some newline := by
  rcases List.eq_nil_or_concat records with rfl | ⟨vs, v, rfl⟩
  · exact absurd rfl h
  · simp [encodeRecords]

theorem terminated_eq (payload : Bytes) :
    terminated payload =
      payload ++ (if payload ≠ [] ∧ payload.getLast? ≠ some newline then [newline] else []) ++
        [endOfTransmission] := by
  unfold terminated
  by_cases hnil : payload = []
  · subst hnil
    rfl
  · by_cases hlast : payload.getLast? = some newline <;> simp [hnil, hlast]

theorem terminated_encodeRecords (records : List Value) :
    terminated (encodeRecords records) = encodeRecords records ++ [endOfTransmission] := by
  by_cases hnil : records = []
  · subst hnil
    rfl
  · rw [terminated, if_pos (.inr (getLast?_encodeRecords hnil))]

/-- **The stream of records is framed**, whatever the records hold. -/
theorem framed (records : List Value) : Framed records where
  lines := by rw [encodeRecords, List.flatMap_def]
  one_each := fun v _ => newline_notMem_write v
  newlines := count_newline records
  ended := terminated_encodeRecords records
  once := endOfTransmission_notMem records

/-! ### Decoding -/

/-- The lines of octets, where `start` is the beginning of the first one, read backwards. -/
def linesOf (start : Bytes) : Bytes → List Bytes
  | [] => if start.isEmpty then [] else [start.reverse]
  | b :: r => if b = newline then start.reverse :: linesOf [] r else linesOf (b :: start) r

/-- The records that a stream holds before its end of transmission, one on each line. -/
def decodeRecords (stream : Bytes) : Except Json.Failure (List Value) :=
  (linesOf [] (stream.takeWhile (· != endOfTransmission))).mapM fun line =>
    Json.parse Json.readValue (Text.readUtf8Chars line)

theorem linesOf_append (start line r : Bytes) (h : newline ∉ line) :
    linesOf start (line ++ newline :: r) = (start.reverse ++ line) :: linesOf [] r := by
  induction line generalizing start with
  | nil => rw [List.nil_append, linesOf, if_pos rfl, List.append_nil]
  | cons b line ih =>
    have hb : b ≠ newline := fun e => h (e ▸ List.mem_cons_self)
    have hline : newline ∉ line := fun hm => h (List.mem_cons_of_mem _ hm)
    rw [List.cons_append, linesOf, if_neg hb, ih (b :: start) hline, List.reverse_cons, List.append_assoc,
      List.singleton_append]

/-- The lines of a stream are the texts of its records. -/
theorem linesOf_encodeRecords (records : List Value) :
    linesOf [] (encodeRecords records) = records.map fun v => Text.utf8Chars v.write := by
  induction records with
  | nil => rfl
  | cons v vs ih =>
    rw [encodeRecords_cons, linesOf_append [] _ _ (newline_notMem_write v), ih]
    rfl

theorem takeWhile_terminated (records : List Value) :
    (terminated (encodeRecords records)).takeWhile (· != endOfTransmission) = encodeRecords records := by
  have hbefore : ∀ b ∈ encodeRecords records, (b != endOfTransmission) = true := by
    intro b hb
    have hne : b ≠ endOfTransmission := fun e => endOfTransmission_notMem records (e ▸ hb)
    simpa using hne
  rw [terminated_encodeRecords, List.takeWhile_append_of_pos hbefore]
  simp

theorem mapM_parse {records : List Value} (h : ∀ v ∈ records, v.Exact Json.depthLimit) :
    (records.map fun v => Text.utf8Chars v.write).mapM
      (fun line => Json.parse Json.readValue (Text.readUtf8Chars line)) = .ok records := by
  induction records with
  | nil => rfl
  | cons v vs ih =>
    have hv := Json.parse_write (h v List.mem_cons_self)
    rw [List.map_cons, List.mapM_cons, Text.readUtf8Chars_utf8Chars, hv,
      ih fun w hw => h w (List.mem_cons_of_mem _ hw)]
    rfl

/-- **The stream of records whose numbers are whole is decoded into these records.** -/
theorem decodeRecords_terminated {records : List Value} (h : ∀ v ∈ records, v.Readable ∧ v.Whole) :
    decodeRecords (terminated (encodeRecords records)) = .ok records := by
  rw [decodeRecords, takeWhile_terminated, linesOf_encodeRecords]
  exact mapM_parse fun v hv => ⟨(h v hv).2, (h v hv).1.proper⟩

/-- **The record stream can be decoded.** The stream of any records is framed; if they are records that a
text yields, and all their numbers are whole numbers of 64 bits, they are what is decoded from it, one on each
line; and any payload is ended by a newline, unless it is empty or has one, and one end of transmission. -/
theorem stream_decodes (records : List Value) :
    Framed records ∧
      ((∀ v ∈ records, v.Readable ∧ v.Whole) →
        decodeRecords (terminated (encodeRecords records)) = .ok records) ∧
      ∀ payload : Bytes, terminated payload =
        payload ++ (if payload ≠ [] ∧ payload.getLast? ≠ some newline then [newline] else []) ++
          [endOfTransmission] :=
  ⟨framed records, decodeRecords_terminated, terminated_eq⟩

/-- Two records: one with the least and the greatest whole number, and with controls in a name and in a string
that is nested; and `null`. -/
def sampleRecords : List Value :=
  [.object [("a\n", .array [.number (.whole (-9223372036854775808)), .string "x\ny\u0004"]),
      ("b", .number (.whole 18446744073709551615))],
    .null]

theorem sampleRecords_exact : ∀ v ∈ sampleRecords, v.Exact Json.depthLimit := by
  intro v hv
  rcases List.mem_cons.mp hv with rfl | hv
  · refine ⟨⟨⟨⟨_, rfl, by decide, by decide⟩, trivial, trivial⟩, ⟨_, rfl, by decide, by decide⟩, trivial⟩,
      by decide, ?_, ⟨by decide, ⟨by decide, by decide⟩, trivial, trivial⟩, ⟨by decide, by decide⟩, trivial⟩
    exact List.pairwise_pair.mpr (by decide)
  · rw [List.mem_singleton.mp hv]
    exact ⟨trivial, trivial⟩

/-- The records are read back from their stream. -/
theorem sample_stream_decodes :
    (∀ v ∈ sampleRecords, v.Readable ∧ v.Whole) ∧
      decodeRecords (terminated (encodeRecords sampleRecords)) = .ok sampleRecords := by
  have hsample : ∀ v ∈ sampleRecords, v.Readable ∧ v.Whole :=
    fun v hv => ⟨(sampleRecords_exact v hv).readable, (sampleRecords_exact v hv).whole⟩
  exact ⟨hsample, (stream_decodes sampleRecords).2.1 hsample⟩

end RunDispatch
