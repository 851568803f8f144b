/-
# Output in frames

The engine cuts the output of a container into frames where it likes. The frames are told apart without
loss, but each is read, and cut into lines, by itself. So the lines that are shown are those of the whole
output exactly if no cut harms the line that it cuts: a frame that ends at a newline does no harm, and one
that ends between two parts of a line that are not blank shows two lines for one (`sample_torn`).

Key definitions: `shown`, `Harmless`, `Parted`, `carried`, `eventsOf`, `Reemitted`.
Key theorems: `shown_append_iff`, `Parted.flatMap_shown`, `readChunks_encode`, `flatMap_shown_cut_iff`,
`frames_reemitted`.
-/
import Mathlib.Data.List.DropRight
import RunDispatch.Engine.Call
import RunDispatch.Proofs.Text.Pieces

namespace RunDispatch.Engine

open Container

/-! ### The lines of octets -/

/-- The lines that octets are shown as: those of the text that they spell, without the blank ones. -/
def shown (bs : Bytes) : List String :=
  ((Text.lines (Text.readUtf8Chars bs)).filter fun l => !l.all Text.isBlank).map String.ofList

theorem shownLines_chunk (stream : Stream) (bs : Bytes) : (chunk stream bs).shownLines = shown bs := by
  simp [chunk, Chunk.shownLines, Text.readUtf8, shown]

theorem shown_append_newline (a b : Bytes) :
    shown (a ++ newline :: b) = shown (a ++ [newline]) ++ shown b := by
  have hread : ∀ r, Text.readUtf8Chars (a ++ newline :: r) =
      Text.readUtf8Chars a ++ '\n' :: Text.readUtf8Chars r := fun r =>
    Text.readUtf8Chars_append a r (by decide)
  have hnil : Text.readUtf8Chars [] = [] := rfl
  simp only [shown, hread, hnil]
  rw [Text.lines_append, List.filter_append, List.map_append]

/-- Whether octets end where a line ends. -/
def Ended (bs : Bytes) : Prop := bs = [] ∨ bs.getLast? = some newline

theorem shown_append {a : Bytes} (h : Ended a) (b : Bytes) : shown (a ++ b) = shown a ++ shown b := by
  rcases h with rfl | h
  · rfl
  · obtain ⟨before, rfl⟩ := List.getLast?_eq_some_iff.mp h
    rw [List.append_assoc, List.singleton_append]
    exact shown_append_newline before b

/-! ### What a cut does -/

/-- The octets up to the last newline. -/
def untilNewline (bs : Bytes) : Bytes := bs.rdropWhile (· != newline)

/-- The octets after the last newline: the beginning of a line that is not over. -/
def sinceNewline (bs : Bytes) : Bytes := bs.rtakeWhile (· != newline)

/-- The octets up to the first newline, with it: the rest of a line. -/
def toNewline (bs : Bytes) : Bytes := ((splitLine? bs).map Prod.fst).getD bs

/-- The octets after the first newline. -/
def pastNewline (bs : Bytes) : Bytes := ((splitLine? bs).map Prod.snd).getD []

theorem untilNewline_append (bs : Bytes) : untilNewline bs ++ sinceNewline bs = bs :=
  List.rdropWhile_append_rtakeWhile

theorem ended_untilNewline (bs : Bytes) : Ended (untilNewline bs) := by
  by_cases h : untilNewline bs = []
  · exact .inl h
  · have hlast := List.rdropWhile_last_not (p := (· != newline)) (l := bs) h
    have hnewline : (untilNewline bs).getLast h = newline := by
      show (bs.rdropWhile (· != newline)).getLast h = newline
      simpa using hlast
    exact .inr (by rw [List.getLast?_eq_some_getLast h, hnewline])

/-- The line that octets begin with is over, or they hold no newline. -/
theorem toNewline_cases (bs : Bytes) :
    (newline ∉ bs ∧ toNewline bs = bs ∧ pastNewline bs = []) ∨
      ∃ line, newline ∉ line ∧ toNewline bs = line ++ [newline] ∧
        bs = line ++ newline :: pastNewline bs := by
  have hsplit := List.takeWhile_append_dropWhile (p := (· != (0x0A : UInt8))) (l := bs)
  have hline : newline ∉ bs.takeWhile (· != 0x0A) := fun hm => by
    have := List.mem_takeWhile_imp hm
    simp [newline] at this
  unfold toNewline pastNewline splitLine?
  cases hd : bs.dropWhile (· != 0x0A) with
  | nil =>
    rw [hd, List.append_nil] at hsplit
    rw [hsplit] at hline
    exact .inl ⟨hline, rfl, rfl⟩
  | cons b rest =>
    have hb : b = newline := by
      have := List.head_dropWhile_not (· != (0x0A : UInt8)) (l := bs) (by simp [hd])
      simpa [hd, newline] using this
    subst hb
    rw [hd] at hsplit
    exact .inr ⟨bs.takeWhile (· != 0x0A), hline, rfl, hsplit.symm⟩

/-- What follows the line that is cut is shown as it is alone. -/
theorem shown_around (a b m : Bytes) (hm : m = toNewline b ∨ m = sinceNewline a ++ toNewline b) :
    shown (m ++ pastNewline b) = shown m ++ shown (pastNewline b) := by
  rcases toNewline_cases b with ⟨-, -, hnone⟩ | ⟨line, -, hline, -⟩
  · rw [hnone]
    simp [shown, Text.readUtf8Chars, Text.readUtf8From, Text.Utf8Place.between]
  · refine shown_append (.inr ?_) _
    rcases hm with rfl | rfl
    · rw [hline, List.getLast?_concat]
    · rw [hline, ← List.append_assoc, List.getLast?_concat]

theorem toNewline_append (bs : Bytes) : toNewline bs ++ pastNewline bs = bs := by
  rcases toNewline_cases bs with ⟨-, hall, hnone⟩ | ⟨line, -, hline, hbs⟩
  · rw [hall, hnone, List.append_nil]
  · rw [hline, List.append_assoc]
    exact hbs.symm

/-- Whether a cut leaves the line that it cuts as it is: the two parts are shown as the line is. -/
def Harmless (a b : Bytes) : Prop :=
  shown (sinceNewline a) ++ shown (toNewline b) = shown (sinceNewline a ++ toNewline b)

instance (a b : Bytes) : Decidable (Harmless a b) := inferInstanceAs (Decidable (_ = _))

/-- **A cut touches the line that it cuts only**: what is shown is the same with the cut and without
exactly if that line is. -/
theorem shown_append_iff (a b : Bytes) : shown a ++ shown b = shown (a ++ b) ↔ Harmless a b := by
  have ha : shown a = shown (untilNewline a) ++ shown (sinceNewline a) := by
    rw [← shown_append (ended_untilNewline a), untilNewline_append]
  have hb : shown b = shown (toNewline b) ++ shown (pastNewline b) := by
    rw [← shown_around [] b _ (.inl rfl), toNewline_append]
  have hab : shown (a ++ b) = shown (untilNewline a) ++
      (shown (sinceNewline a ++ toNewline b) ++ shown (pastNewline b)) := by
    rw [← shown_around a b _ (.inr rfl), ← shown_append (ended_untilNewline a), List.append_assoc,
      toNewline_append, ← List.append_assoc, untilNewline_append]
  rw [ha, hb, hab, List.append_assoc, List.append_cancel_left_eq, ← List.append_assoc,
    List.append_cancel_right_eq]
  exact Iff.rfl

theorem harmless_of_ended {a : Bytes} (h : Ended a) (b : Bytes) : Harmless a b :=
  (shown_append_iff a b).mp (shown_append h b).symm

/-! ### Parts of a line -/

/-- Octets without a newline are shown as one line at most. -/
theorem length_shown_le_one {line : Bytes} (h : newline ∉ line) (rest : Bytes)
    (hr : rest = [] ∨ rest = [newline]) : (shown (line ++ rest)).length ≤ 1 := by
  have hchars : '\n' ∉ Text.readUtf8Chars line := Text.newline_not_mem_readUtf8Chars h
  have hlines : (Text.lines (Text.readUtf8Chars (line ++ rest))).length ≤ 1 := by
    rcases hr with rfl | rfl
    · rw [List.append_nil, Text.lines_of_not_mem hchars]
      split <;> simp
    · have hread : Text.readUtf8Chars (line ++ [newline]) = Text.readUtf8Chars line ++ '\n' :: [] :=
        Text.readUtf8Chars_append line [] (by decide)
      rw [hread, Text.lines_append_newline _ _ hchars, Text.lines_nil]
      rfl
  calc (shown (line ++ rest)).length
      = ((Text.lines (Text.readUtf8Chars (line ++ rest))).filter
          fun l => !l.all Text.isBlank).length := List.length_map ..
    _ ≤ (Text.lines (Text.readUtf8Chars (line ++ rest))).length := List.length_filter_le _ _
    _ ≤ 1 := hlines

theorem newline_not_mem_sinceNewline (bs : Bytes) : newline ∉ sinceNewline bs := fun h => by
  have := List.mem_rtakeWhile_imp h
  simp at this

/-- **A line that is cut between two parts that are not blank** is shown as two. -/
theorem not_harmless {a b : Bytes} (ha : shown (sinceNewline a) ≠ []) (hb : shown (toNewline b) ≠ []) :
    ¬ Harmless a b := by
  intro h
  have hone : (shown (sinceNewline a ++ toNewline b)).length ≤ 1 := by
    have hsince := newline_not_mem_sinceNewline a
    rcases toNewline_cases b with ⟨hnot, hall, -⟩ | ⟨line, hnot, hline, -⟩
    · have hline : newline ∉ sinceNewline a ++ b := by simp [hsince, hnot]
      have hlen := length_shown_le_one hline [] (.inl rfl)
      rwa [List.append_nil, ← hall] at hlen
    · have hboth : newline ∉ sinceNewline a ++ line := by simp [hsince, hnot]
      have hlen := length_shown_le_one hboth [newline] (.inr rfl)
      rwa [List.append_assoc, ← hline] at hlen
  have hla := List.length_pos_iff.mpr ha
  have hlb := List.length_pos_iff.mpr hb
  have hlen := congrArg List.length h
  rw [List.length_append] at hlen
  omega

/-! ### Many cuts -/

/-- Whether each of the pieces ends where the cut does no harm. -/
def Parted : List Bytes → Prop
  | [] => True
  | a :: rest => Harmless a rest.flatten ∧ Parted rest

/-- **Pieces that are cut without harm are shown as the whole is.** -/
theorem Parted.flatMap_shown {pieces : List Bytes} (h : Parted pieces) :
    pieces.flatMap shown = shown pieces.flatten := by
  induction pieces with
  | nil => rfl
  | cons a rest ih =>
    obtain ⟨hcut, hrest⟩ := h
    calc (a :: rest).flatMap shown = shown a ++ rest.flatMap shown := List.flatMap_cons
      _ = shown a ++ shown rest.flatten := by rw [ih hrest]
      _ = shown (a ++ rest.flatten) := (shown_append_iff a rest.flatten).mpr hcut

/-- Pieces that end at a newline, but for the last one, are cut without harm. -/
theorem parted_of_ended {pieces : List Bytes} (h : ∀ a ∈ pieces.dropLast, Ended a) : Parted pieces := by
  induction pieces with
  | nil => exact trivial
  | cons a rest ih =>
    by_cases hr : rest = []
    · subst hr
      have hnil : shown [] = [] := rfl
      refine ⟨(shown_append_iff a []).mp ?_, trivial⟩
      rw [List.append_nil, hnil, List.append_nil]
    · rw [List.dropLast_cons_of_ne_nil hr] at h
      exact ⟨harmless_of_ended (h a List.mem_cons_self) rest.flatten,
        ih fun b hb => h b (List.mem_cons_of_mem a hb)⟩

/-! ### Frames -/

/-- The header of a frame tells the length of every payload below this. -/
def payloadLimit : Nat := Nat.pow 2 32

theorem length_writeLength (n : Nat) : (writeLength n).length = 4 := rfl

theorem readLength_writeLength {n : Nat} (h : n < payloadLimit) : readLength (writeLength n) = n := by
  have hoctet : ∀ k, (UInt8.ofNat (k % 256)).toNat = k % 256 := fun k =>
    UInt8.toNat_ofNat_of_lt' (Nat.mod_lt k (by decide))
  have hlimit : n < 4294967296 := h
  show (((0 * 256 + (UInt8.ofNat (n / 16777216 % 256)).toNat) * 256 +
    (UInt8.ofNat (n / 65536 % 256)).toNat) * 256 + (UInt8.ofNat (n / 256 % 256)).toNat) * 256 +
    (UInt8.ofNat (n % 256)).toNat = n
  rw [hoctet, hoctet, hoctet, hoctet]
  omega

/-- The chunk that a frame holds, unless it echoes input. -/
def Frame.chunk? (f : Frame) : Option Chunk :=
  f.channel.stream?.map fun stream => chunk stream f.payload

theorem Channel.ofCode?_code (c : Channel) : ofCode? c.code = some c := by
  cases c <;> decide

/-- A frame is told apart from what follows it. -/
theorem readChunksFrom_encode (cut : TerminalCut) (fuel : Nat) {f : Frame}
    (h : f.payload.length < payloadLimit) (rest : Bytes) :
    readChunksFrom cut (fuel + 1) (f.encode ++ rest) =
      (f.chunk?.toList ++ (readChunksFrom cut fuel rest).1, (readChunksFrom cut fuel rest).2) := by
  have hread : ¬ (f.payload ++ rest).length < f.payload.length := by
    rw [List.length_append]
    omega
  have hheader : ¬ (f.encode ++ rest).length < headerLength := by
    show ¬ (writeLength f.payload.length ++ f.payload ++ rest).length + 4 < 8
    rw [List.length_append, List.length_append, length_writeLength]
    omega
  have hlength : ((0 :: 0 :: 0 :: (writeLength f.payload.length ++ f.payload ++ rest)).drop 3).take 4 =
      writeLength f.payload.length := rfl
  have hpayload : (0 :: 0 :: 0 :: (writeLength f.payload.length ++ f.payload ++ rest)).drop 7 =
      f.payload ++ rest := rfl
  simp only [Frame.encode, List.cons_append] at hheader ⊢
  simp only [readChunksFrom, Channel.ofCode?_code, if_neg hheader, hlength, hpayload,
    readLength_writeLength h, if_neg hread, List.take_left, List.drop_left]
  cases hs : f.channel.stream? <;> simp [Frame.chunk?, hs]

theorem length_le_length_encode (frames : List Frame) :
    frames.length ≤ (frames.flatMap Frame.encode).length := by
  induction frames with
  | nil => exact Nat.le_refl _
  | cons f rest ih =>
    have hone : 1 ≤ f.encode.length := by simp [Frame.encode]
    rw [List.flatMap_cons, List.length_append, List.length_cons]
    omega

/-- **Frames are told apart without loss**, whatever the cut of a terminal's output. -/
theorem readChunks_encode (cut : TerminalCut) {frames : List Frame}
    (h : ∀ f ∈ frames, f.payload.length < payloadLimit) :
    readChunks cut (frames.flatMap Frame.encode) = (frames.filterMap Frame.chunk?, true) := by
  -- There is more fuel than frames.
  have hfuel : ∀ fuel, frames.length < fuel →
      readChunksFrom cut fuel (frames.flatMap Frame.encode) = (frames.filterMap Frame.chunk?, true) := by
    induction frames with
    | nil =>
      intro fuel hlt
      obtain ⟨fuel, rfl⟩ : ∃ n, fuel = n + 1 := ⟨fuel - 1, by have : 0 < fuel := hlt; omega⟩
      rfl
    | cons f rest ih =>
      intro fuel hlt
      rw [List.length_cons] at hlt
      obtain ⟨fuel, rfl⟩ : ∃ n, fuel = n + 1 := ⟨fuel - 1, by omega⟩
      have hrest := ih (fun g hg => h g (List.mem_cons_of_mem f hg)) fuel (by omega)
      rw [List.flatMap_cons, readChunksFrom_encode cut fuel (h f List.mem_cons_self), hrest,
        List.filterMap_cons]
      cases f.chunk? <;> rfl
  exact hfuel _ (Nat.lt_succ_of_le (length_le_length_encode frames))

/-! ### What is shown of frames -/

def carried (stream : Stream) (frames : List Frame) : List Bytes :=
  (frames.filter fun f => f.channel.stream? = some stream).map (·.payload)

def eventsOf (stream : Stream) (chunks : List Chunk) : List String :=
  (chunks.filter fun c => c.stream = stream).flatMap Chunk.shownLines

theorem eventsOf_append (stream : Stream) (a b : List Chunk) :
    eventsOf stream (a ++ b) = eventsOf stream a ++ eventsOf stream b := by
  simp [eventsOf]

/-- Each frame is shown by itself. -/
theorem eventsOf_filterMap (stream : Stream) (frames : List Frame) :
    eventsOf stream (frames.filterMap Frame.chunk?) = (carried stream frames).flatMap shown := by
  induction frames with
  | nil => rfl
  | cons f rest ih =>
    have hone : eventsOf stream f.chunk?.toList = (carried stream [f]).flatMap shown := by
      cases hs : f.channel.stream? with
      | none => simp [eventsOf, carried, Frame.chunk?, hs]
      | some s =>
        by_cases he : s = stream
        · subst he
          have hline : (chunk s f.payload).stream = s := rfl
          simp [eventsOf, carried, Frame.chunk?, hs, hline, shownLines_chunk]
        · have hline : (chunk s f.payload).stream = s := rfl
          simp [eventsOf, carried, Frame.chunk?, hs, hline, he]
    have hsplit : (f :: rest).filterMap Frame.chunk? =
        f.chunk?.toList ++ rest.filterMap Frame.chunk? := by
      rw [List.filterMap_cons]
      cases f.chunk? <;> rfl
    have hcarried : carried stream (f :: rest) = carried stream [f] ++ carried stream rest := by
      unfold carried
      rw [← List.map_append, ← List.filter_append, List.singleton_append]
    rw [hsplit, eventsOf_append, hone, ih, hcarried, List.flatMap_append]

/-- How the output that the engine sends in frames is shown. -/
structure Reemitted (frames : List Frame) : Prop where
  /-- The output is read the same way as it comes and from the logs, without loss. -/
  told : attachedChunks (frames.flatMap Frame.encode) = frames.filterMap Frame.chunk? ∧
    storedChunks (frames.flatMap Frame.encode) = .ok (frames.filterMap Frame.chunk?)
  /-- Each frame of a stream is shown by itself. -/
  apiece : ∀ stream, eventsOf stream (attachedChunks (frames.flatMap Frame.encode)) =
    (carried stream frames).flatMap shown
  /-- Where no cut does harm, the lines are those of all that the stream carries. -/
  whole : ∀ stream, Parted (carried stream frames) →
    eventsOf stream (attachedChunks (frames.flatMap Frame.encode)) =
      shown (carried stream frames).flatten
  /-- That is so if each frame of the stream ends at a newline, but for the last one. -/
  ended : ∀ stream, (∀ payload ∈ (carried stream frames).dropLast, Ended payload) →
    eventsOf stream (attachedChunks (frames.flatMap Frame.encode)) =
      shown (carried stream frames).flatten
  /-- One frame that is sent as two shows the same lines exactly if the cut does no harm. -/
  cut : ∀ before channel stream a b after, frames = before ++ ⟨channel, a ++ b⟩ :: after →
    channel.stream? = some stream →
    (eventsOf stream (attachedChunks
        ((before ++ ⟨channel, a⟩ :: ⟨channel, b⟩ :: after).flatMap Frame.encode)) =
      eventsOf stream (attachedChunks (frames.flatMap Frame.encode)) ↔ Harmless a b)
  /-- It does harm between two parts of a line that are not blank. -/
  torn : ∀ before channel stream a b after, frames = before ++ ⟨channel, a ++ b⟩ :: after →
    channel.stream? = some stream → shown (sinceNewline a) ≠ [] → shown (toNewline b) ≠ [] →
    eventsOf stream (attachedChunks
        ((before ++ ⟨channel, a⟩ :: ⟨channel, b⟩ :: after).flatMap Frame.encode)) ≠
      eventsOf stream (attachedChunks (frames.flatMap Frame.encode))

theorem attachedChunks_encode {frames : List Frame} (h : ∀ f ∈ frames, f.payload.length < payloadLimit) :
    attachedChunks (frames.flatMap Frame.encode) = frames.filterMap Frame.chunk? := by
  rw [attachedChunks, readChunks_encode .whole h]

theorem storedChunks_encode {frames : List Frame} (h : ∀ f ∈ frames, f.payload.length < payloadLimit) :
    storedChunks (frames.flatMap Frame.encode) = .ok (frames.filterMap Frame.chunk?) := by
  rw [storedChunks, readChunks_encode .lines h]

/-- The two parts of a frame fit their headers as the frame does. -/
theorem payload_lt_of_cut {before after : List Frame} {channel : Channel} {a b : Bytes}
    (h : ∀ f ∈ before ++ ⟨channel, a ++ b⟩ :: after, f.payload.length < payloadLimit) :
    ∀ f ∈ before ++ ⟨channel, a⟩ :: ⟨channel, b⟩ :: after, f.payload.length < payloadLimit := by
  have hab : (a ++ b).length < payloadLimit :=
    h ⟨channel, a ++ b⟩ (List.mem_append_right _ List.mem_cons_self)
  rw [List.length_append] at hab
  intro f hf
  rcases List.mem_append.mp hf with hf | hf
  · exact h f (List.mem_append_left _ hf)
  rcases List.mem_cons.mp hf with rfl | hf
  · show a.length < payloadLimit
    omega
  rcases List.mem_cons.mp hf with rfl | hf
  · show b.length < payloadLimit
    omega
  · exact h f (List.mem_append_right _ (List.mem_cons_of_mem _ hf))

theorem flatMap_shown_around (stream : Stream) (before middle after : List Frame) :
    (carried stream (before ++ (middle ++ after))).flatMap shown =
      (carried stream before).flatMap shown ++
        ((carried stream middle).flatMap shown ++ (carried stream after).flatMap shown) := by
  simp [carried]

/-- **A frame that is sent as two** shows the same lines among the others exactly if the cut does no
harm. -/
theorem flatMap_shown_cut_iff (before after : List Frame) {channel : Channel} {stream : Stream}
    (hs : channel.stream? = some stream) (a b : Bytes) :
    (carried stream (before ++ ⟨channel, a⟩ :: ⟨channel, b⟩ :: after)).flatMap shown =
      (carried stream (before ++ ⟨channel, a ++ b⟩ :: after)).flatMap shown ↔ Harmless a b := by
  have hone : (carried stream [⟨channel, a ++ b⟩]).flatMap shown = shown (a ++ b) := by
    simp [carried, hs]
  have htwo : (carried stream [⟨channel, a⟩, ⟨channel, b⟩]).flatMap shown = shown a ++ shown b := by
    simp [carried, hs]
  have hleft := flatMap_shown_around stream before [⟨channel, a⟩, ⟨channel, b⟩] after
  have hright := flatMap_shown_around stream before [⟨channel, a ++ b⟩] after
  rw [htwo] at hleft
  rw [hone] at hright
  show (carried stream (before ++ ([⟨channel, a⟩, ⟨channel, b⟩] ++ after))).flatMap shown =
    (carried stream (before ++ ([⟨channel, a ++ b⟩] ++ after))).flatMap shown ↔ Harmless a b
  rw [hleft, hright, List.append_cancel_left_eq, List.append_cancel_right_eq]
  exact shown_append_iff a b

/-- **Output that is sent in frames is shown frame by frame**: as the lines of the whole if no cut does
harm, and differently from an uncut line where one does. -/
theorem frames_reemitted (frames : List Frame) (h : ∀ f ∈ frames, f.payload.length < payloadLimit) :
    Reemitted frames := by
  have hchunks := attachedChunks_encode h
  have happiece : ∀ stream, eventsOf stream (attachedChunks (frames.flatMap Frame.encode)) =
      (carried stream frames).flatMap shown := fun stream => by
    rw [hchunks, eventsOf_filterMap]
  have hwhole : ∀ stream, Parted (carried stream frames) →
      eventsOf stream (attachedChunks (frames.flatMap Frame.encode)) =
        shown (carried stream frames).flatten := fun stream hp => by
    rw [happiece, hp.flatMap_shown]
  have hcut : ∀ before channel stream a b after, frames = before ++ ⟨channel, a ++ b⟩ :: after →
      channel.stream? = some stream →
      (eventsOf stream (attachedChunks
          ((before ++ ⟨channel, a⟩ :: ⟨channel, b⟩ :: after).flatMap Frame.encode)) =
        eventsOf stream (attachedChunks (frames.flatMap Frame.encode)) ↔ Harmless a b) := by
    intro before channel stream a b after hf hs
    subst hf
    rw [happiece, attachedChunks_encode (payload_lt_of_cut h), eventsOf_filterMap]
    exact flatMap_shown_cut_iff before after hs a b
  exact
    { told := ⟨hchunks, storedChunks_encode h⟩
      apiece := happiece
      whole := hwhole
      ended := fun stream he => hwhole stream (parted_of_ended he)
      cut := hcut
      torn := fun before channel stream a b after hf hs ha hb he =>
        not_harmless ha hb ((hcut before channel stream a b after hf hs).mp he) }

def sampleFrames : List Frame :=
  [⟨.stdout, [0x61]⟩, ⟨.stderr, [0x78, 0x0A]⟩, ⟨.stdout, [0x62, 0x0A, 0x63]⟩]

theorem sample_frames_reemitted : (∀ f ∈ sampleFrames, f.payload.length < payloadLimit) ∧
    Reemitted sampleFrames :=
  have h : ∀ f ∈ sampleFrames, f.payload.length < payloadLimit := by decide
  ⟨h, frames_reemitted sampleFrames h⟩

/-- **Two framings of the same octets show different lines**: a line that is cut shows as two, and a
character that is cut as replacements. -/
theorem sample_torn :
    (eventsOf .stdout (attachedChunks (([⟨.stdout, [0x61, 0x62, 0x0A]⟩] : List Frame).flatMap Frame.encode))
        = ["ab"] ∧
      eventsOf .stdout (attachedChunks
        (([⟨.stdout, [0x61]⟩, ⟨.stdout, [0x62, 0x0A]⟩] : List Frame).flatMap Frame.encode)) = ["a", "b"]) ∧
    (shown [0xC3, 0xA9] = ["é"] ∧ shown [0xC3] ++ shown [0xA9] = ["\uFFFD", "\uFFFD"]) := by
  decide

end RunDispatch.Engine
