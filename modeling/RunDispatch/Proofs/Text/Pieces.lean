/-
# Texts in pieces

Where an octet below 0x80 stands, reading starts anew: the octets before it spell what they spell alone,
a character that they leave unfinished included, and so do those after it. Lines are cut the same way: what
follows a newline is cut as if it stood alone. So octets can be read, and cut into lines, piece by piece, as
long as every piece ends at a newline. No other octet than that of the newline spells one, so octets without
it are one line at most.

Key definitions: `Utf8Place.High`, `Utf8Place.Large`.
Key theorems: `readUtf8Chars_append`, `newline_not_mem_readUtf8Chars`, `lines_append`, `lines_of_not_mem`.
-/
import RunDispatch.Text.Lines
import RunDispatch.Text.Utf8

namespace RunDispatch.Text

/-! ### Octets -/

/-- Whether the octet that is due has to be one of those that start no character. -/
def Utf8Place.High (p : Utf8Place) : Prop := 0x80 ≤ p.low

theorem Utf8Place.high_between : between.High := Nat.le_refl _

theorem Utf8Place.high_start (b : Nat) : (start b).1.High := by
  unfold start
  by_cases hb : b < 0x80
  · rw [if_pos hb]
    exact high_between
  · rw [if_neg hb]
    cases hl : lead b with
    | none => exact high_between
    | some p =>
      show 0x80 ≤ p.low
      unfold lead at hl
      repeat' split at hl
      all_goals cases hl
      all_goals simp

/-- Wherever reading stands, what is due starts no character. -/
theorem Utf8Place.High.step {p : Utf8Place} (b : Nat) : (p.step b).1.High := by
  unfold Utf8Place.step
  by_cases h0 : p.owed = 0
  · rw [if_pos h0]
    exact high_start b
  · rw [if_neg h0]
    by_cases hb : p.low ≤ b ∧ b ≤ p.high
    · rw [if_pos hb]
      dsimp only
      by_cases h1 : p.owed = 1
      · rw [if_pos h1]
        exact high_between
      · rw [if_neg h1]
        exact Nat.le_refl _
    · rw [if_neg hb]
      exact high_start b

/-- An octet below 0x80 breaks off a character that is unfinished, and is the next one. -/
theorem readUtf8From_ascii {p : Utf8Place} (hp : p.High) {b : UInt8} (hb : b.toNat < 0x80) (r : Bytes) :
    readUtf8From p (b :: r) = readUtf8From p [] ++ Char.ofNat b.toNat :: readUtf8Chars r := by
  have hstart : Utf8Place.start b.toNat = (.between, [Char.ofNat b.toNat]) := if_pos hb
  have hlow : ¬ (p.low ≤ b.toNat ∧ b.toNat ≤ p.high) := fun h => by
    have hhigh : 0x80 ≤ p.low := hp
    omega
  by_cases h0 : p.owed = 0
  · have hs : p.step b.toNat = (.between, [Char.ofNat b.toNat]) := by
      rw [Utf8Place.step, if_pos h0, hstart]
    simp only [readUtf8From, hs, if_pos h0]
    rfl
  · have hs : p.step b.toNat = (.between, [replacement, Char.ofNat b.toNat]) := by
      rw [Utf8Place.step, if_neg h0, if_neg hlow, hstart]
    simp only [readUtf8From, hs, if_neg h0]
    rfl

/-- **Reading starts anew at an octet below 0x80.** -/
theorem readUtf8From_append (a r : Bytes) {b : UInt8} (hb : b.toNat < 0x80) {p : Utf8Place} (hp : p.High) :
    readUtf8From p (a ++ b :: r) = readUtf8From p a ++ Char.ofNat b.toNat :: readUtf8Chars r := by
  induction a generalizing p with
  | nil => exact readUtf8From_ascii hp hb r
  | cons c rest ih =>
    rw [List.cons_append, readUtf8From, readUtf8From]
    dsimp only
    rw [ih (.step c.toNat), List.append_assoc]

theorem readUtf8Chars_append (a r : Bytes) {b : UInt8} (hb : b.toNat < 0x80) :
    readUtf8Chars (a ++ b :: r) = readUtf8Chars a ++ Char.ofNat b.toNat :: readUtf8Chars r :=
  readUtf8From_append a r hb Utf8Place.high_between

/-! ### Octets that spell no newline -/

/-- Whether the character that is due has a number of 0x80 or more, whatever completes it. -/
structure Utf8Place.Large (p : Utf8Place) : Prop where
  high : p.high ≤ 0xBF
  low : 0x80 ≤ p.low
  one : p.owed = 1 → 2 ≤ p.bits
  more : 1 < p.owed → 2 ≤ p.bits * 64 + p.low % 64

theorem Utf8Place.large_between : between.Large := ⟨by decide, by decide, nofun, nofun⟩

theorem Utf8Place.large_lead {b : Nat} {p : Utf8Place} (h : lead b = some p) : p.Large := by
  unfold lead at h
  repeat' split at h
  all_goals cases h
  all_goals exact ⟨by simp, by simp, by simp; try omega, by simp; try omega⟩

theorem eq_of_ofNat_newline {n : Nat} (h : Char.ofNat n = '\n') : n = 0x0A := by
  by_cases hv : n.isValidChar
  · have hn : (Char.ofNat n).toNat = n := by
      rw [Char.ofNat, dif_pos hv]
      rfl
    rw [h] at hn
    exact hn.symm
  · rw [Char.ofNat, dif_neg hv] at h
    exact absurd h (by decide)

theorem Utf8Place.large_start (b : Nat) :
    (start b).1.Large ∧ ('\n' ∈ (start b).2 → b = 0x0A) := by
  unfold start
  by_cases hb : b < 0x80
  · rw [if_pos hb]
    exact ⟨large_between, fun hc => eq_of_ofNat_newline (List.mem_singleton.mp hc).symm⟩
  · rw [if_neg hb]
    cases hl : lead b with
    | some p => exact ⟨large_lead hl, nofun⟩
    | none =>
      refine ⟨large_between, fun hc => absurd (List.mem_singleton.mp hc) ?_⟩
      decide

/-- Wherever reading stands, no octet but that of the newline spells one. -/
theorem Utf8Place.Large.step {p : Utf8Place} (hp : p.Large) (b : Nat) :
    (p.step b).1.Large ∧ ('\n' ∈ (p.step b).2 → b = 0x0A) := by
  obtain ⟨hhigh, hlow, hone, hmore⟩ := hp
  unfold Utf8Place.step
  by_cases h0 : p.owed = 0
  · rw [if_pos h0]
    exact large_start b
  · rw [if_neg h0]
    by_cases hb : p.low ≤ b ∧ b ≤ p.high
    · rw [if_pos hb]
      dsimp only
      by_cases h1 : p.owed = 1
      · rw [if_pos h1]
        refine ⟨large_between, fun hc => ?_⟩
        have hn := eq_of_ofNat_newline (List.mem_singleton.mp hc).symm
        have hbits := hone h1
        omega
      · rw [if_neg h1]
        have hbits : 2 ≤ p.bits * 64 + b % 64 := by
          have := hmore (by omega)
          omega
        refine ⟨⟨Nat.le_refl _, Nat.le_refl _, fun _ => hbits, fun _ => ?_⟩, nofun⟩
        show 2 ≤ (p.bits * 64 + b % 64) * 64 + 0x80 % 64
        omega
    · rw [if_neg hb]
      refine ⟨(large_start b).1, fun hc => ?_⟩
      rcases List.mem_cons.mp hc with hc | hc
      · exact absurd hc (by decide)
      · exact (large_start b).2 hc

theorem newline_not_mem_readUtf8From {bs : Bytes} (h : 0x0A ∉ bs) {p : Utf8Place} (hp : p.Large) :
    '\n' ∉ readUtf8From p bs := by
  induction bs generalizing p with
  | nil =>
    rw [readUtf8From]
    split
    · exact List.not_mem_nil
    · decide
  | cons b rest ih =>
    obtain ⟨hq, hb⟩ := hp.step b.toNat
    have hne : b.toNat ≠ 0x0A := fun he => h (List.mem_cons.mpr (.inl (UInt8.toNat_inj.mp he.symm)))
    rw [readUtf8From]
    intro hc
    rcases List.mem_append.mp hc with hc | hc
    · exact hne (hb hc)
    · exact ih (fun hm => h (List.mem_cons_of_mem b hm)) hq hc

/-- **Octets without that of a newline spell none.** -/
theorem newline_not_mem_readUtf8Chars {bs : Bytes} (h : 0x0A ∉ bs) : '\n' ∉ readUtf8Chars bs :=
  newline_not_mem_readUtf8From h Utf8Place.large_between

/-! ### Lines -/

theorem linesFrom_append_lines (start a r : List Char) :
    linesFrom start (a ++ '\n' :: r) = linesFrom start (a ++ ['\n']) ++ lines r := by
  induction a generalizing start with
  | nil => rfl
  | cons c rest ih =>
    rw [List.cons_append, List.cons_append, linesFrom, linesFrom]
    by_cases hc : c = '\n'
    · rw [if_pos hc, if_pos hc, ih, List.cons_append]
    · rw [if_neg hc, if_neg hc, ih]

/-- **Lines are cut anew after a newline.** -/
theorem lines_append (a r : List Char) : lines (a ++ '\n' :: r) = lines (a ++ ['\n']) ++ lines r :=
  linesFrom_append_lines [] a r

theorem linesFrom_of_not_mem (start : List Char) {line : List Char} (h : '\n' ∉ line) :
    linesFrom start line = if start.isEmpty && line.isEmpty then [] else [start.reverse ++ line] := by
  induction line generalizing start with
  | nil => simp [linesFrom]
  | cons c rest ih =>
    have hc : c ≠ '\n' := fun e => h (List.mem_cons.mpr (.inl e.symm))
    rw [linesFrom, if_neg hc, ih (c :: start) fun hm => h (List.mem_cons_of_mem c hm)]
    simp

theorem lines_of_not_mem {line : List Char} (h : '\n' ∉ line) :
    lines line = if line.isEmpty then [] else [line] :=
  linesFrom_of_not_mem [] h

end RunDispatch.Text
