/-
# UTF-8 both ways

What is written as UTF-8 is read back. An octet below 0x80 stands for the character of its number and is
part of no other, so a text can be cut at such octets as well as at the characters.

Key theorems: `eq_of_mem_utf8EncodeChar`, `length_utf8Chars`, `readUtf8Chars_utf8Chars`.
-/
import RunDispatch.Text.Utf8

namespace RunDispatch.Text

theorem char_range (c : Char) : c.toNat < 0xD800 ∨ 0xDFFF < c.toNat ∧ c.toNat < 0x110000 :=
  c.valid

theorem utf8EncodeChar_eq (c : Char) : String.utf8EncodeChar c =
    if c.toNat ≤ 0x7F then [UInt8.ofNat c.toNat]
    else if c.toNat ≤ 0x7FF then
      [UInt8.ofNat (c.toNat / 64 % 32 + 192), UInt8.ofNat (c.toNat % 64 + 128)]
    else if c.toNat ≤ 0xFFFF then
      [UInt8.ofNat (c.toNat / 4096 % 16 + 224), UInt8.ofNat (c.toNat / 64 % 64 + 128),
        UInt8.ofNat (c.toNat % 64 + 128)]
    else
      [UInt8.ofNat (c.toNat / 262144 % 8 + 240), UInt8.ofNat (c.toNat / 4096 % 64 + 128),
        UInt8.ofNat (c.toNat / 64 % 64 + 128), UInt8.ofNat (c.toNat % 64 + 128)] :=
  rfl

theorem utf8EncodeChar_of_lt {c : Char} (h : c.toNat < 0x80) :
    String.utf8EncodeChar c = [UInt8.ofNat c.toNat] := by
  rw [utf8EncodeChar_eq, if_pos (by omega)]

/-- **An octet below 0x80 is a character of its own.** -/
theorem eq_of_mem_utf8EncodeChar {c : Char} {b : UInt8} (h : b ∈ String.utf8EncodeChar c)
    (hb : b.toNat < 0x80) : c.toNat = b.toNat := by
  have hc := char_range c
  rw [utf8EncodeChar_eq] at h
  split at h
  · rw [List.mem_singleton.mp h, UInt8.toNat_ofNat']
    omega
  · split at h
    · simp only [List.mem_cons, List.not_mem_nil, or_false] at h
      rcases h with rfl | rfl <;> rw [UInt8.toNat_ofNat'] at hb <;> omega
    · split at h
      · simp only [List.mem_cons, List.not_mem_nil, or_false] at h
        rcases h with rfl | rfl | rfl <;> rw [UInt8.toNat_ofNat'] at hb <;> omega
      · simp only [List.mem_cons, List.not_mem_nil, or_false] at h
        rcases h with rfl | rfl | rfl | rfl <;> rw [UInt8.toNat_ofNat'] at hb <;> omega

/-! ### Texts -/

theorem length_utf8Chars {cs : List Char} (h : ∀ c ∈ cs, c.toNat < 0x80) :
    (utf8Chars cs).length = cs.length := by
  induction cs with
  | nil => rfl
  | cons c cs ih =>
    have hc := utf8EncodeChar_of_lt (h c List.mem_cons_self)
    have ih := ih fun d hd => h d (List.mem_cons_of_mem c hd)
    have hcons : utf8Chars (c :: cs) = String.utf8EncodeChar c ++ utf8Chars cs := List.flatMap_cons
    rw [hcons, hc, List.length_append, ih, List.length_singleton, List.length_cons]
    omega

/-! ### Reading back -/

theorem readUtf8From_lead {b : UInt8} {p : Utf8Place} (hb : 0x80 ≤ b.toNat)
    (h : Utf8Place.lead b.toNat = some p) (r : Bytes) :
    readUtf8From .between (b :: r) = readUtf8From p r := by
  have hs : Utf8Place.between.step b.toNat = (p, []) := by
    simp only [Utf8Place.step, Utf8Place.between, Utf8Place.start, if_true,
      if_neg (Nat.not_lt.mpr hb), h]
  rw [readUtf8From, hs]
  rfl

theorem readUtf8From_more {p : Utf8Place} {b : UInt8} (hp : 1 < p.owed) (hl : p.low ≤ b.toNat)
    (hh : b.toNat ≤ p.high) (r : Bytes) :
    readUtf8From p (b :: r) =
      readUtf8From ⟨p.owed - 1, 0x80, 0xBF, p.bits * 64 + b.toNat % 64⟩ r := by
  have hs : p.step b.toNat = (⟨p.owed - 1, 0x80, 0xBF, p.bits * 64 + b.toNat % 64⟩, []) := by
    rw [Utf8Place.step, if_neg (by omega), if_pos ⟨hl, hh⟩]
    exact if_neg (by omega)
  rw [readUtf8From, hs]
  rfl

theorem readUtf8From_last {p : Utf8Place} {b : UInt8} (hp : p.owed = 1) (hl : p.low ≤ b.toNat)
    (hh : b.toNat ≤ p.high) (r : Bytes) :
    readUtf8From p (b :: r) = Char.ofNat (p.bits * 64 + b.toNat % 64) :: readUtf8From .between r := by
  have hs : p.step b.toNat = (.between, [Char.ofNat (p.bits * 64 + b.toNat % 64)]) := by
    rw [Utf8Place.step, if_neg (by omega), if_pos ⟨hl, hh⟩]
    exact if_pos hp
  rw [readUtf8From, hs]
  rfl

theorem lead_two {n : Nat} (h : 0x800 ≤ n) (h' : n ≤ 0xFFFF) (hs : n < 0xD800 ∨ 0xDFFF < n) :
    ∃ p, Utf8Place.lead (n / 4096 % 16 + 224) = some p ∧ p.owed = 2 ∧ p.bits = n / 4096 ∧
      p.low ≤ n / 64 % 64 + 128 ∧ n / 64 % 64 + 128 ≤ p.high := by
  unfold Utf8Place.lead
  rw [if_neg (by omega)]
  by_cases h0 : n / 4096 % 16 + 224 = 0xE0
  · exact ⟨⟨2, 0xA0, 0xBF, 0⟩, by rw [if_pos h0], rfl, by dsimp only; omega, by dsimp only; omega,
      by dsimp only; omega⟩
  · rw [if_neg h0]
    by_cases hd : n / 4096 % 16 + 224 = 0xED
    · exact ⟨⟨2, 0x80, 0x9F, 0xD⟩, by rw [if_pos hd], rfl, by dsimp only; omega,
        by dsimp only; omega, by dsimp only; omega⟩
    · rw [if_neg hd, if_pos (by omega)]
      exact ⟨_, rfl, rfl, by dsimp only; omega, by dsimp only; omega, by dsimp only; omega⟩

/-- The octet that announces three others. -/
theorem lead_three {n : Nat} (h : 0xFFFF < n) (h' : n < 0x110000) :
    ∃ p, Utf8Place.lead (n / 262144 % 8 + 240) = some p ∧ p.owed = 3 ∧ p.bits = n / 262144 ∧
      p.low ≤ n / 4096 % 64 + 128 ∧ n / 4096 % 64 + 128 ≤ p.high := by
  unfold Utf8Place.lead
  rw [if_neg (by omega), if_neg (by omega), if_neg (by omega), if_neg (by omega)]
  by_cases h0 : n / 262144 % 8 + 240 = 0xF0
  · exact ⟨⟨3, 0x90, 0xBF, 0⟩, by rw [if_pos h0], rfl, by dsimp only; omega, by dsimp only; omega,
      by dsimp only; omega⟩
  · rw [if_neg h0]
    by_cases h4 : n / 262144 % 8 + 240 = 0xF4
    · refine ⟨⟨3, 0x80, 0x8F, 4⟩, ?_, rfl, by dsimp only; omega, by dsimp only; omega,
        by dsimp only; omega⟩
      rw [if_neg (by omega), if_pos h4]
    · rw [if_pos (by omega)]
      exact ⟨_, rfl, rfl, by dsimp only; omega, by dsimp only; omega, by dsimp only; omega⟩

theorem toNat_ofNat_of_lt {n : Nat} (h : n < 256) : (UInt8.ofNat n).toNat = n := by
  rw [UInt8.toNat_ofNat']
  omega

/-- A character is read off its octets. -/
theorem readUtf8From_utf8EncodeChar (c : Char) (r : Bytes) :
    readUtf8From .between (String.utf8EncodeChar c ++ r) = c :: readUtf8From .between r := by
  have hc := char_range c
  have hof : Char.ofNat c.toNat = c := Char.ofNat_toNat c
  generalize hn : c.toNat = n at hc hof
  rw [utf8EncodeChar_eq, hn, ← hof]
  have hlast : (UInt8.ofNat (n % 64 + 128)).toNat = n % 64 + 128 := toNat_ofNat_of_lt (by omega)
  have hnext : (UInt8.ofNat (n / 64 % 64 + 128)).toNat = n / 64 % 64 + 128 :=
    toNat_ofNat_of_lt (by omega)
  split
  · have hb : (UInt8.ofNat n).toNat = n := toNat_ofNat_of_lt (by omega)
    simp only [List.cons_append, List.nil_append, readUtf8From, Utf8Place.step, Utf8Place.between,
      Utf8Place.start, hb, if_pos (show n < 128 by omega), if_true]
  · split
    · have hb : (UInt8.ofNat (n / 64 % 32 + 192)).toNat = n / 64 % 32 + 192 :=
        toNat_ofNat_of_lt (by omega)
      have hlead : Utf8Place.lead (UInt8.ofNat (n / 64 % 32 + 192)).toNat =
          some ⟨1, 0x80, 0xBF, n / 64 % 32 + 192 - 0xC0⟩ := by
        rw [hb, Utf8Place.lead, if_pos (by omega)]
      simp only [List.cons_append, List.nil_append]
      rw [readUtf8From_lead (by omega) hlead, readUtf8From_last rfl (by rw [hlast]; dsimp only; omega)
        (by rw [hlast]; dsimp only; omega), hlast]
      congr 2
      dsimp only
      omega
    · split
      · obtain ⟨p, hp, howed, hbits, hlow, hhigh⟩ := lead_two (n := n) (by omega) (by omega) (by omega)
        have hb : (UInt8.ofNat (n / 4096 % 16 + 224)).toNat = n / 4096 % 16 + 224 :=
          toNat_ofNat_of_lt (by omega)
        simp only [List.cons_append, List.nil_append]
        rw [readUtf8From_lead (by omega) (hb.symm ▸ hp),
          readUtf8From_more (by omega) (by rw [hnext]; exact hlow) (by rw [hnext]; exact hhigh),
          readUtf8From_last (by dsimp only; omega) (by rw [hlast]; dsimp only; omega)
            (by rw [hlast]; dsimp only; omega), hlast, hnext]
        congr 2
        dsimp only
        omega
      · obtain ⟨p, hp, howed, hbits, hlow, hhigh⟩ := lead_three (n := n) (by omega) (by omega)
        have hb : (UInt8.ofNat (n / 262144 % 8 + 240)).toNat = n / 262144 % 8 + 240 :=
          toNat_ofNat_of_lt (by omega)
        have hsecond : (UInt8.ofNat (n / 4096 % 64 + 128)).toNat = n / 4096 % 64 + 128 :=
          toNat_ofNat_of_lt (by omega)
        simp only [List.cons_append, List.nil_append]
        rw [readUtf8From_lead (by omega) (hb.symm ▸ hp),
          readUtf8From_more (by omega) (by rw [hsecond]; exact hlow) (by rw [hsecond]; exact hhigh),
          readUtf8From_more (by dsimp only; omega) (by rw [hnext]; dsimp only; omega)
            (by rw [hnext]; dsimp only; omega),
          readUtf8From_last (by dsimp only; omega) (by rw [hlast]; dsimp only; omega)
            (by rw [hlast]; dsimp only; omega), hlast, hnext, hsecond]
        congr 2
        dsimp only
        omega

/-- **What is written as UTF-8 is read back.** -/
theorem readUtf8Chars_utf8Chars (cs : List Char) : readUtf8Chars (utf8Chars cs) = cs := by
  induction cs with
  | nil => rfl
  | cons c cs ih =>
    have hcons : utf8Chars (c :: cs) = String.utf8EncodeChar c ++ utf8Chars cs := List.flatMap_cons
    rw [readUtf8Chars, hcons, readUtf8From_utf8EncodeChar]
    exact congrArg (c :: ·) ih

end RunDispatch.Text
