/-
# Numerals in settings

Numbers in settings are written in decimal: perhaps blanks, perhaps a plus sign, digits, and perhaps blanks
again. The digits are read from the left against a limit. A text is read exactly if it is such a numeral of a
number below the limit; otherwise it is told whether the digits at its beginning reach the limit, whatever
follows them, or whether the text is no numeral at all.

Key definitions: `Digits`, `Says`, `Numeral`, `Overflows`.
Key theorems: `readDigits_eq_ok_iff`, `readDigits_tooLarge_iff`, `readNumber?_eq_ok_iff`,
`readNumber?_tooLarge_iff`, `Numeral.unique`.
-/
import RunDispatch.Proofs.Image
import RunDispatch.Proofs.Settings

namespace RunDispatch

/-! ### Blanks around a text -/

namespace Text

theorem trimLeft_append_of_free (cs : List Char) {core : List Char} (h : ∀ c ∈ core, isBlank c = false) :
    trimLeft (cs ++ core) = trimLeft cs ++ core := by
  induction cs with
  | nil => exact trimLeft_of_free h
  | cons c cs ih =>
    cases hc : isBlank c with
    | true => simpa [trimLeft, hc] using ih
    | false => simp [trimLeft, hc]

theorem trimChars_append_of_free {core : List Char} (h : ∀ c ∈ core, isBlank c = false) (hne : core ≠ [])
    (cs : List Char) : trimChars (core ++ cs) = core ++ (trimLeft cs.reverse).reverse := by
  obtain ⟨c, rest, rfl⟩ := List.exists_cons_of_ne_nil hne
  have hleft : trimLeft (c :: rest ++ cs) = c :: rest ++ cs := by
    simp [trimLeft, h c List.mem_cons_self]
  have hback : ∀ d ∈ (c :: rest).reverse, isBlank d = false := fun d hd => h d (List.mem_reverse.mp hd)
  rw [trimChars, hleft, List.reverse_append, trimLeft_append_of_free _ hback, List.reverse_append,
    List.reverse_reverse]

theorem trimChars_of_lead {lead : List Char} (h : ∀ c ∈ lead, isBlank c = true) (cs : List Char) :
    trimChars (lead ++ cs) = trimChars cs := by
  have hleft : trimLeft (lead ++ cs) = trimLeft cs := List.dropWhile_append_of_pos h
  rw [trimChars, hleft, trimChars]

theorem exists_blanks (cs : List Char) : ∃ lead trail, cs = lead ++ (trimChars cs ++ trail) ∧
    (∀ c ∈ lead, isBlank c = true) ∧ ∀ c ∈ trail, isBlank c = true := by
  have hfront : cs = cs.takeWhile isBlank ++ trimLeft cs := List.takeWhile_append_dropWhile.symm
  have hback : (trimLeft cs).reverse =
      (trimLeft cs).reverse.takeWhile isBlank ++ trimLeft (trimLeft cs).reverse :=
    List.takeWhile_append_dropWhile.symm
  refine ⟨cs.takeWhile isBlank, ((trimLeft cs).reverse.takeWhile isBlank).reverse, ?_,
    fun c hc => List.mem_takeWhile_imp hc, fun c hc => List.mem_takeWhile_imp (List.mem_reverse.mp hc)⟩
  have hleft := congrArg List.reverse hback
  rw [List.reverse_reverse, List.reverse_append] at hleft
  rw [trimChars, ← hleft]
  exact hfront

end Text

namespace Settings

/-! ### Numbers -/

/-- Decimal digits. -/
abbrev Digits (cs : List Char) : Prop := ∀ c ∈ cs, '0' ≤ c ∧ c ≤ '9'

theorem readDigits_eq_ok_iff {limit v n : Nat} {cs : List Char} (hv : v < limit) :
    readDigits limit v cs = .ok n ↔ Digits cs ∧ Nat.ofDigitChars 10 cs v = n ∧ n < limit := by
  constructor
  · intro h
    have hdigits : Digits cs := by
      induction cs generalizing v with
      | nil => exact nofun
      | cons c rest ih =>
        rw [readDigits] at h
        split at h
        · rename_i hc
          dsimp only at h
          split at h
          · cases h
          · rename_i hl
            exact List.forall_mem_cons.mpr ⟨hc, ih (Nat.lt_of_not_le hl) h⟩
        · cases h
    rw [readDigits_eq hdigits hv] at h
    split at h
    · rename_i hlt
      cases h
      exact ⟨hdigits, rfl, hlt⟩
    · cases h
  · rintro ⟨hdigits, rfl, hlt⟩
    rw [readDigits_eq hdigits hv, if_pos hlt]

/-- **Digits are too much as soon as those read so far are**, whatever follows. -/
theorem readDigits_tooLarge_iff {limit v : Nat} {cs : List Char} (hv : v < limit) :
    readDigits limit v cs = .error .tooLarge ↔
      ∃ digits rest, cs = digits ++ rest ∧ Digits digits ∧ limit ≤ Nat.ofDigitChars 10 digits v := by
  induction cs generalizing v with
  | nil =>
    refine ⟨fun h => (by cases h), ?_⟩
    rintro ⟨digits, rest, hcs, -, hl⟩
    obtain ⟨rfl, -⟩ := List.append_eq_nil_iff.mp hcs.symm
    exact absurd hv (Nat.not_lt.mpr hl)
  | cons c rest ih =>
    have hnext : v * 10 + (c.toNat - '0'.toNat) = 10 * v + (c.toNat - '0'.toNat) := by omega
    rw [readDigits]
    dsimp only
    rw [hnext]
    constructor
    · intro h
      split at h
      · rename_i hc
        split at h
        · rename_i hl
          refine ⟨[c], rest, rfl, List.forall_mem_singleton.mpr hc, ?_⟩
          rwa [Nat.ofDigitChars_cons, Nat.ofDigitChars_nil]
        · rename_i hl
          obtain ⟨digits, after, rfl, hdigits, hlimit⟩ := (ih (Nat.lt_of_not_le hl)).mp h
          refine ⟨c :: digits, after, rfl, List.forall_mem_cons.mpr ⟨hc, hdigits⟩, ?_⟩
          rwa [Nat.ofDigitChars_cons]
      · cases h
    · rintro ⟨digits, after, hcs, hdigits, hlimit⟩
      cases digits with
      | nil => exact absurd hv (Nat.not_lt.mpr hlimit)
      | cons d digits =>
        obtain ⟨rfl, rfl⟩ := List.cons.inj hcs
        obtain ⟨hc, hdigits⟩ := List.forall_mem_cons.mp hdigits
        rw [Nat.ofDigitChars_cons] at hlimit
        rw [if_pos hc]
        by_cases hl : limit ≤ 10 * v + (c.toNat - '0'.toNat)
        · rw [if_pos hl]
        · rw [if_neg hl]
          exact (ih (Nat.lt_of_not_le hl)).mpr ⟨digits, after, rfl, hdigits, hlimit⟩

/-- What a text says between the blanks around it, after a plus sign or none. -/
def Says (text : String) (body : List Char) : Prop :=
  ∃ lead sign trail, text.toList = lead ++ (sign ++ body ++ trail) ∧ (sign = [] ∨ sign = ['+']) ∧
    (∀ c ∈ lead, Text.isBlank c = true) ∧ ∀ c ∈ trail, Text.isBlank c = true

/-- A number in decimal: the text says digits, at least one. -/
def Numeral (text : String) (n : Nat) : Prop :=
  ∃ digits, Says text digits ∧ digits ≠ [] ∧ Digits digits ∧ Nat.ofDigitChars 10 digits 0 = n

/-- The digits that a text says first reach a limit. -/
def Overflows (limit : Nat) (text : String) : Prop :=
  ∃ digits rest, Says text (digits ++ rest) ∧ Digits digits ∧ limit ≤ Nat.ofDigitChars 10 digits 0

/-- A trimmed text without a plus sign at its beginning. -/
def unsigned : List Char → List Char
  | '+' :: rest => rest
  | cs => cs

theorem unsigned_cases (cs : List Char) : cs = unsigned cs ∨ cs = '+' :: unsigned cs := by
  unfold unsigned
  split
  · exact .inr rfl
  · exact .inl rfl

theorem unsigned_of_digits {sign digits : List Char} (hs : sign = [] ∨ sign = ['+']) (hne : digits ≠ [])
    (hd : Digits digits) (rest : List Char) : unsigned (sign ++ (digits ++ rest)) = digits ++ rest := by
  rcases hs with rfl | rfl
  · obtain ⟨c, more, rfl⟩ := List.exists_cons_of_ne_nil hne
    have hplus : c ≠ '+' := by
      rintro rfl
      exact absurd (hd '+' List.mem_cons_self) (by decide)
    show unsigned (c :: (more ++ rest)) = _
    unfold unsigned
    split
    · rename_i h
      exact absurd (List.cons.inj h).1 hplus
    · rfl
  · rfl

theorem readNumber?_eq (limit : Nat) (s : String) :
    readNumber? limit s =
      if unsigned (Text.trimChars s.toList) = [] then .error .invalidDigit
      else readDigits limit 0 (unsigned (Text.trimChars s.toList)) := by
  unfold readNumber?
  generalize Text.trimChars s.toList = core
  split
  · rfl
  · rfl
  · rename_i rest hrest
    have hne : rest ≠ [] := by
      rintro rfl
      exact hrest rfl
    exact (if_neg hne).symm
  · rename_i hnil _ hsigned
    have hself : unsigned core = core := by
      unfold unsigned
      split
      · exact (hsigned _ rfl).elim
      · rfl
    rw [hself, if_neg hnil]

theorem says_unsigned (s : String) : Says s (unsigned (Text.trimChars s.toList)) := by
  obtain ⟨lead, trail, hs, hlead, htrail⟩ := Text.exists_blanks s.toList
  rcases unsigned_cases (Text.trimChars s.toList) with h | h
  · exact ⟨lead, [], trail, by rw [List.nil_append, ← h]; exact hs, .inl rfl, hlead, htrail⟩
  · exact ⟨lead, ['+'], trail, by rw [List.singleton_append, ← h]; exact hs, .inr rfl, hlead, htrail⟩

/-- What is left of a text when it is trimmed begins with the digits that it says first. -/
theorem Says.unsigned_eq {s : String} {digits rest : List Char} (h : Says s (digits ++ rest))
    (hne : digits ≠ []) (hd : Digits digits) :
    ∃ after, unsigned (Text.trimChars s.toList) = digits ++ after ∧ (rest = [] → after = []) := by
  obtain ⟨lead, sign, trail, hs, hsign, hlead, htrail⟩ := h
  have hfree : ∀ c ∈ sign ++ digits, Text.isBlank c = false := by
    intro c hc
    rcases List.mem_append.mp hc with hc | hc
    · rcases hsign with rfl | rfl
      · cases hc
      · rw [List.mem_singleton.mp hc]
        decide
    · exact isBlank_of_digit (hd c hc)
  have hcore : sign ++ digits ≠ [] := fun hnil => hne (List.append_eq_nil_iff.mp hnil).2
  have hsplit : sign ++ (digits ++ rest) ++ trail = sign ++ digits ++ (rest ++ trail) := by
    simp only [List.append_assoc]
  refine ⟨(Text.trimLeft (rest ++ trail).reverse).reverse, ?_, ?_⟩
  · rw [hs, Text.trimChars_of_lead hlead, hsplit, Text.trimChars_append_of_free hfree hcore,
      List.append_assoc, unsigned_of_digits hsign hne hd]
  · rintro rfl
    have hblank : trail.reverse.all Text.isBlank = true :=
      List.all_eq_true.mpr fun c hc => htrail c (List.mem_reverse.mp hc)
    rw [List.nil_append, (Text.trimLeft_eq_nil_iff _).mpr hblank, List.reverse_nil]

section Numbers

variable {limit : Nat} {s : String}

/-- **A number is read off a numeral below the limit**, and off nothing else. -/
theorem readNumber?_eq_ok_iff {n : Nat} (hl : 0 < limit) :
    readNumber? limit s = .ok n ↔ Numeral s n ∧ n < limit := by
  rw [readNumber?_eq]
  constructor
  · intro h
    split at h
    · cases h
    · rename_i hne
      obtain ⟨hd, hn, hlt⟩ := (readDigits_eq_ok_iff hl).mp h
      exact ⟨⟨_, says_unsigned s, hne, hd, hn⟩, hlt⟩
  · rintro ⟨⟨digits, hsays, hne, hd, hn⟩, hlt⟩
    have hsays : Says s (digits ++ []) := by rwa [List.append_nil]
    obtain ⟨after, hcore, hafter⟩ := hsays.unsigned_eq hne hd
    rw [hafter rfl, List.append_nil] at hcore
    rw [hcore, if_neg hne]
    exact (readDigits_eq_ok_iff hl).mpr ⟨hd, hn, hlt⟩

theorem readNumber?_tooLarge_iff (hl : 0 < limit) :
    readNumber? limit s = .error .tooLarge ↔ Overflows limit s := by
  rw [readNumber?_eq]
  constructor
  · intro h
    split at h
    · cases h
    · obtain ⟨digits, rest, hcore, hd, hlimit⟩ := (readDigits_tooLarge_iff hl).mp h
      exact ⟨digits, rest, hcore ▸ says_unsigned s, hd, hlimit⟩
  · rintro ⟨digits, rest, hsays, hd, hlimit⟩
    have hne : digits ≠ [] := by
      rintro rfl
      exact absurd hl (Nat.not_lt.mpr hlimit)
    obtain ⟨after, hcore, -⟩ := hsays.unsigned_eq hne hd
    rw [hcore, if_neg fun hnil => hne (List.append_eq_nil_iff.mp hnil).1]
    exact (readDigits_tooLarge_iff hl).mpr ⟨digits, after, rfl, hd, hlimit⟩

theorem Numeral.unique {m n : Nat} (hm : Numeral s m) (hn : Numeral s n) : m = n := by
  have hlimit : 0 < max m n + 1 := Nat.succ_pos _
  have hreadm := (readNumber?_eq_ok_iff hlimit).mpr ⟨hm, by omega⟩
  have hreadn := (readNumber?_eq_ok_iff hlimit).mpr ⟨hn, by omega⟩
  exact Except.ok.inj (hreadm.symm.trans hreadn)

theorem Numeral.overflows {n : Nat} (h : Numeral s n) (hn : limit ≤ n) : Overflows limit s := by
  obtain ⟨digits, hsays, -, hd, rfl⟩ := h
  exact ⟨digits, [], by rwa [List.append_nil], hd, hn⟩

theorem Numeral.not_overflows {n : Nat} (h : Numeral s n) (hn : n < limit) : ¬ Overflows limit s := by
  intro ho
  have hl : 0 < limit := Nat.zero_lt_of_lt hn
  have hread := (readNumber?_eq_ok_iff hl).mpr ⟨h, hn⟩
  rw [(readNumber?_tooLarge_iff hl).mpr ho] at hread
  cases hread

end Numbers

end Settings
end RunDispatch
