/-
# What is skipped is JSON as well

The skipper takes arrays and objects apart with a list of the brackets that are open, to any depth. What it
skips is a phrase of the grammar all the same: what comes after a value ends the brackets that are open, the
innermost first, with more items or members before each end. Strings that are skipped may have a unit of
UTF-16 without its partner, and numbers may be of any size.

Key definitions: `Rest`, `Ends`, `Onward`.
Key theorems: `skipUnsigned_sound`, `skipString_sound`, `skipWith_sound`, `skipValue_sound`.
-/
import RunDispatch.Proofs.Json.Reading

namespace RunDispatch.Json

open Staging (ok_of_bind)

/-! ### Numbers -/

theorem digits?_cons {c : Char} (hc : isDigit c = true) (r : List Char) :
    digits? (c :: r) = some (c :: r.takeWhile isDigit, r.dropWhile isDigit) := by
  rw [digits?, List.takeWhile_cons_of_pos hc, List.dropWhile_cons_of_pos hc, if_neg (List.cons_ne_nil _ _)]

/-- Skips the digits of an exponent whose sign is skipped. -/
def skipPower : List Char → Except Failure (List Char)
  | c :: r => if isDigit c then .ok (r.dropWhile isDigit) else refuse .invalidNumber
  | [] => refuse .invalidNumber

theorem skipExponent_eq (cs : List Char) : skipExponent cs = skipPower (Literal.exponentSign cs).2 := by
  unfold Literal.exponentSign
  split
  · rfl
  · rfl
  · rename_i hplus hminus
    unfold skipExponent
    extract_lets t
    have ht : t = cs := by simp only [t]
    rw [ht]
    rfl

theorem skipExponent_sound {cs r : List Char} (h : skipExponent cs = .ok r) :
    ∃ ds, digits? (Literal.exponentSign cs).2 = some (ds, r) := by
  rw [skipExponent_eq] at h
  generalize (Literal.exponentSign cs).2 = t at h
  cases t with
  | nil => cases h
  | cons c t =>
    rw [skipPower] at h
    split at h
    · rename_i hc
      cases h
      exact ⟨_, digits?_cons hc t⟩
    · cases h

theorem skipAfterDigits_sound {cs r : List Char} (h : skipAfterDigits cs = .ok r) :
    ∃ e, Literal.exponent? cs = some (e, r) := by
  unfold skipAfterDigits at h
  split at h
  · obtain ⟨ds, hds⟩ := skipExponent_sound h
    rw [Literal.exponent?, if_pos (.inl rfl), hds]
    exact ⟨_, rfl⟩
  · obtain ⟨ds, hds⟩ := skipExponent_sound h
    rw [Literal.exponent?, if_pos (.inr rfl), hds]
    exact ⟨_, rfl⟩
  · rename_i hlower hupper
    cases h
    cases cs with
    | nil => exact ⟨none, rfl⟩
    | cons c t =>
      refine ⟨none, if_neg ?_⟩
      rintro (rfl | rfl)
      · exact absurd rfl (hlower _)
      · exact absurd rfl (hupper _)

/-- Skips what follows the digits before the point. -/
def skipAfterWhole (rest : List Char) : Except Failure (List Char) :=
  match rest with
  | '.' :: c :: r => if isDigit c then skipAfterDigits (r.dropWhile isDigit) else refuse .invalidNumber
  | ['.'] => refuse .invalidNumber
  | _ => skipAfterDigits rest

theorem skipAfterWhole_sound {cs r : List Char} (h : skipAfterWhole cs = .ok r) :
    ∃ fs t e, Literal.fraction? cs = some (fs, t) ∧ Literal.exponent? t = some (e, r) := by
  unfold skipAfterWhole at h
  split at h
  · rename_i c t
    split at h
    · rename_i hc
      obtain ⟨e, he⟩ := skipAfterDigits_sound h
      exact ⟨_, _, e, digits?_cons hc t, he⟩
    · cases h
  · cases h
  · rename_i hpoint hlast
    obtain ⟨e, he⟩ := skipAfterDigits_sound h
    refine ⟨[], cs, e, ?_, he⟩
    unfold Literal.fraction?
    split
    · rename_i t
      cases t with
      | nil => exact absurd rfl hlast
      | cons c t => exact absurd rfl (hpoint c t)
    · rfl

/-- What is skipped before the point are digits, of which a zero stands alone. -/
theorem skipUnsigned_whole {cs r : List Char} (h : skipUnsigned cs = .ok r) :
    ∃ ds rest, Literal.whole? cs = some (ds, rest) ∧ skipAfterWhole rest = .ok r := by
  unfold skipUnsigned at h
  split at h
  · split at h
    · rename_i c t
      split at h
      · cases h
      · rename_i hc
        have hdigits : digits? ('0' :: c :: t) = some (['0'], c :: t) := by
          rw [digits?_cons rfl, List.takeWhile_cons_of_neg hc, List.dropWhile_cons_of_neg hc]
        exact ⟨['0'], c :: t, by rw [Literal.whole?, hdigits]; rfl, h⟩
    · exact ⟨['0'], [], rfl, h⟩
  · rename_i c t hzero
    split at h
    · rename_i hc
      have hne : ¬ ((c :: t.takeWhile isDigit).head? = some '0' ∧ c :: t.takeWhile isDigit ≠ ['0']) :=
        fun hz => hzero (Option.some.inj hz.1)
      refine ⟨c :: t.takeWhile isDigit, t.dropWhile isDigit, ?_, h⟩
      rw [Literal.whole?, digits?_cons hc]
      exact if_neg hne
    · cases h
  · cases h

theorem skipUnsigned_sound {cs r : List Char} (negative : Bool) (h : skipUnsigned cs = .ok r) :
    ∃ l, Literal.unsigned? negative cs = some (l, r) := by
  obtain ⟨ds, rest, hds, hrest⟩ := skipUnsigned_whole h
  obtain ⟨fs, t, e, hfs, he⟩ := skipAfterWhole_sound hrest
  refine ⟨⟨negative, ds, fs, e⟩, ?_⟩
  simp [Literal.unsigned?, hds, hfs, he]

/-! ### Strings -/

theorem skipStringWith_sound {fuel : Nat} {cs r : List Char} (h : skipStringWith fuel cs = .ok r) :
    ∃ ps, Body ps cs r := by
  induction fuel generalizing cs with
  | zero => cases h
  | succ fuel ih =>
    cases cs with
    | nil => cases h
    | cons c cs =>
      rw [skipStringWith.eq_def] at h
      simp only at h
      split at h
      · rename_i hquote
        cases h
        subst hquote
        exact ⟨[], .close⟩
      · rename_i hquote
        split at h
        · rename_i hslash
          subst hslash
          split at h
          · cases h
          · obtain ⟨⟨n, t⟩, hn, hrest⟩ := ok_of_bind h
            obtain ⟨w, x, y, z, rfl, hquad⟩ := readHex4_sound hn
            obtain ⟨ps, hps⟩ := ih hrest
            exact ⟨.unit n :: ps, .unit hquad hps⟩
          · split at h
            · rename_i hsome
              obtain ⟨d, hd⟩ := Option.isSome_iff_exists.mp hsome
              obtain ⟨ps, hps⟩ := ih h
              exact ⟨.char d :: ps, .short hd hps⟩
            · cases h
        · rename_i hslash
          split at h
          · cases h
          · rename_i hcontrol
            obtain ⟨ps, hps⟩ := ih h
            exact ⟨.char c :: ps, .char hquote hslash (Nat.le_of_not_lt hcontrol) hps⟩

theorem skipString_sound {cs r : List Char} (h : skipString cs = .ok r) : ∃ ps, Body ps cs r :=
  skipStringWith_sound h

theorem skipName_sound {cs r : List Char} (h : skipName cs = .ok r) :
    ∃ ps e d, skipBlanks cs = '"' :: e ∧ Body ps e d ∧ skipBlanks d = ':' :: r := by
  unfold skipName at h
  split at h
  · cases h
  · rename_i e he
    obtain ⟨d, hd, h⟩ := ok_of_bind h
    obtain ⟨ps, hps⟩ := skipString_sound hd
    exact ⟨ps, e, d, he, hps, readColon_sound h⟩
  · cases h

/-! ### Open brackets -/

/-- A text goes on to the end of a bracket, in which the next value is the first or not. -/
def Ends : Bracket → Bool → List Char → List Char → Prop
  | .square, first, cs, r => ∃ xs, Items first xs cs r
  | .curly, first, cs, r => ∃ ms, Members first ms cs r

/-- A text goes on to the end of all open brackets. -/
def Rest : List Bracket → List Char → List Char → Prop
  | [], cs, r => cs = r
  | b :: bs, cs, r => ∃ d, Ends b false cs d ∧ Rest bs d r

/-- What a text goes on with at each place. -/
def Onward : SkipPlace → List Bracket → List Char → List Char → Prop
  | .value, bs, cs, r => ∃ x d, Begins x cs d ∧ Rest bs d r
  | .opened, b :: bs, cs, r => ∃ d, Ends b true cs d ∧ Rest bs d r
  | _, bs, cs, r => Rest bs cs r

theorem Ends.close {b : Bracket} {first : Bool} {c : Char} {cs r : List Char} (h : skipBlanks cs = c :: r)
    (hc : (b = .square ∧ c = ']') ∨ (b = .curly ∧ c = '\x7d')) : Ends b first cs r := by
  rcases hc with ⟨rfl, rfl⟩ | ⟨rfl, rfl⟩
  · exact ⟨[], .close h⟩
  · exact ⟨[], .close h⟩

theorem Ends.next {b : Bracket} {x : Phrase} {cs t e d r : List Char} (h : skipBlanks cs = ',' :: t)
    (he : skipToValue b t = .ok e) (hx : Begins x e d) (hrest : Ends b false d r) : Ends b false cs r := by
  cases b with
  | square =>
    cases he
    obtain ⟨xs, hxs⟩ := hrest
    exact ⟨x :: xs, .next h hx hxs⟩
  | curly =>
    obtain ⟨ps, u, v, hq, hs, hc⟩ := skipName_sound he
    obtain ⟨ms, hms⟩ := hrest
    exact ⟨(ps, x) :: ms, .next h hq hs hc hx hms⟩

theorem Ends.first {b : Bracket} {x : Phrase} {cs e d r : List Char}
    (he : skipToValue b (skipBlanks cs) = .ok e) (hx : Begins x e d) (hrest : Ends b false d r) :
    Ends b true cs r := by
  cases b with
  | square =>
    cases he
    obtain ⟨xs, hxs⟩ := hrest
    exact ⟨x :: xs, .first hx.of_skipBlanks hxs⟩
  | curly =>
    obtain ⟨ps, u, v, hq, hs, hc⟩ := skipName_sound he
    rw [skipBlanks_skipBlanks] at hq
    obtain ⟨ms, hms⟩ := hrest
    exact ⟨(ps, x) :: ms, .first hq hs hc hx hms⟩

/-- A value is skipped, and then what is left of the open brackets. -/
theorem skipWith_value {fuel : Nat} {bs : List Bracket} {cs r : List Char}
    (ih : ∀ place bs cs, skipWith fuel place bs cs = .ok r → Onward place bs cs r)
    (h : skipWith (fuel + 1) .value bs cs = .ok r) : Onward .value bs cs r := by
  rw [skipWith.eq_def] at h
  simp only at h
  split at h
  · cases h
  · rename_i t ht
    obtain ⟨u, hu, h⟩ := ok_of_bind h
    rw [readWord_sound hu] at ht
    exact ⟨.null, u, .null ht, ih _ _ _ h⟩
  · rename_i t ht
    obtain ⟨u, hu, h⟩ := ok_of_bind h
    rw [readWord_sound hu] at ht
    exact ⟨.bool true, u, .yes ht, ih _ _ _ h⟩
  · rename_i t ht
    obtain ⟨u, hu, h⟩ := ok_of_bind h
    rw [readWord_sound hu] at ht
    exact ⟨.bool false, u, .no ht, ih _ _ _ h⟩
  · rename_i t ht
    obtain ⟨u, hu, h⟩ := ok_of_bind h
    obtain ⟨ps, hps⟩ := skipString_sound hu
    exact ⟨.string ps, u, .string ht hps, ih _ _ _ h⟩
  · rename_i t ht
    obtain ⟨u, hu, h⟩ := ok_of_bind h
    obtain ⟨l, hl⟩ := skipUnsigned_sound true hu
    exact ⟨.number l, u, .number (by rw [ht]; exact hl), ih _ _ _ h⟩
  · rename_i t ht
    obtain ⟨d, ⟨xs, hxs⟩, hrest⟩ := ih _ _ _ h
    exact ⟨.array xs, d, .array ht hxs, hrest⟩
  · rename_i t ht
    obtain ⟨d, ⟨ms, hms⟩, hrest⟩ := ih _ _ _ h
    exact ⟨.object ms, d, .object ht hms, hrest⟩
  · rename_i c t _ _ _ _ hminus _ _ ht
    split at h
    · rename_i hc
      obtain ⟨u, hu, h⟩ := ok_of_bind h
      obtain ⟨l, hl⟩ := skipUnsigned_sound false hu
      have hlex : Literal.lex? (c :: t) = Literal.unsigned? false (c :: t) := by
        unfold Literal.lex?
        split
        · rename_i he
          cases he
          exact absurd hc (by decide)
        · rfl
      exact ⟨.number l, u, .number (by rw [ht, hlex, hl]), ih _ _ _ h⟩
    · cases h

/-- **What is skipped ends the brackets that are open**, by induction on the steps that are left. -/
theorem skipWith_sound {fuel : Nat} {place : SkipPlace} {bs : List Bracket} {cs r : List Char}
    (h : skipWith fuel place bs cs = .ok r) : Onward place bs cs r := by
  induction fuel generalizing place bs cs with
  | zero => cases h
  | succ fuel ih =>
    cases place with
    | value => exact skipWith_value (fun _ _ _ => ih) h
    | after =>
      cases bs with
      | nil =>
        cases h
        rfl
      | cons b bs =>
        rw [skipWith.eq_def] at h
        simp only at h
        split at h
        · cases h
        · rename_i c t ht
          split at h
          · rename_i hc
            obtain ⟨e, he, h⟩ := ok_of_bind h
            obtain ⟨x, u, hx, d, hends, hrest⟩ := ih h
            exact ⟨d, .next (hc.2 ▸ ht) he hx hends, hrest⟩
          · split at h
            · rename_i hc
              exact ⟨t, .close ht hc, ih h⟩
            · cases h
    | opened =>
      cases bs with
      | nil =>
        cases h
        rfl
      | cons b bs =>
        rw [skipWith.eq_def] at h
        simp only at h
        split at h
        · cases h
        · rename_i c t ht
          split at h
          · rename_i hc
            cases hc.1
          · split at h
            · rename_i hc
              exact ⟨t, .close ht hc, ih h⟩
            · obtain ⟨e, he, h⟩ := ok_of_bind h
              obtain ⟨x, u, hx, d, hends, hrest⟩ := ih h
              exact ⟨d, .first (ht ▸ he) hx hends, hrest⟩

/-- **A value that is skipped is a phrase.** -/
theorem skipValue_sound {depth : Nat} {cs r : List Char} (h : skipValue depth cs = .ok ((), r)) :
    ∃ x, Begins x cs r := by
  obtain ⟨t, ht, h⟩ := ok_of_bind h
  cases h
  obtain ⟨x, d, hx, rfl⟩ := skipWith_sound ht
  exact ⟨x, hx⟩

end RunDispatch.Json
