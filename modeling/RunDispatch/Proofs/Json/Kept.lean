/-
# Numbers that are kept

Two kinds of numbers are kept as they are written. A whole number of 64 bits, without point and exponent, is
read as it is. A decimal of a significand below 10^15 and a power of ten within 22 is read as a double that is
shown as that decimal: its digits all fit a significand, its exponent is read to the last digit, and the
double takes one rounding.

Key definitions: `Literal.Word`, `Literal.Short`, `Literal.Plain`.
Key theorems: `Literal.number_scaled`, `Literal.kept_scaled`, `Literal.kept_of_plain`.
-/
import RunDispatch.Proofs.Decimal.Faithful
import RunDispatch.Proofs.Json.Shown

namespace RunDispatch.Json

open Decimal (Binary64 ofScaled?)

theorem gatherExponent_fit {ds : List Char} (hd : AllDigits ds) {v : Nat}
    (hfit : Nat.ofDigitChars 10 ds v ≤ exponentLimit) :
    gatherExponent v ds = (some (Nat.ofDigitChars 10 ds v), []) := by
  induction ds generalizing v with
  | nil => rfl
  | cons c t ih =>
    have hc : isDigit c = true := hd c (by simp)
    have ht : AllDigits t := fun d hd' => hd d (by simp [hd'])
    rw [ofDigitChars_step] at hfit ⊢
    have hle := le_ofDigitChars t (v * 10 + digitValue c)
    rw [gatherExponent, if_pos hc]
    simp only
    rw [if_neg (by omega), ih ht hfit]

namespace Literal

/-- A whole number of 64 bits, written without point and exponent. -/
structure Word (l : Literal) : Prop where
  digits : AllDigits l.whole
  no_fraction : l.fraction = []
  no_exponent : l.exponent = none
  least : -(signedLimit : ℚ) ≤ l.exact
  lt : l.exact < wordLimit

/-- A decimal of fifteen digits, apart from zeros before them, and a power of ten within 22. -/
structure Short (l : Literal) : Prop where
  whole_digits : AllDigits l.whole
  fraction_digits : AllDigits l.fraction
  exponent_digits : ∀ e ∈ l.exponent, AllDigits e.2 ∧ spelled e.2 ≤ exponentLimit
  lt : spelled (l.whole ++ l.fraction) < 1000000000000000
  least : -22 ≤ l.power - l.fraction.length
  greatest : l.power - l.fraction.length ≤ 22

/-- The digits of a literal, gathered, if they fit. -/
theorem withFraction_fit {l : Literal} (hw : AllDigits l.whole) (hf : AllDigits l.fraction)
    (hfit : spelled (l.whole ++ l.fraction) < wordLimit) :
    (Gathered.ofWhole l.negative l.whole).exponent = 0 ∧
      (Gathered.ofWhole l.negative l.whole).withFraction l.fraction =
        ⟨l.negative, spelled (l.whole ++ l.fraction), -l.fraction.length⟩ := by
  have happend : spelled (l.whole ++ l.fraction) = Nat.ofDigitChars 10 l.fraction (spelled l.whole) := by
    rw [spelled, Nat.ofDigitChars_append]
    rfl
  rw [happend] at hfit ⊢
  have hwhole : spelled l.whole < wordLimit := (le_ofDigitChars l.fraction _).trans_lt hfit
  have hgather : Gathered.ofWhole l.negative l.whole = ⟨l.negative, spelled l.whole, 0⟩ := by
    rw [Gathered.ofWhole, gatherDigits_fit hw 0 hwhole]
    rfl
  rw [hgather, Gathered.withFraction, gatherDigits_fit hf 0 hfit, Nat.zero_add, Int.zero_sub]
  exact ⟨rfl, rfl⟩

/-- A literal with a point or an exponent whose digits fit is read as the double of its significand and its
power of ten. -/
theorem number_scaled {l : Literal} (hw : AllDigits l.whole) (hf : AllDigits l.fraction)
    (he : ∀ e ∈ l.exponent, AllDigits e.2 ∧ spelled e.2 ≤ exponentLimit)
    (hfit : spelled (l.whole ++ l.fraction) < wordLimit) (hne : ¬ (l.fraction = [] ∧ l.exponent = none)) :
    l.number = (⟨l.negative, spelled (l.whole ++ l.fraction), l.power - l.fraction.length⟩ : Gathered).double := by
  obtain ⟨hzero, hgather⟩ := withFraction_fit hw hf hfit
  rw [number, Gathered.number, if_neg fun h => hne h.2, hgather, power]
  cases hexponent : l.exponent with
  | none => rw [Gathered.scaledBy, Int.zero_sub]
  | some p =>
    obtain ⟨down, digits⟩ := p
    obtain ⟨hd, hle⟩ := he _ hexponent
    have hread : (gatherExponent 0 digits).1 = some (spelled digits) := by
      rw [gatherExponent_fit hd hle]
      rfl
    rw [Gathered.scaledBy, hread, Int.sub_eq_add_neg, Int.add_comm]
    cases down <;> rfl

/-- The double that a literal is read as keeps it if it is shown as its significand and its power of ten. -/
theorem kept_scaled {l : Literal} {x : Binary64} {s : Nat} {k : Int}
    (hnumber : l.number = (⟨l.negative, s, k⟩ : Gathered).double) (hx : ofScaled? s k = some x)
    (hneg : x.negative = false) (hshown : doubleShown x = s * 10 ^ k) :
    l.kept = (if l.negative then -1 else 1) * s * 10 ^ k := by
  rw [Gathered.double, hx] at hnumber
  rw [kept_of_number hnumber, Number.shown, mul_assoc, ← hshown]
  cases l.negative with
  | false => simp
  | true =>
    have hflip : x.neg.isZero = x.isZero ∧ x.neg.negative = true ∧ x.neg.magnitude = x.magnitude :=
      ⟨rfl, by rw [Binary64.neg, hneg]; rfl, rfl⟩
    rw [if_pos rfl, if_pos rfl, doubleShown, doubleShown, hflip.1, hflip.2.1, hflip.2.2, hneg]
    split <;> simp

/-- A significand below 10^15 and a power of ten within 22 are read as a double that is shown as they are. -/
theorem ofScaled?_shown {s : Nat} {k : Int} (hs : s < 1000000000000000) (hlow : -22 ≤ k) (hhigh : k ≤ 22) :
    ∃ x, ofScaled? s k = some x ∧ x.negative = false ∧ doubleShown x = s * 10 ^ k := by
  by_cases hzero : s = 0
  · subst hzero
    obtain ⟨x, hx, hneg, hxzero⟩ := Decimal.ofScaled?_zero hlow hhigh
    exact ⟨x, hx, hneg, by rw [doubleShown, if_pos hxzero, Nat.cast_zero, zero_mul]⟩
  · obtain ⟨x, hx, hneg, hxzero, hdigits⟩ := Decimal.ofScaled?_fifteen (Nat.pos_of_ne_zero hzero) hs hlow hhigh
    refine ⟨x, hx, hneg, ?_⟩
    rw [doubleShown, hxzero, hneg, hdigits, if_neg Bool.false_ne_true, if_neg Bool.false_ne_true, one_mul]

theorem Short.word {l : Literal} (hl : l.Short) (hf : l.fraction = []) (he : l.exponent = none) : l.Word := by
  have hsigned : 1000000000000000 < signedLimit := by decide
  have hword : signedLimit < wordLimit := by decide
  have hlt := hl.lt
  rw [hf, List.append_nil] at hlt
  have hdigits : (0 : ℚ) ≤ spelled l.whole := by positivity
  have hs : (spelled l.whole : ℚ) < signedLimit := by exact_mod_cast hlt.trans hsigned
  have hw : (signedLimit : ℚ) < wordLimit := by exact_mod_cast hword
  refine ⟨hl.whole_digits, hf, he, ?_, ?_⟩
  · rw [exact_plain hf he]
    split <;> linarith
  · rw [exact_plain hf he]
    split <;> linarith

/-- A whole number of 64 bits, or a short decimal. -/
def Plain (l : Literal) : Prop := l.Word ∨ l.Short

/-- **Whole numbers of 64 bits and short decimals are kept exactly.** -/
theorem kept_of_plain {l : Literal} (hl : l.Plain) : l.kept = l.exact := by
  have hword (h : l.Word) : l.kept = l.exact :=
    kept_whole h.digits h.no_fraction h.no_exponent h.least h.lt
  rcases hl with h | h
  · exact hword h
  · by_cases hplain : l.fraction = [] ∧ l.exponent = none
    · exact hword (h.word hplain.1 hplain.2)
    · have hlimit : 1000000000000000 < wordLimit := by decide
      have hnumber := number_scaled h.whole_digits h.fraction_digits h.exponent_digits
        (h.lt.trans hlimit) hplain
      obtain ⟨x, hx, hneg, hshown⟩ := ofScaled?_shown h.lt h.least h.greatest
      exact kept_scaled hnumber hx hneg hshown

/-- A tenth is short, though no double is a tenth. -/
example : (⟨false, ['0'], ['1'], none⟩ : Literal).Short :=
  ⟨List.all_eq_true.mp rfl, List.all_eq_true.mp rfl, nofun, by decide, by decide, by decide⟩

end Literal

end RunDispatch.Json
