/-
# Numbers as they are written

A whole number is written as a literal without point and exponent, and a double as the shortest digits that
read back. Either way, what is written is one literal that denotes exactly what the number is shown as, and
the reader of a text that goes on with no digit, point or letter finds that literal and what follows it.

Key definitions: `NumberEnds`, `Literal.WellFormed`, `Literal.Renders`, `Number.shown`, `Number.Fits`,
`Literal.kept`.
Key theorems: `Literal.lex?_written`, `double_literal`, `Number.literal`, `number_wholeLiteral`,
`Literal.kept_whole`.
-/
import RunDispatch.Json.Writer
import RunDispatch.Proofs.Decimal.Shortest
import RunDispatch.Proofs.Json.Number

namespace RunDispatch.Json

open Decimal (Binary64 Digits Magnitude digitCount)

/-! ### Digits of a number -/

theorem isDigit_of_isDigit {c : Char} (h : c.isDigit) : isDigit c = true := by
  simp only [Char.isDigit, Bool.and_eq_true, decide_eq_true_eq] at h
  simp only [isDigit, Bool.and_eq_true, decide_eq_true_eq, Char.le_def]
  exact ⟨h.1, h.2⟩

theorem allDigits_toDigits (n : Nat) : AllDigits (Nat.toDigits 10 n) :=
  fun _ hc => isDigit_of_isDigit (Nat.isDigit_of_mem_toDigits (by decide) (by decide) hc)

theorem spelled_toDigits (n : Nat) : spelled (Nat.toDigits 10 n) = n := Nat.ofDigitChars_ten_toDigits

theorem head_toDigits {n : Nat} (hn : n ≠ 0) : (Nat.toDigits 10 n).head? ≠ some '0' := by
  induction n using Nat.strongRecOn with
  | ind n ih =>
    by_cases hlt : n < 10
    · rw [Nat.toDigits_of_lt_base hlt]
      simpa using hn
    · have hle : 10 ≤ n := Nat.le_of_not_lt hlt
      have hne : Nat.toDigits 10 (n / 10) ≠ [] := Nat.toDigits_ne_nil
      rw [Nat.toDigits_of_base_le (by decide) hle, List.head?_append_of_ne_nil _ hne]
      exact ih (n / 10) (by omega) (by omega)

theorem spelled_append (ds es : List Char) :
    spelled (ds ++ es) = spelled ds * 10 ^ es.length + spelled es := by
  rw [spelled, Nat.ofDigitChars_append, Nat.ofDigitChars_eq_ofDigitChars_zero]
  rw [Nat.mul_comm]
  rfl

theorem spelled_replicate_zero (n : Nat) : spelled (List.replicate n '0') = 0 := by
  rw [spelled, Nat.ofDigitChars_replicate_zero, Nat.mul_zero]

theorem allDigits_replicate_zero (n : Nat) : AllDigits (List.replicate n '0') := by
  intro c hc
  rw [List.eq_of_mem_replicate hc]
  decide

theorem AllDigits.append {ds es : List Char} (hd : AllDigits ds) (he : AllDigits es) :
    AllDigits (ds ++ es) := by
  intro c hc
  rcases List.mem_append.mp hc with h | h
  · exact hd c h
  · exact he c h

/-! ### The parts of a literal -/

/-- What comes next belongs to no number. -/
def NumberEnds (r : List Char) : Prop :=
  ∀ c ∈ r.head?, isDigit c = false ∧ c ≠ '.' ∧ c ≠ 'e' ∧ c ≠ 'E'

theorem NumberEnds.noDigit {r : List Char} (h : NumberEnds r) : NoDigitNext r := fun c hc => (h c hc).1

theorem digits?_append {ds r : List Char} (hne : ds ≠ []) (hd : AllDigits ds) (hr : NoDigitNext r) :
    digits? (ds ++ r) = some (ds, r) :=
  digits?_eq_some.mpr ⟨hne, hd, hr, rfl⟩

namespace Literal

theorem whole?_append {ds r : List Char} (hne : ds ≠ []) (hd : AllDigits ds) (hr : NoDigitNext r)
    (hzero : ds.head? = some '0' → ds = ['0']) : whole? (ds ++ r) = some (ds, r) := by
  rw [whole?, digits?_append hne hd hr]
  by_cases h : ds.head? = some '0'
  · simp [hzero h]
  · simp [h]

theorem fraction?_none {r : List Char} (hr : ∀ t, r ≠ '.' :: t) : fraction? r = some ([], r) := by
  unfold fraction?
  split
  · exact absurd rfl (hr _)
  · rfl

theorem fraction?_point {ds r : List Char} (hne : ds ≠ []) (hd : AllDigits ds) (hr : NoDigitNext r) :
    fraction? ('.' :: (ds ++ r)) = some (ds, r) := digits?_append hne hd hr

theorem exponent?_none {r : List Char} (hr : NumberEnds r) : exponent? r = some (none, r) := by
  cases r with
  | nil => rfl
  | cons c t =>
    have hc := hr c rfl
    rw [exponent?, if_neg (by simp [hc.2.2.1, hc.2.2.2])]

theorem exponent?_e {ds r : List Char} (hne : ds ≠ []) (hd : AllDigits ds) (hr : NoDigitNext r)
    (down : Bool) : exponent? ('e' :: (if down then '-' else '+') :: (ds ++ r)) = some (some (down, ds), r) := by
  have hsign : exponentSign ((if down then '-' else '+') :: (ds ++ r)) = (down, ds ++ r) := by
    cases down <;> rfl
  rw [exponent?, if_pos (.inl rfl), hsign, digits?_append hne hd hr]
  rfl

/-! ### A literal as it is written -/

def exponentText : Option (Bool × List Char) → List Char
  | none => []
  | some (down, digits) => 'e' :: (if down then '-' else '+') :: digits

def fractionText (digits : List Char) : List Char := if digits = [] then [] else '.' :: digits

def written (l : Literal) : List Char :=
  (if l.negative then ['-'] else []) ++ (l.whole ++ (fractionText l.fraction ++ exponentText l.exponent))

/-- The parts of a literal consist of digits, and a zero before the point stands alone. -/
structure WellFormed (l : Literal) : Prop where
  whole_ne : l.whole ≠ []
  whole_digits : AllDigits l.whole
  zero_alone : l.whole.head? = some '0' → l.whole = ['0']
  fraction_digits : AllDigits l.fraction
  exponent_digits : ∀ e ∈ l.exponent, e.2 ≠ [] ∧ AllDigits e.2

theorem exponent?_exponentText {e : Option (Bool × List Char)} (he : ∀ x ∈ e, x.2 ≠ [] ∧ AllDigits x.2)
    {r : List Char} (hr : NumberEnds r) : exponent? (exponentText e ++ r) = some (e, r) := by
  cases e with
  | none => exact exponent?_none hr
  | some x =>
    obtain ⟨hne, hd⟩ := he x rfl
    exact exponent?_e hne hd hr.noDigit x.1

theorem exponentText_next (e : Option (Bool × List Char)) {r : List Char} (hr : NumberEnds r) :
    NoDigitNext (exponentText e ++ r) ∧ ∀ t, exponentText e ++ r ≠ '.' :: t := by
  cases e with
  | none =>
    refine ⟨hr.noDigit, fun t ht => ?_⟩
    have hcons : r = '.' :: t := ht
    subst hcons
    exact (hr _ rfl).2.1 rfl
  | some x =>
    refine ⟨fun c hc => ?_, fun t ht => ?_⟩
    · cases hc
      decide
    · cases ht

theorem fraction?_fractionText {ds : List Char} (hd : AllDigits ds) (e : Option (Bool × List Char))
    {r : List Char} (hr : NumberEnds r) :
    NoDigitNext (fractionText ds ++ (exponentText e ++ r)) ∧
      fraction? (fractionText ds ++ (exponentText e ++ r)) = some (ds, exponentText e ++ r) := by
  obtain ⟨hdigit, hpoint⟩ := exponentText_next e hr
  unfold fractionText
  by_cases hnil : ds = []
  · subst hnil
    exact ⟨hdigit, fraction?_none hpoint⟩
  · rw [if_neg hnil, List.cons_append]
    refine ⟨fun c hc => ?_, fraction?_point hnil hd hdigit⟩
    cases hc
    decide

/-- **What is written of a literal is read as that literal.** -/
theorem lex?_written {l : Literal} (hl : l.WellFormed) {r : List Char} (hr : NumberEnds r) :
    lex? (l.written ++ r) = some (l, r) := by
  obtain ⟨negative, whole, fraction, exponent⟩ := l
  obtain ⟨hdigit, hfraction⟩ := fraction?_fractionText hl.fraction_digits exponent hr
  have hunsigned : unsigned? negative (whole ++ (fractionText fraction ++ (exponentText exponent ++ r))) =
      some (⟨negative, whole, fraction, exponent⟩, r) := by
    rw [unsigned?, whole?_append hl.whole_ne hl.whole_digits hdigit hl.zero_alone]
    simp only [Option.bind_eq_bind, Option.bind_some]
    rw [hfraction]
    simp only [Option.bind_some]
    rw [exponent?_exponentText hl.exponent_digits hr]
    rfl
  cases negative with
  | true => simpa [written, lex?] using hunsigned
  | false =>
    obtain ⟨c, t, hc⟩ := List.exists_cons_of_ne_nil hl.whole_ne
    simp only at hc
    subst hc
    have hdig : isDigit c = true := hl.whole_digits c List.mem_cons_self
    have hminus : c ≠ '-' := ne_of_isDigit hdig (by decide)
    simp only [written, Bool.false_eq_true, if_false, List.nil_append, List.append_assoc, List.cons_append]
    simp only [List.cons_append] at hunsigned
    unfold lex?
    split
    · rename_i h
      exact absurd (List.cons.inj h).1 hminus
    · exact hunsigned

end Literal

/-! ### Whole numbers -/

def wholeLiteral (n : Int) : Literal := ⟨decide (n < 0), Nat.toDigits 10 n.natAbs, [], none⟩

theorem wholeLiteral_wellFormed (n : Int) : (wholeLiteral n).WellFormed where
  whole_ne := Nat.toDigits_ne_nil
  whole_digits := allDigits_toDigits _
  zero_alone := by
    intro h
    by_cases hn : n.natAbs = 0
    · simp [wholeLiteral, hn]
    · exact absurd h (head_toDigits hn)
  fraction_digits := nofun
  exponent_digits := nofun

theorem wholeLiteral_written (n : Int) : (wholeLiteral n).written = writeInt n := by
  by_cases hn : n < 0 <;>
    simp [Literal.written, wholeLiteral, writeInt, hn, Literal.fractionText, Literal.exponentText]

theorem wholeLiteral_exact (n : Int) : (wholeLiteral n).exact = n := by
  have hspelled : spelled ((wholeLiteral n).whole ++ (wholeLiteral n).fraction) = n.natAbs := by
    rw [wholeLiteral, List.append_nil, spelled_toDigits]
  have hpower : (wholeLiteral n).power - ((wholeLiteral n).fraction.length : Int) = 0 := rfl
  rw [Literal.exact, hspelled, hpower, zpow_zero, mul_one]
  by_cases hn : n < 0
  · have hcast : ((n.natAbs : Nat) : ℚ) = -(n : ℚ) := by
      rw [← Int.cast_natCast, show (n.natAbs : Int) = -n by omega, Int.cast_neg]
    simp [wholeLiteral, hn, hcast]
  · have hcast : ((n.natAbs : Nat) : ℚ) = (n : ℚ) := by
      rw [← Int.cast_natCast, show (n.natAbs : Int) = n by omega]
    simp [wholeLiteral, hn, hcast]

/-! ### Doubles -/

theorem digitCount_eq_length {c : Nat} (hc : 0 < c) : digitCount c = (Nat.toDigits 10 c).length :=
  if_neg hc.ne'

theorem Literal.exact_eq {l : Literal} {d : Digits} (hd : 0 < d.coefficient) (k : Nat)
    (hspelled : spelled (l.whole ++ l.fraction) = d.coefficient * 10 ^ k)
    (hpower : l.power - l.fraction.length + k = d.leading + 1 - (Nat.toDigits 10 d.coefficient).length) :
    l.exact = (if l.negative then -1 else 1) * d.value := by
  rw [Literal.exact, Digits.value, digitCount_eq_length hd, ← hpower, zpow_add₀ (by norm_num), hspelled]
  push_cast
  rw [zpow_natCast]
  ring

/-- A literal whose text is a sign and a text, and whose number is a number with that sign. -/
structure Literal.Renders (l : Literal) (negative : Bool) (text : List Char) (q : ℚ) : Prop where
  wellFormed : l.WellFormed
  written : l.written = (if negative then ['-'] else []) ++ text
  exact : l.exact = (if negative then -1 else 1) * q

/-- The text of digits before an exponent is a literal. -/
theorem exponential_literal {d : Digits} (hd : 0 < d.coefficient) (negative : Bool) :
    ∃ l : Literal,
      l.Renders negative (numberLayout.exponential (Nat.toDigits 10 d.coefficient) d.leading) d.value := by
  obtain ⟨c, rest, hc⟩ := List.exists_cons_of_ne_nil (Nat.toDigits_ne_nil (b := 10) (n := d.coefficient))
  have hall : AllDigits (c :: rest) := hc ▸ allDigits_toDigits d.coefficient
  have hspelled : spelled (c :: rest) = d.coefficient := hc ▸ spelled_toDigits d.coefficient
  refine ⟨⟨negative, [c], rest, some (decide (d.leading < 0), Nat.toDigits 10 d.leading.natAbs)⟩,
    ⟨List.cons_ne_nil _ _, fun x hx => hall x (by simp at hx; simp [hx]), fun h => ?_,
      fun x hx => hall x (by simp [hx]), fun e he => ?_⟩, ?_, ?_⟩
  · simpa using h
  · cases he
    exact ⟨Nat.toDigits_ne_nil, allDigits_toDigits _⟩
  · have hmark : Literal.exponentText (some (decide (d.leading < 0), Nat.toDigits 10 d.leading.natAbs)) =
        'e' :: (if d.leading < 0 then '-' :: Nat.toDigits 10 d.leading.natAbs
          else numberLayout.plus ++ Nat.toDigits 10 d.leading.natAbs) := by
      by_cases h : d.leading < 0 <;> simp [Literal.exponentText, h, numberLayout]
    rw [Literal.written, hmark, hc]
    unfold Decimal.Layout.exponential
    cases rest <;> simp [Literal.fractionText]
  · refine Literal.exact_eq hd 0 (by simpa using hspelled) ?_
    have hpower : (Literal.mk negative [c] rest
        (some (decide (d.leading < 0), Nat.toDigits 10 d.leading.natAbs))).power = d.leading := by
      by_cases h : d.leading < 0
      · simp only [Literal.power, h, decide_true, spelled_toDigits]
        omega
      · simp only [Literal.power, h, decide_false, spelled_toDigits]
        omega
    rw [hpower, hc, List.length_cons]
    push_cast
    ring

/-- Digits behind a point, with zeros between. -/
theorem positional_small {d : Digits} (hd : 0 < d.coefficient) (negative : Bool) (hsmall : d.leading < 0) :
    ∃ l : Literal,
      l.Renders negative (numberLayout.positional (Nat.toDigits 10 d.coefficient) d.leading) d.value := by
  have hall := allDigits_toDigits d.coefficient
  have hspelled := spelled_toDigits d.coefficient
  have hne : Nat.toDigits 10 d.coefficient ≠ [] := Nat.toDigits_ne_nil
  generalize hds : Nat.toDigits 10 d.coefficient = ds at *
  refine ⟨⟨negative, ['0'], List.replicate (-d.leading - 1).toNat '0' ++ ds, none⟩,
    ⟨List.cons_ne_nil _ _, allDigits_replicate_zero 1, fun _ => rfl, (allDigits_replicate_zero _).append hall,
      nofun⟩, ?_, ?_⟩
  · simp [Decimal.Layout.positional, Literal.written, Literal.fractionText, Literal.exponentText, hsmall, hne]
  · refine Literal.exact_eq hd 0 ?_ ?_
    · have hzeros : ['0'] ++ (List.replicate (-d.leading - 1).toNat '0' ++ ds) =
          List.replicate ((-d.leading - 1).toNat + 1) '0' ++ ds := by
        rw [List.replicate_succ]
        rfl
      rw [hzeros, spelled_append, spelled_replicate_zero, Nat.zero_mul, Nat.zero_add, hspelled, pow_zero,
        Nat.mul_one]
    · rw [hds]
      simp only [Literal.power, List.length_append, List.length_replicate]
      omega

/-- Digits before a point, with zeros between. -/
theorem positional_long {d : Digits} (hd : 0 < d.coefficient) (negative : Bool) (hlarge : 0 ≤ d.leading)
    (hlong : (Nat.toDigits 10 d.coefficient).length ≤ d.leading.toNat + 1) :
    ∃ l : Literal,
      l.Renders negative (numberLayout.positional (Nat.toDigits 10 d.coefficient) d.leading) d.value := by
  have hall := allDigits_toDigits d.coefficient
  have hspelled := spelled_toDigits d.coefficient
  have hlead := head_toDigits hd.ne'
  have hne : Nat.toDigits 10 d.coefficient ≠ [] := Nat.toDigits_ne_nil
  generalize hds : Nat.toDigits 10 d.coefficient = ds at *
  refine ⟨⟨negative, ds ++ List.replicate (d.leading.toNat + 1 - ds.length) '0', ['0'], none⟩,
    ⟨by simp [hne], hall.append (allDigits_replicate_zero _), fun h => ?_, allDigits_replicate_zero 1, nofun⟩,
    ?_, ?_⟩
  · rw [List.head?_append_of_ne_nil _ hne] at h
    exact absurd h hlead
  · simp [Decimal.Layout.positional, Literal.written, Literal.fractionText, Literal.exponentText, numberLayout,
      hlarge.not_gt, hlong]
  · refine Literal.exact_eq hd (d.leading.toNat + 1 - ds.length + 1) ?_ ?_
    · rw [List.append_assoc, spelled_append, hspelled, ← List.replicate_succ']
      rw [spelled_replicate_zero, List.length_replicate, Nat.add_zero]
    · rw [hds]
      simp only [Literal.power, List.length_singleton]
      omega

/-- Digits around a point. -/
theorem positional_among {d : Digits} (hd : 0 < d.coefficient) (negative : Bool) (hlarge : 0 ≤ d.leading)
    (hshort : d.leading.toNat + 1 < (Nat.toDigits 10 d.coefficient).length) :
    ∃ l : Literal,
      l.Renders negative (numberLayout.positional (Nat.toDigits 10 d.coefficient) d.leading) d.value := by
  have hall := allDigits_toDigits d.coefficient
  have hspelled := spelled_toDigits d.coefficient
  have hlead := head_toDigits hd.ne'
  have hne : Nat.toDigits 10 d.coefficient ≠ [] := Nat.toDigits_ne_nil
  generalize hds : Nat.toDigits 10 d.coefficient = ds at *
  refine ⟨⟨negative, ds.take (d.leading.toNat + 1), ds.drop (d.leading.toNat + 1), none⟩,
    ⟨by simp [hne], fun x hx => hall x (List.mem_of_mem_take hx), fun h => ?_,
      fun x hx => hall x (List.mem_of_mem_drop hx), nofun⟩, ?_, ?_⟩
  · rw [List.head?_take] at h
    exact absurd (by simpa using h) hlead
  · have hdrop : ds.drop (d.leading.toNat + 1) ≠ [] := by
      intro hnil
      have := List.drop_eq_nil_iff.mp hnil
      omega
    simp [Decimal.Layout.positional, Literal.written, Literal.fractionText, Literal.exponentText, hdrop,
      hlarge.not_gt, hshort.not_ge]
  · refine Literal.exact_eq hd 0 ?_ ?_
    · rw [List.take_append_drop, hspelled, pow_zero, Nat.mul_one]
    · rw [hds]
      simp only [Literal.power, List.length_drop]
      omega

theorem writeDigits_literal {d : Digits} (hd : 0 < d.coefficient) (negative : Bool) :
    ∃ l : Literal, l.Renders negative (numberLayout.writeDigits d) d.value := by
  unfold Decimal.Layout.writeDigits
  simp only
  split
  · rcases lt_or_ge d.leading 0 with hsmall | hlarge
    · exact positional_small hd negative hsmall
    · rcases le_or_gt (Nat.toDigits 10 d.coefficient).length (d.leading.toNat + 1) with hlong | hshort
      · exact positional_long hd negative hlarge hlong
      · exact positional_among hd negative hlarge hshort
  · exact exponential_literal hd negative

theorem zero_literal (negative : Bool) :
    ∃ l : Literal, l.Renders negative ('0' :: numberLayout.wholeEnd) 0 := by
  have hdigit : AllDigits ['0'] := allDigits_replicate_zero 1
  refine ⟨⟨negative, ['0'], ['0'], none⟩, ⟨List.cons_ne_nil _ _, hdigit, fun _ => rfl, hdigit, nofun⟩, rfl, ?_⟩
  have hspelled : spelled (['0'] ++ ['0']) = 0 := spelled_replicate_zero 2
  rw [Literal.exact, hspelled, Nat.cast_zero, mul_zero, zero_mul]

/-- What a double is shown as: the number of its shortest digits. -/
def doubleShown (x : Binary64) : ℚ :=
  if x.isZero then 0 else (if x.negative then -1 else 1) * x.magnitude.digits.value

/-- **The text of a double is a literal of what the double is shown as.** -/
theorem double_literal {x : Binary64} (hx : x.magnitude.mantissa < 2 * Magnitude.fullMantissa) :
    ∃ l : Literal, l.WellFormed ∧ l.written = numberLayout.write x ∧ l.exact = doubleShown x := by
  have hsign (body : List Char) : (if x.negative then ['-'] else []) ++ body =
      if x.negative then '-' :: body else body := by
    cases x.negative <;> rfl
  unfold Decimal.Layout.write doubleShown
  by_cases hzero : x.isZero
  · obtain ⟨l, hl⟩ := zero_literal x.negative
    refine ⟨l, hl.wellFormed, ?_, ?_⟩
    · rw [hl.written, hsign, if_pos hzero]
    · rw [hl.exact, if_pos hzero, mul_zero]
  · have hpos : 0 < x.magnitude.mantissa := by
      have : x.magnitude.mantissa ≠ 0 := by simpa [Binary64.isZero] using hzero
      omega
    obtain ⟨count, hshort⟩ := Magnitude.digits_shortest hpos hx
    obtain ⟨l, hl⟩ := writeDigits_literal hshort.pos x.negative
    refine ⟨l, hl.wellFormed, ?_, ?_⟩
    · rw [hl.written, hsign, if_neg hzero]
    · rw [hl.exact, if_neg hzero]

/-! ### Numbers -/

namespace Number

/-- What a number is shown as. -/
def shown : Number → ℚ
  | whole n => n
  | double x => doubleShown x

/-- A whole number of 64 bits, or a double. -/
def Fits : Number → Prop
  | whole n => -(signedLimit : Int) ≤ n ∧ n < wordLimit
  | double x => x.magnitude.Normal

/-- **The text of a number is a literal of what the number is shown as.** -/
theorem literal {n : Number} (hn : n.Fits) :
    ∃ l : Literal, l.WellFormed ∧ l.written = n.write ∧ l.exact = n.shown := by
  cases n with
  | whole n =>
    exact ⟨wholeLiteral n, wholeLiteral_wellFormed n, wholeLiteral_written n, wholeLiteral_exact n⟩
  | double x => exact double_literal hn.mantissa_lt

end Number

/-! ### What becomes of a literal -/

theorem Gathered.double_fits {g : Gathered} {n : Number} (h : g.double = .ok n) : n.Fits := by
  unfold Gathered.double at h
  split at h
  · cases h
  · rename_i x hx
    have hnormal := Decimal.ofScaled?_normal hx
    cases h
    show (if g.negative then x.neg else x).magnitude.Normal
    cases g.negative <;> exact hnormal

theorem Gathered.scaledBy_fits {g : Gathered} {e : Option (Bool × List Char)} {n : Number}
    (h : g.scaledBy e = .ok n) : n.Fits := by
  cases e with
  | none => exact Gathered.double_fits h
  | some p =>
    obtain ⟨down, digits⟩ := p
    simp only [Gathered.scaledBy] at h
    split at h
    · exact Gathered.double_fits h
    · split at h
      · cases h
      · cases h
        exact Binary64.zero_normal _

theorem Gathered.whole_fits {g : Gathered} (hg : g.significand < wordLimit) {n : Number}
    (h : g.whole = .ok n) : n.Fits := by
  have hlimit : 0 < signedLimit ∧ signedLimit < wordLimit := by decide
  unfold Gathered.whole at h
  split at h
  · split at h
    · rename_i hle
      cases h
      refine ⟨?_, ?_⟩ <;> omega
    · exact Gathered.double_fits h
  · cases h
    refine ⟨?_, ?_⟩ <;> omega

theorem Literal.number_fits {l : Literal} {n : Number} (h : l.number = .ok n) : n.Fits := by
  unfold Literal.number Gathered.number at h
  split at h
  · exact Gathered.whole_fits (gatherDigits_lt l.whole 0 (by decide)) h
  · exact Gathered.scaledBy_fits h

/-- What the number that a literal is read as is shown as. -/
def Literal.kept (l : Literal) : ℚ :=
  match l.number with
  | .ok n => n.shown
  | .error _ => 0

theorem Literal.kept_of_number {l : Literal} {n : Number} (h : l.number = .ok n) : l.kept = n.shown := by
  rw [Literal.kept, h]

/-- A literal of digits alone that fit 64 bits is read as a whole number, or as minus zero. -/
theorem Literal.number_whole {l : Literal} (hd : AllDigits l.whole) (hf : l.fraction = [])
    (he : l.exponent = none) (hfit : spelled l.whole < wordLimit) :
    l.number = (⟨l.negative, spelled l.whole, 0⟩ : Gathered).whole := by
  have hgather : Gathered.ofWhole l.negative l.whole = ⟨l.negative, spelled l.whole, 0⟩ := by
    rw [Gathered.ofWhole, gatherDigits_fit hd 0 hfit]
    rfl
  rw [Literal.number, hgather, Gathered.number, if_pos ⟨rfl, hf, he⟩]

/-- **A whole number of 64 bits is read as it was written.** -/
theorem number_wholeLiteral {n : Int} (hlow : -(signedLimit : Int) ≤ n) (hhigh : n < wordLimit) :
    (wholeLiteral n).number = .ok (.whole n) := by
  have hlimit : signedLimit < wordLimit := by decide
  have hspelled : spelled (wholeLiteral n).whole = n.natAbs := spelled_toDigits _
  rw [Literal.number_whole (allDigits_toDigits _) rfl rfl (by rw [hspelled]; omega), hspelled]
  by_cases hn : n < 0
  · have hneg : (wholeLiteral n).negative = true := by simp [wholeLiteral, hn]
    rw [hneg, Gathered.whole, if_pos rfl, if_pos ⟨by simp only; omega, by simp only; omega⟩]
    congr 2
    simp only
    omega
  · have hneg : (wholeLiteral n).negative = false := by simp [wholeLiteral, hn]
    rw [hneg, Gathered.whole, if_neg (by simp)]
    congr 2
    simp only
    omega

theorem minus_zero : (⟨true, 0, 0⟩ : Gathered).whole = .ok (.double (Binary64.zero true)) := by
  decide +kernel

theorem Literal.exact_plain {l : Literal} (hf : l.fraction = []) (he : l.exponent = none) :
    l.exact = (if l.negative then -1 else 1) * spelled l.whole := by
  have hpower : l.power - (l.fraction.length : Int) = 0 := by
    rw [hf, Literal.power, he]
    rfl
  rw [Literal.exact, hpower, zpow_zero, mul_one, hf, List.append_nil]

/-- **A whole number of 64 bits is kept exactly.** -/
theorem Literal.kept_whole {l : Literal} (hd : AllDigits l.whole) (hf : l.fraction = [])
    (he : l.exponent = none) (hlow : -(signedLimit : ℚ) ≤ l.exact) (hhigh : l.exact < wordLimit) :
    l.kept = l.exact := by
  have hlimit : signedLimit < wordLimit := by decide
  rw [Literal.exact_plain hf he] at hlow hhigh ⊢
  cases hneg : l.negative with
  | true =>
    simp only [hneg, if_true, neg_one_mul, neg_le_neg_iff] at hlow
    have hle : spelled l.whole ≤ signedLimit := by exact_mod_cast hlow
    have hnumber := Literal.number_whole hd hf he (by omega)
    rw [hneg] at hnumber
    by_cases hzero : spelled l.whole = 0
    · rw [hzero, minus_zero] at hnumber
      rw [Literal.kept_of_number hnumber, hzero]
      simp [Number.shown, doubleShown, Binary64.zero, Binary64.isZero, Magnitude.zero]
    · have hwhole : (⟨true, spelled l.whole, 0⟩ : Gathered).whole = .ok (.whole (-(spelled l.whole : Int))) := by
        rw [Gathered.whole, if_pos rfl, if_pos ⟨Nat.pos_of_ne_zero hzero, hle⟩]
      rw [Literal.kept_of_number (hnumber.trans hwhole)]
      simp [Number.shown]
  | false =>
    simp only [hneg, Bool.false_eq_true, if_false, one_mul] at hhigh
    have hlt : spelled l.whole < wordLimit := by exact_mod_cast hhigh
    have hnumber := Literal.number_whole hd hf he hlt
    rw [hneg] at hnumber
    have hwhole : (⟨false, spelled l.whole, 0⟩ : Gathered).whole = .ok (.whole (spelled l.whole)) := rfl
    rw [Literal.kept_of_number (hnumber.trans hwhole)]
    simp [Number.shown]

end RunDispatch.Json
