/-
# Decimals of fifteen digits

A significand of fifteen digits is a double, and so is a power of ten up to 10^22. So a decimal of such a
significand and such a power is read in one rounding, as the double nearest to it, and lies in the interval of
the numbers that round to that double. The interval is narrower than the step of fifteen digits, so no other
decimal of fifteen digits lies in it, and the shortest digits of the double are those of the decimal.

Key theorems: `Magnitude.nearest?_contains`, `Magnitude.nearest?_exact`, `Magnitude.digits_value`,
`ofScaled?_fifteen`.
-/
import RunDispatch.Proofs.Decimal.Shortest

namespace RunDispatch.Decimal

namespace Magnitude

/-! ### What is rounded lies in the interval -/

theorem roundQuotient_odd (n : Nat) {d : Nat} (hd : 0 < d) (h : roundQuotient n d % 2 = 1) :
    (roundQuotient n d : ℚ) - 1 / 2 < n / d ∧ (n / d : ℚ) < roundQuotient n d + 1 / 2 := by
  obtain ⟨hlow, hhigh⟩ := (roundQuotient_spec n hd).2.2 h
  have hpos : (0 : ℚ) < d := by exact_mod_cast hd
  have hlow' : (2 * (roundQuotient n d * d) : ℚ) < 2 * n + d := by exact_mod_cast hlow
  have hhigh' : (2 * n : ℚ) < 2 * (roundQuotient n d * d) + d := by exact_mod_cast hhigh
  constructor
  · rw [lt_div_iff₀ hpos]
    linarith
  · rw [div_lt_iff₀ hpos]
    linarith

/-- A number lies in the interval of a double if it does in units of the last place. -/
theorem contains_of_units {x : Magnitude} (hx : 0 < x.mantissa) {q : ℚ}
    (hlow : x.mantissa - x.below / 4 ≤ q) (hhigh : q ≤ x.mantissa + 1 / 2)
    (hodd : x.mantissa % 2 = 1 → x.mantissa - x.below / 4 < q ∧ q < x.mantissa + 1 / 2) :
    x.interval.Contains (q * 2 ^ x.exponent) := by
  have hunit : (0 : ℚ) < 2 ^ x.exponent := by positivity
  have hclosed : x.interval.closed = (x.mantissa % 2 == 0) := rfl
  have hl : x.value - x.below / 4 * 2 ^ x.exponent = (x.mantissa - x.below / 4) * 2 ^ x.exponent := by
    rw [value]
    ring
  have hh : x.value + 2 / 4 * 2 ^ x.exponent = (x.mantissa + 1 / 2) * 2 ^ x.exponent := by
    rw [value]
    ring
  unfold Interval.Contains
  rw [interval_low hx, interval_high, hl, hh, hclosed]
  split
  · exact ⟨mul_le_mul_of_nonneg_right hlow hunit.le, mul_le_mul_of_nonneg_right hhigh hunit.le⟩
  · rename_i hne
    have hmod : x.mantissa % 2 = 1 := by
      have : x.mantissa % 2 ≠ 0 := by simpa using hne
      omega
    obtain ⟨hlt, hgt⟩ := hodd hmod
    exact ⟨mul_lt_mul_of_pos_right hlt hunit, mul_lt_mul_of_pos_right hgt hunit⟩

theorem fullMantissa_eq : fullMantissa = 4503599627370496 := by decide

theorem fullMantissa_pos : 0 < fullMantissa := by decide

/-- A mantissa that is rounded without a carry. -/
theorem contains_plain {m : Nat} {e : Int} {q : ℚ} (hm : 0 < m) (hlow : (m : ℚ) - 1 / 2 ≤ q)
    (hhigh : q ≤ m + 1 / 2) (hodd : m % 2 = 1 → (m : ℚ) - 1 / 2 < q ∧ q < m + 1 / 2)
    (hfull : leastExponent < e → (fullMantissa : ℚ) ≤ q) :
    (⟨m, e⟩ : Magnitude).interval.Contains (q * 2 ^ e) := by
  by_cases hbelow : m = fullMantissa ∧ leastExponent < e
  · -- Below a power of two the step is half as wide, but what rounds to it lies above.
    have hb : (⟨m, e⟩ : Magnitude).below = 1 := if_pos hbelow
    have hq : (m : ℚ) ≤ q := hbelow.1 ▸ hfull hbelow.2
    refine contains_of_units hm ?_ hhigh fun h => ⟨?_, (hodd h).2⟩
    · rw [hb]
      push_cast
      linarith
    · rw [hb]
      push_cast
      linarith
  · have hb : (⟨m, e⟩ : Magnitude).below = 2 := if_neg hbelow
    refine contains_of_units hm ?_ hhigh fun h => ⟨?_, (hodd h).2⟩
    · rw [hb]
      push_cast
      linarith
    · have := (hodd h).1
      rw [hb]
      push_cast
      linarith

/-- A mantissa that is rounded up to the next power of two. -/
theorem contains_carry {e : Int} {q : ℚ} (hlow : (2 * fullMantissa : ℚ) - 1 / 2 ≤ q)
    (hlt : q < 2 * fullMantissa) (hleast : leastExponent ≤ e) :
    (⟨fullMantissa, e + 1⟩ : Magnitude).interval.Contains (q * 2 ^ e) := by
  have hb : (⟨fullMantissa, e + 1⟩ : Magnitude).below = 1 := if_pos ⟨rfl, Int.lt_add_one_of_le hleast⟩
  have hhalf : q * 2 ^ e = q / 2 * 2 ^ (e + 1) := by
    rw [zpow_add_one₀ two_ne_zero]
    ring
  rw [hhalf]
  have hfull : 0 < fullMantissa ∧ fullMantissa % 2 = 0 := by decide
  refine contains_of_units hfull.1 ?_ ?_ fun h => absurd (h.symm.trans hfull.2) one_ne_zero
  · rw [hb]
    push_cast
    linarith
  · simp only
    linarith

/-- **A quotient lies in the interval of the double nearest to it.** -/
theorem nearest?_contains {num den : Nat} {x : Magnitude} (hnum : num ≠ 0) (hden : 0 < den)
    (h : nearest? num den = some x) (hx : 0 < x.mantissa) : x.interval.Contains (num / den) := by
  obtain ⟨hleast, hlt, hfull⟩ := exponentFor_spec hnum hden
  have hpos := scaled_den_pos hden num (exponentFor num den)
  obtain ⟨hlow, hhigh⟩ := roundQuotient_bounds (scaled num den (exponentFor num den)).1 hpos
  have hodd := roundQuotient_odd (scaled num den (exponentFor num den)).1 hpos
  rw [scaled_div] at hlow hhigh hodd
  have hunit : (0 : ℚ) < 2 ^ exponentFor num den := by positivity
  have hq : (num / den : ℚ) = num / den / 2 ^ exponentFor num den * 2 ^ exponentFor num den := by
    rw [div_mul_cancel₀ _ hunit.ne']
  rw [← div_lt_iff₀ hunit] at hlt
  rw [← le_div_iff₀ hunit] at hfull
  have hx' := nearest?_eq_some hnum h
  rw [rounded] at hx'
  generalize exponentFor num den = e at *
  generalize roundQuotient _ _ = m at *
  rw [hq]
  generalize (num / den / 2 ^ e : ℚ) = q at *
  have h52 : (2 : ℚ) ^ (52 : Int) = fullMantissa := fullMantissa_cast.symm
  have h53 : (2 : ℚ) ^ (53 : Int) = 2 * fullMantissa := by
    rw [fullMantissa_cast, ← zpow_one_add₀ two_ne_zero]
    rfl
  rw [h52] at hfull
  rw [h53] at hlt
  subst hx'
  unfold carried at hx ⊢
  split
  · rename_i hm
    subst hm
    push_cast at hlow
    exact contains_carry hlow hlt hleast
  · rename_i hm
    rw [if_neg hm] at hx
    exact contains_plain hx hlow hhigh hodd hfull

/-! ### What is a double comes as it is -/

theorem carried_value (m : Nat) (e : Int) : (carried m e).value = m * 2 ^ e := by
  unfold carried
  split
  · rename_i hm
    rw [value, hm, zpow_add_one₀ two_ne_zero]
    push_cast
    ring
  · rfl

/-- A quotient that is a multiple of a unit, with a mantissa, is told in units no greater. -/
theorem exponentFor_le {num den : Nat} (hnum : num ≠ 0) (hden : 0 < den) {a : Nat} {j : Int}
    (hval : (num / den : ℚ) = a * 2 ^ j) (ha : a < 2 * fullMantissa) (hj : leastExponent ≤ j) :
    exponentFor num den ≤ j := by
  obtain ⟨-, -, hfull⟩ := exponentFor_spec hnum hden
  by_contra hlt
  have hle := hfull (by omega)
  have ha' : (a : ℚ) < 2 ^ (53 : Int) := by
    have : (a : ℚ) < (2 * fullMantissa : Nat) := by exact_mod_cast ha
    rwa [show (2 * fullMantissa : Nat) = 2 ^ 53 by decide] at this
  have hpow : (2 : ℚ) ^ (52 : Int) * 2 ^ exponentFor num den < 2 ^ (53 : Int) * 2 ^ j :=
    calc (2 : ℚ) ^ (52 : Int) * 2 ^ exponentFor num den ≤ num / den := hle
      _ = a * 2 ^ j := hval
      _ < 2 ^ (53 : Int) * 2 ^ j := by gcongr
  rw [← zpow_add₀ two_ne_zero, ← zpow_add₀ two_ne_zero, zpow_lt_zpow_iff_right₀ one_lt_two] at hpow
  omega

theorem eq_of_rounded {m n : Nat} (hlow : (m : ℚ) - 1 / 2 ≤ n) (hhigh : (n : ℚ) ≤ m + 1 / 2) : m = n := by
  have h1 : (m : ℚ) < (n + 1 : Nat) := by
    push_cast
    linarith
  have h2 : (n : ℚ) < (m + 1 : Nat) := by
    push_cast
    linarith
  have h1' : m < n + 1 := by exact_mod_cast h1
  have h2' : n < m + 1 := by exact_mod_cast h2
  omega

/-- **A quotient that is a double is rounded to itself.** -/
theorem nearest?_exact {num den : Nat} {x : Magnitude} (hden : 0 < den) {a : Nat} {j : Int}
    (hval : (num / den : ℚ) = a * 2 ^ j) (hpos : 0 < a) (ha : a < 2 * fullMantissa) (hj : leastExponent ≤ j)
    (h : nearest? num den = some x) : x.value = num / den := by
  have hnum : num ≠ 0 := by
    rintro rfl
    have : (0 : ℚ) < a * 2 ^ j := by positivity
    rw [← hval] at this
    simp at this
  have hscaled := scaled_den_pos hden num (exponentFor num den)
  obtain ⟨hlow, hhigh⟩ := roundQuotient_bounds (scaled num den (exponentFor num den)).1 hscaled
  rw [scaled_div, hval] at hlow hhigh
  rw [nearest?_eq_some hnum h, carried_value, hval, rounded]
  have hej := exponentFor_le hnum hden hval ha hj
  generalize exponentFor num den = e at *
  -- The quotient is a whole number of the units that it is rounded in.
  obtain ⟨k, hk⟩ := Int.eq_ofNat_of_zero_le (Int.sub_nonneg_of_le hej)
  have hunit : (0 : ℚ) < 2 ^ e := by positivity
  have hsplit : (2 : ℚ) ^ j = 2 ^ k * 2 ^ e := by
    rw [← zpow_natCast, ← zpow_add₀ two_ne_zero]
    congr 1
    omega
  have hwhole : (a : ℚ) * 2 ^ j / 2 ^ e = (a * 2 ^ k : Nat) := by
    rw [hsplit, ← mul_assoc, mul_div_cancel_right₀ _ hunit.ne']
    push_cast
    rfl
  rw [hwhole] at hlow hhigh
  rw [eq_of_rounded hlow hhigh, hsplit]
  push_cast
  ring

/-- What is not beyond the largest doubles has a nearest one. -/
theorem nearest?_isSome {num den : Nat} (hden : 0 < den) (h : (num / den : ℚ) < 2 ^ (200 : Int)) :
    (nearest? num den).isSome := by
  by_cases hnum : num = 0
  · subst hnum
    rfl
  · obtain ⟨-, -, hfull⟩ := exponentFor_spec hnum hden
    rw [nearest?_eq den hnum]
    have hexponent : (carried (rounded num den) (exponentFor num den)).exponent ≤ exponentFor num den + 1 := by
      unfold carried
      split
      · exact Int.le_refl _
      · exact Int.le_of_lt (Int.lt_succ _)
    have hle : exponentFor num den < 148 := by
      by_contra hge
      have hle := hfull (by simp only [leastExponent]; omega)
      rw [← zpow_add₀ two_ne_zero] at hle
      have hpow := hle.trans_lt h
      rw [zpow_lt_zpow_iff_right₀ one_lt_two] at hpow
      omega
    rw [if_neg (by simp only [greatestExponent]; omega)]
    rfl

/-- What is not among the smallest doubles has a full mantissa. -/
theorem nearest?_full {num den : Nat} {x : Magnitude} (hnum : num ≠ 0) (hden : 0 < den)
    (hge : (2 : ℚ) ^ (-200 : Int) ≤ num / den) (h : nearest? num den = some x) :
    fullMantissa ≤ x.mantissa := by
  obtain ⟨-, hlt, -⟩ := exponentFor_spec hnum hden
  have hpow := hge.trans_lt hlt
  rw [← zpow_add₀ two_ne_zero, zpow_lt_zpow_iff_right₀ one_lt_two] at hpow
  have hexponent : exponentFor num den ≤ x.exponent := by
    rw [nearest?_eq_some hnum h]
    unfold carried
    split
    · exact Int.le_of_lt (Int.lt_succ _)
    · exact Int.le_refl _
  refine (nearest?_normal hden h).full ?_
  simp only [leastExponent]
  omega

theorem num_div_den (x : Magnitude) : (x.num / x.den : ℚ) = x.value := by
  rw [value, num, den]
  rcases le_total 0 x.exponent with he | he
  · obtain ⟨k, hk⟩ := Int.eq_ofNat_of_zero_le he
    rw [hk]
    simp
  · obtain ⟨k, hk⟩ := Int.exists_eq_neg_ofNat he
    rw [hk]
    simp [div_eq_mul_inv]

theorem product_value (x y : Magnitude) :
    ((x.num * y.num : Nat) : ℚ) / (x.den * y.den : Nat) = x.value * y.value := by
  push_cast
  rw [mul_div_mul_comm, num_div_den, num_div_den]

theorem quotient_value (x y : Magnitude) :
    ((x.num * y.den : Nat) : ℚ) / (x.den * y.num : Nat) = x.value / y.value := by
  push_cast
  rw [mul_div_mul_comm, num_div_den, ← inv_div (y.num : ℚ), num_div_den, div_eq_mul_inv]

/-! ### Fifteen digits -/

/-- What lies in the interval of a double is close to it. -/
theorem Interval.Contains.close {x : Magnitude} (hx : fullMantissa ≤ x.mantissa) {r : ℚ}
    (h : x.interval.Contains r) :
    x.value - x.value / 9007199254740992 ≤ r ∧ r ≤ x.value + x.value / 9007199254740992 := by
  have hunit : (0 : ℚ) < 2 ^ x.exponent := by positivity
  have hhalf : 2 ^ x.exponent / 2 ≤ x.value / 9007199254740992 := by
    have hm : (4503599627370496 : ℚ) ≤ x.mantissa := by
      rw [fullMantissa_eq] at hx
      exact_mod_cast hx
    calc (2 : ℚ) ^ x.exponent / 2 = 4503599627370496 * 2 ^ x.exponent / 9007199254740992 := by ring
      _ ≤ x.mantissa * 2 ^ x.exponent / 9007199254740992 := by gcongr
      _ = x.value / 9007199254740992 := rfl
  have hbelow : (x.below : ℚ) / 4 * 2 ^ x.exponent ≤ 2 ^ x.exponent / 2 := by
    have hle : (x.below : ℚ) ≤ 2 := by
      unfold below
      split <;> norm_num
    calc (x.below : ℚ) / 4 * 2 ^ x.exponent ≤ 2 / 4 * 2 ^ x.exponent := by gcongr
      _ = 2 ^ x.exponent / 2 := by ring
  unfold Interval.Contains at h
  rw [interval_low (fullMantissa_pos.trans_le hx), interval_high] at h
  split at h
  · exact ⟨by linarith [h.1], by linarith [h.2]⟩
  · exact ⟨by linarith [h.1], by linarith [h.2]⟩

def step (x : Magnitude) : ℚ := 10 ^ Interval.grid x.leading 15

theorem step_pos (x : Magnitude) : 0 < x.step := by
  unfold step
  positivity

theorem grid_mul_pow {x : Magnitude} {k : Int} (h : Interval.grid x.leading 15 ≤ k) :
    ∃ n : Nat, (10 : ℚ) ^ k = (10 ^ n : Nat) * x.step := by
  obtain ⟨n, hn⟩ := Int.eq_ofNat_of_zero_le (Int.sub_nonneg_of_le h)
  refine ⟨n, ?_⟩
  push_cast
  rw [step, ← zpow_natCast, ← zpow_add₀ (by norm_num)]
  congr 1
  omega

/-- A double has fifteen digits before the step. -/
theorem step_bounds {x : Magnitude} (hx : 0 < x.mantissa) :
    100000000000000 * x.step ≤ x.value ∧ x.value < 1000000000000000 * x.step := by
  obtain ⟨hlow, hhigh⟩ := leading_bounds hx
  have h14 : (10 : ℚ) ^ x.leading = 10 ^ (14 : Int) * x.step := by
    rw [step, ← zpow_add₀ (by norm_num), Interval.grid]
    congr 1
    push_cast
    ring
  have h15 : (10 : ℚ) ^ (x.leading + 1) = 10 ^ (15 : Int) * x.step := by
    rw [step, ← zpow_add₀ (by norm_num), Interval.grid]
    congr 1
    push_cast
    ring
  rw [h14] at hlow
  rw [h15] at hhigh
  norm_num at hlow hhigh
  exact ⟨hlow, hhigh⟩

/-- A decimal of fifteen digits that lies in the interval is a multiple of the step. -/
theorem multiple_of_step {x : Magnitude} (hx : fullMantissa ≤ x.mantissa) {s : Nat} {k : Int}
    (hs : s < 1000000000000000) (h : x.interval.Contains (s * 10 ^ k)) :
    ∃ c : Nat, (s * 10 ^ k : ℚ) = c * x.step := by
  by_cases hk : Interval.grid x.leading 15 ≤ k
  · obtain ⟨n, hn⟩ := grid_mul_pow hk
    refine ⟨s * 10 ^ n, ?_⟩
    rw [hn]
    push_cast
    ring
  · -- The decimal would have more than fifteen digits.
    exfalso
    obtain ⟨hclose, -⟩ := h.close hx
    obtain ⟨hlow, -⟩ := step_bounds (fullMantissa_pos.trans_le hx)
    have hunit : (0 : ℚ) < 10 ^ k := by positivity
    have hstep : (10 : ℚ) ^ (k + 1) ≤ x.step := by
      unfold step
      exact zpow_le_zpow_right₀ (by norm_num) (by omega)
    rw [zpow_add_one₀ (by norm_num)] at hstep
    have hs' : (s : ℚ) + 1 ≤ 1000000000000000 := by exact_mod_cast hs
    have hmul := mul_le_mul_of_nonneg_right hs' hunit.le
    linarith

/-- Two multiples of the step do not lie in the interval of one double. -/
theorem eq_of_multiples {x : Magnitude} (hx : fullMantissa ≤ x.mantissa) {c d : Nat}
    (hc : x.interval.Contains (c * x.step)) (hd : x.interval.Contains (d * x.step)) : c = d := by
  obtain ⟨-, hhigh⟩ := step_bounds (fullMantissa_pos.trans_le hx)
  obtain ⟨hclow, hchigh⟩ := hc.close hx
  obtain ⟨hdlow, hdhigh⟩ := hd.close hx
  have hstep := x.step_pos
  have h1 : (c : ℚ) * x.step < (d + 1 : Nat) * x.step := by
    push_cast
    linarith
  have h2 : (d : ℚ) * x.step < (c + 1 : Nat) * x.step := by
    push_cast
    linarith
  have h1' : c < d + 1 := by exact_mod_cast lt_of_mul_lt_mul_right h1 hstep.le
  have h2' : d < c + 1 := by exact_mod_cast lt_of_mul_lt_mul_right h2 hstep.le
  omega

/-- **The digits of a double are those of a decimal of fifteen digits that lies in its interval.** -/
theorem digits_value {x : Magnitude} (hx : x.Normal) (hfull : fullMantissa ≤ x.mantissa) {s : Nat} {k : Int}
    (hs : s < 1000000000000000) (h : x.interval.Contains (s * 10 ^ k)) : x.digits.value = s * 10 ^ k := by
  obtain ⟨count, hshort⟩ := digits_shortest (fullMantissa_pos.trans_le hfull) hx.mantissa_lt
  obtain ⟨c, hc⟩ := multiple_of_step hfull hs h
  have hcount : count ≤ 15 := by
    by_contra hlt
    exact hshort.fewest 15 (by decide) (by omega) c (hc ▸ h)
  obtain ⟨d, -, -, hd⟩ := hshort.on_grid
  obtain ⟨n, hn⟩ := grid_mul_pow (x := x) (k := Interval.grid x.leading count)
    (by simp only [Interval.grid]; omega)
  have hvalue : x.digits.value = (d * 10 ^ n : Nat) * x.step := by
    rw [hd, hn]
    push_cast
    ring
  have hcontained := hshort.contained
  rw [hvalue] at hcontained
  rw [hc] at h
  rw [hvalue, hc, eq_of_multiples hfull hcontained h]

end Magnitude

/-! ### Reading -/

/-- The doubles of whole numbers that are doubles. -/
theorem Binary64.ofNat?_exact {n a : Nat} {j : Nat} (hn : n = a * 2 ^ j) (hpos : 0 < a)
    (ha : a < 2 * Magnitude.fullMantissa) (hlt : n < 10 ^ 30) :
    ∃ x : Binary64, ofNat? n = some x ∧ x.negative = false ∧ x.magnitude.value = n := by
  have hval : ((n : Nat) : ℚ) / (1 : Nat) = a * 2 ^ (j : Int) := by
    rw [hn, zpow_natCast]
    push_cast
    ring
  have hbound : ((n : Nat) : ℚ) / (1 : Nat) < 2 ^ (200 : Int) := by
    have hcast : (n : ℚ) < (10 ^ 30 : Nat) := by exact_mod_cast hlt
    have hpow : ((10 ^ 30 : Nat) : ℚ) ≤ 2 ^ (200 : Int) := by norm_num
    rw [Nat.cast_one, div_one]
    exact hcast.trans_le hpow
  obtain ⟨m, hm⟩ := Option.isSome_iff_exists.mp (Magnitude.nearest?_isSome Nat.one_pos hbound)
  have hj : Magnitude.leastExponent ≤ j := by
    simp only [Magnitude.leastExponent]
    omega
  have hvalue := Magnitude.nearest?_exact Nat.one_pos hval hpos ha hj hm
  rw [Nat.cast_one, div_one] at hvalue
  exact ⟨⟨false, m⟩, by rw [ofNat?, hm]; rfl, rfl, hvalue⟩

theorem Binary64.isZero_eq_false {x : Binary64} (h : x.magnitude.value ≠ 0) : x.isZero = false := by
  have hm : x.magnitude.mantissa ≠ 0 := by
    intro hm
    exact h (by rw [Magnitude.value, hm, Nat.cast_zero, zero_mul])
  simpa [isZero] using hm

/-- A power of ten up to 10^22 is a double. -/
theorem Binary64.powerOfTen?_exact {d : Nat} (hd : d ≤ 22) :
    ∃ p : Binary64, powerOfTen? d = some p ∧ p.negative = false ∧ p.isZero = false ∧
      p.magnitude.value = 10 ^ d := by
  have hfive : 5 ^ d < 2 * Magnitude.fullMantissa :=
    lt_of_le_of_lt (Nat.pow_le_pow_right (by decide) hd) (by decide)
  have hten : 10 ^ d < 10 ^ 30 := Nat.pow_lt_pow_right (by decide) (by omega)
  have hsplit : 10 ^ d = 5 ^ d * 2 ^ d := by rw [← Nat.mul_pow]
  obtain ⟨p, hp, hneg, hvalue⟩ := ofNat?_exact hsplit (Nat.pow_pos (by decide)) hfive hten
  have hten : p.magnitude.value = 10 ^ d := by
    rw [hvalue]
    push_cast
    rfl
  refine ⟨p, hp, hneg, isZero_eq_false ?_, hten⟩
  rw [hten]
  positivity

/-- **The double nearest to a decimal of fifteen digits is shown as that decimal.** -/
theorem Magnitude.nearest?_fifteen {num den s : Nat} {k : Int} (hden : 0 < den) (hpos : 0 < s)
    (hs : s < 1000000000000000) (hlow : -22 ≤ k) (hhigh : k ≤ 22) (hval : (num / den : ℚ) = s * 10 ^ k) :
    ∃ m, nearest? num den = some m ∧ 0 < m.mantissa ∧ m.digits.value = s * 10 ^ k := by
  have hs1 : (1 : ℚ) ≤ s := by exact_mod_cast hpos
  have hs15 : (s : ℚ) ≤ 1000000000000000 := by exact_mod_cast hs.le
  have hklow : (10 : ℚ) ^ (-22 : Int) ≤ 10 ^ k := zpow_le_zpow_right₀ (by norm_num) hlow
  have hkhigh : (10 : ℚ) ^ k ≤ 10 ^ (22 : Int) := zpow_le_zpow_right₀ (by norm_num) hhigh
  have hunit : (0 : ℚ) < 10 ^ k := by positivity
  have hge : (2 : ℚ) ^ (-200 : Int) ≤ num / den := by
    have hsmall : (2 : ℚ) ^ (-200 : Int) ≤ 10 ^ (-22 : Int) := by norm_num
    rw [hval]
    calc (2 : ℚ) ^ (-200 : Int) ≤ 10 ^ k := hsmall.trans hklow
      _ ≤ s * 10 ^ k := le_mul_of_one_le_left hunit.le hs1
  have hlt : (num / den : ℚ) < 2 ^ (200 : Int) := by
    have hbig : 1000000000000000 * (10 : ℚ) ^ (22 : Int) < 2 ^ (200 : Int) := by norm_num
    rw [hval]
    exact (mul_le_mul hs15 hkhigh hunit.le (by norm_num)).trans_lt hbig
  have hnum : num ≠ 0 := by
    rintro rfl
    rw [Nat.cast_zero, zero_div] at hval
    have : (0 : ℚ) < s * 10 ^ k := by positivity
    linarith
  obtain ⟨m, hm⟩ := Option.isSome_iff_exists.mp (nearest?_isSome hden hlt)
  have hfull := nearest?_full hnum hden hge hm
  have hmpos := fullMantissa_pos.trans_le hfull
  have hcontains := nearest?_contains hnum hden hm hmpos
  rw [hval] at hcontains
  exact ⟨m, hm, hmpos, digits_value (nearest?_normal hden hm) hfull hs hcontains⟩

theorem ofScaled?_eq {s : Nat} {k : Int} {x p : Binary64} (hx : Binary64.ofNat? s = some x)
    (hp : Binary64.powerOfTen? k.natAbs = some p) (hk : k.natAbs ≤ greatestPower) :
    ofScaled? s k = if k < 0 then some ((x.div? p).getD x) else x.mul? p := by
  rw [ofScaled?, hx, Option.bind_eq_bind, Option.bind_some]
  split
  · rw [dividedDown, if_pos hk, overPowerOfTen, hp, Option.bind_some]
    rfl
  · have hnat : k.toNat = k.natAbs := by omega
    rw [if_pos (by omega), hnat, hp, Option.bind_some]

/-- **A decimal of fifteen digits and a power of ten up to 10^22 is read as a double that is shown as that
decimal.** -/
theorem ofScaled?_fifteen {s : Nat} {k : Int} (hpos : 0 < s) (hs : s < 1000000000000000) (hlow : -22 ≤ k)
    (hhigh : k ≤ 22) :
    ∃ x, ofScaled? s k = some x ∧ x.negative = false ∧ x.isZero = false ∧
      x.magnitude.digits.value = s * 10 ^ k := by
  have hfull : 1000000000000000 < 2 * Magnitude.fullMantissa := by decide
  obtain ⟨x, hx, hxneg, hxval⟩ := Binary64.ofNat?_exact (n := s) (a := s) (j := 0) (by omega) hpos
    (hs.trans hfull) (hs.trans (by decide))
  obtain ⟨p, hp, hpneg, hnonzero, hpval⟩ := Binary64.powerOfTen?_exact (d := k.natAbs) (by omega)
  have hresult {num den : Nat} (hden : 0 < den) (hval : (num / den : ℚ) = s * 10 ^ k) :
      ∃ m, Magnitude.nearest? num den = some m ∧ (⟨false, m⟩ : Binary64).isZero = false ∧
        m.digits.value = s * 10 ^ k := by
    obtain ⟨m, hm, hmpos, hdigits⟩ := Magnitude.nearest?_fifteen hden hpos hs hlow hhigh hval
    exact ⟨m, hm, by simpa [Binary64.isZero] using hmpos.ne', hdigits⟩
  rw [ofScaled?_eq hx hp (by simp only [greatestPower]; omega)]
  by_cases hk : k < 0
  · have hpow : (10 : ℚ) ^ k = (10 ^ k.natAbs)⁻¹ := by
      rw [← zpow_natCast, ← zpow_neg]
      congr 1
      omega
    have hval := Magnitude.quotient_value x.magnitude p.magnitude
    rw [hxval, hpval, div_eq_mul_inv (s : ℚ), ← hpow] at hval
    obtain ⟨m, hm, hzero, hdigits⟩ := hresult (Nat.mul_pos x.den_pos (Binary64.num_pos hnonzero)) hval
    refine ⟨⟨false, m⟩, ?_, rfl, hzero, hdigits⟩
    rw [if_pos hk, Binary64.div?, hnonzero, if_neg Bool.false_ne_true, hm, hxneg, hpneg]
    rfl
  · have hpow : (10 : ℚ) ^ k = 10 ^ k.natAbs := by
      rw [← zpow_natCast]
      congr 1
      omega
    have hval := Magnitude.product_value x.magnitude p.magnitude
    rw [hxval, hpval, ← hpow] at hval
    obtain ⟨m, hm, hzero, hdigits⟩ := hresult (Nat.mul_pos x.den_pos p.den_pos) hval
    refine ⟨⟨false, m⟩, ?_, rfl, hzero, hdigits⟩
    rw [if_neg hk, Binary64.mul?, hm, hxneg, hpneg]
    rfl

theorem ofScaled?_zero {k : Int} (hlow : -22 ≤ k) (hhigh : k ≤ 22) :
    ∃ x, ofScaled? 0 k = some x ∧ x.negative = false ∧ x.isZero = true := by
  obtain ⟨p, hp, hpneg, hnonzero, -⟩ := Binary64.powerOfTen?_exact (d := k.natAbs) (by omega)
  have hzero : Binary64.ofNat? 0 = some (Binary64.zero false) := rfl
  have hnum : (Binary64.zero false).magnitude.num = 0 := Nat.zero_mul _
  refine ⟨.zero false, ?_, rfl, rfl⟩
  rw [ofScaled?_eq hzero hp (by simp only [greatestPower]; omega)]
  split
  · rw [Binary64.div?, hnonzero, if_neg Bool.false_ne_true, hnum, Nat.zero_mul, hpneg]
    rfl
  · rw [Binary64.mul?, hnum, Nat.zero_mul, hpneg]
    rfl

end RunDispatch.Decimal
