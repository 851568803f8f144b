/-
# The nearest double

A quotient of natural numbers is brought to a full mantissa, of 53 binary digits, by a power of two, and
rounded there to a whole number. The double that results has a mantissa below 2^53, and the quotient lies in
the interval of the numbers that round to it.

Key definitions: `Magnitude.value`, `Magnitude.Normal`.
Key theorems: `Magnitude.exponentFor_spec`, `Magnitude.roundQuotient_spec`, `Magnitude.nearest?_normal`,
`ofScaled?_normal`.
-/
import Mathlib.Algebra.Order.Field.Power
import Mathlib.Data.Rat.Cast.Order
import Mathlib.Tactic.FieldSimp
import Mathlib.Tactic.Linarith
import Mathlib.Tactic.NormNum
import Mathlib.Tactic.Positivity
import Mathlib.Tactic.Ring
import RunDispatch.Decimal.Scaled

namespace RunDispatch.Decimal

namespace Magnitude

def value (x : Magnitude) : ℚ := x.mantissa * 2 ^ x.exponent

/-- The mantissa of a double has 53 binary digits, or fewer at the least exponent. -/
structure Normal (x : Magnitude) : Prop where
  mantissa_lt : x.mantissa < 2 * fullMantissa
  least_le : leastExponent ≤ x.exponent
  full : leastExponent < x.exponent → fullMantissa ≤ x.mantissa

/-! ### Scaling by a power of two -/

theorem scaled_den_pos {den : Nat} (hden : 0 < den) (num : Nat) (e : Int) : 0 < (scaled num den e).2 := by
  unfold scaled
  split
  · exact Nat.mul_pos hden (Nat.two_pow_pos _)
  · exact hden

theorem scaled_div (num den : Nat) (e : Int) :
    ((scaled num den e).1 : ℚ) / (scaled num den e).2 = num / den / 2 ^ e := by
  unfold scaled
  split
  · rename_i he
    obtain ⟨k, rfl⟩ := Int.eq_ofNat_of_zero_le he
    simp [div_div]
  · rename_i he
    obtain ⟨k, hk⟩ := Int.exists_eq_neg_ofNat (le_of_not_ge he)
    subst hk
    simp [mul_div_right_comm]

theorem fullMantissa_cast : (fullMantissa : ℚ) = 2 ^ (52 : Int) := by
  simp only [fullMantissa, Nat.pow_eq]
  norm_num

theorem log2_bounds {n : Nat} (hn : n ≠ 0) :
    (2 : ℚ) ^ (n.log2 : Int) ≤ n ∧ (n : ℚ) < 2 ^ ((n.log2 : Int) + 1) := by
  constructor
  · rw [zpow_natCast]
    exact_mod_cast Nat.log2_self_le hn
  · have : n < 2 ^ (n.log2 + 1) := Nat.lt_log2_self
    have hcast : ((n.log2 : Int) + 1) = ((n.log2 + 1 : Nat) : Int) := by push_cast; rfl
    rw [hcast, zpow_natCast]
    exact_mod_cast this

/-- A quotient lies between the powers of two next to the difference of the logarithms. -/
theorem quotient_bounds {num den : Nat} (hnum : num ≠ 0) (hden : 0 < den) :
    (2 : ℚ) ^ ((num.log2 : Int) - den.log2 - 1) < num / den ∧
      (num / den : ℚ) < 2 ^ ((num.log2 : Int) - den.log2 + 1) := by
  have hpos : (0 : ℚ) < den := by exact_mod_cast hden
  obtain ⟨hlow, hhigh⟩ := log2_bounds hnum
  obtain ⟨hdlow, hdhigh⟩ := log2_bounds hden.ne'
  constructor
  · rw [lt_div_iff₀ hpos]
    calc (2 : ℚ) ^ ((num.log2 : Int) - den.log2 - 1) * den
        < 2 ^ ((num.log2 : Int) - den.log2 - 1) * 2 ^ ((den.log2 : Int) + 1) :=
          mul_lt_mul_of_pos_left hdhigh (by positivity)
      _ = 2 ^ (num.log2 : Int) := by
          rw [← zpow_add₀ two_ne_zero]
          congr 1
          ring
      _ ≤ num := hlow
  · rw [div_lt_iff₀ hpos]
    calc (num : ℚ) < 2 ^ ((num.log2 : Int) + 1) := hhigh
      _ = 2 ^ ((num.log2 : Int) - den.log2 + 1) * 2 ^ (den.log2 : Int) := by
          rw [← zpow_add₀ two_ne_zero]
          congr 1
          ring
      _ ≤ 2 ^ ((num.log2 : Int) - den.log2 + 1) * den := mul_le_mul_of_nonneg_left hdlow (by positivity)

/-- At its exponent a quotient has a full mantissa, or less if the exponent is the least. -/
theorem exponentFor_spec {num den : Nat} (hnum : num ≠ 0) (hden : 0 < den) :
    leastExponent ≤ exponentFor num den ∧
      (num / den : ℚ) < 2 ^ (53 : Int) * 2 ^ exponentFor num den ∧
      (leastExponent < exponentFor num den →
        2 ^ (52 : Int) * 2 ^ exponentFor num den ≤ (num / den : ℚ)) := by
  obtain ⟨hlow, hhigh⟩ := quotient_bounds hnum hden
  have hcond : (scaled num den ((num.log2 : Int) - den.log2 - 52)).2 * fullMantissa ≤
        (scaled num den ((num.log2 : Int) - den.log2 - 52)).1 ↔
      2 ^ (52 : Int) * 2 ^ ((num.log2 : Int) - den.log2 - 52) ≤ (num / den : ℚ) := by
    have hpos : (0 : ℚ) < (scaled num den ((num.log2 : Int) - den.log2 - 52)).2 := by
      exact_mod_cast scaled_den_pos hden num _
    rw [← le_div_iff₀ (by positivity), ← scaled_div, le_div_iff₀ hpos, ← fullMantissa_cast, mul_comm]
    exact_mod_cast Iff.rfl
  -- The exponent before it is held above the least one.
  obtain ⟨e, he, hlt, hle⟩ : ∃ e, exponentFor num den = max leastExponent e ∧
      (num / den : ℚ) < 2 ^ (53 : Int) * 2 ^ e ∧ 2 ^ (52 : Int) * 2 ^ e ≤ (num / den : ℚ) := by
    by_cases h : 2 ^ (52 : Int) * 2 ^ ((num.log2 : Int) - den.log2 - 52) ≤ (num / den : ℚ)
    · refine ⟨(num.log2 : Int) - den.log2 - 52, ?_, ?_, h⟩
      · simp only [exponentFor, hcond, if_pos h]
      · refine hhigh.trans_le (le_of_eq ?_)
        rw [← zpow_add₀ two_ne_zero]
        congr 1
        ring
    · refine ⟨(num.log2 : Int) - den.log2 - 52 - 1, ?_, ?_, ?_⟩
      · simp only [exponentFor, hcond, if_neg h]
      · refine (not_le.mp h).trans_le (le_of_eq ?_)
        rw [← zpow_add₀ two_ne_zero, ← zpow_add₀ two_ne_zero]
        congr 1
        ring
      · refine le_of_eq_of_le ?_ hlow.le
        rw [← zpow_add₀ two_ne_zero]
        congr 1
        ring
  rw [he]
  refine ⟨le_max_left _ _, hlt.trans_le ?_, fun hl => ?_⟩
  · gcongr
    · norm_num
    · exact le_max_right _ _
  · rw [max_eq_right]
    · exact hle
    · rcases le_total leastExponent e with h | h
      · exact h
      · rw [max_eq_left h] at hl
        exact absurd hl (lt_irrefl _)

/-! ### Rounding -/

/-- A rounded quotient is half a unit away at most, and less if it is odd. -/
theorem roundQuotient_spec (n : Nat) {d : Nat} (hd : 0 < d) :
    2 * (roundQuotient n d * d) ≤ 2 * n + d ∧ 2 * n ≤ 2 * (roundQuotient n d * d) + d ∧
      (roundQuotient n d % 2 = 1 →
        2 * (roundQuotient n d * d) < 2 * n + d ∧ 2 * n < 2 * (roundQuotient n d * d) + d) := by
  have hdiv : n / d * d + n % d = n := by
    rw [Nat.mul_comm]
    exact Nat.div_add_mod n d
  have hmod := Nat.mod_lt n hd
  have hsucc : (n / d + 1) * d = n / d * d + d := Nat.succ_mul _ _
  unfold roundQuotient
  simp only
  split
  · exact ⟨by omega, by omega, fun _ => ⟨by omega, by omega⟩⟩
  · split
    · rw [hsucc]
      exact ⟨by omega, by omega, fun _ => ⟨by omega, by omega⟩⟩
    · -- On a tie the rounded quotient is even.
      rcases Nat.mod_two_eq_zero_or_one (n / d) with heven | hodd
      · rw [heven, Nat.add_zero]
        exact ⟨by omega, by omega, fun h => absurd h (by omega)⟩
      · rw [hodd, hsucc]
        exact ⟨by omega, by omega, fun h => absurd h (by omega)⟩

theorem roundQuotient_bounds (n : Nat) {d : Nat} (hd : 0 < d) :
    (roundQuotient n d : ℚ) - 1 / 2 ≤ n / d ∧ (n / d : ℚ) ≤ roundQuotient n d + 1 / 2 := by
  obtain ⟨hlow, hhigh, -⟩ := roundQuotient_spec n hd
  have hpos : (0 : ℚ) < d := by exact_mod_cast hd
  have hlow' : (2 * (roundQuotient n d * d) : ℚ) ≤ 2 * n + d := by exact_mod_cast hlow
  have hhigh' : (2 * n : ℚ) ≤ 2 * (roundQuotient n d * d) + d := by exact_mod_cast hhigh
  constructor
  · rw [le_div_iff₀ hpos]
    linarith
  · rw [div_le_iff₀ hpos]
    linarith

/-- What is rounded has a full mantissa too, or the first of the next exponent. -/
theorem roundQuotient_mantissa {num den : Nat} (hnum : num ≠ 0) (hden : 0 < den) :
    roundQuotient (scaled num den (exponentFor num den)).1 (scaled num den (exponentFor num den)).2 ≤
        2 * fullMantissa ∧
      (leastExponent < exponentFor num den →
        fullMantissa ≤ roundQuotient (scaled num den (exponentFor num den)).1
          (scaled num den (exponentFor num den)).2) := by
  obtain ⟨-, hlt, hfull⟩ := exponentFor_spec hnum hden
  obtain ⟨hlow, hhigh⟩ := roundQuotient_bounds (scaled num den (exponentFor num den)).1
    (scaled_den_pos hden num (exponentFor num den))
  rw [scaled_div] at hlow hhigh
  generalize roundQuotient _ _ = m at hlow hhigh
  have hunit : (0 : ℚ) < 2 ^ exponentFor num den := by positivity
  have hfullMantissa : fullMantissa = 2 ^ 52 := rfl
  constructor
  · rw [← div_lt_iff₀ hunit] at hlt
    have hm : (m : ℚ) < ((2 ^ 53 + 1 : Nat) : ℚ) := by
      push_cast
      have : (2 : ℚ) ^ (53 : Int) = 2 ^ 53 := by norm_cast
      linarith
    have hm' : m < 2 ^ 53 + 1 := by exact_mod_cast hm
    omega
  · intro hl
    have hle := hfull hl
    rw [← le_div_iff₀ hunit] at hle
    have hm : ((2 ^ 52 : Nat) : ℚ) < ((m + 1 : Nat) : ℚ) := by
      push_cast
      have : (2 : ℚ) ^ (52 : Int) = 2 ^ 52 := by norm_cast
      linarith
    have hm' : 2 ^ 52 < m + 1 := by exact_mod_cast hm
    omega

theorem carry_lt : fullMantissa < 2 * fullMantissa := by decide

theorem zero_normal : zero.Normal where
  mantissa_lt := by decide
  least_le := by decide
  full := fun h => absurd h (by decide)

def rounded (num den : Nat) : Nat :=
  roundQuotient (scaled num den (exponentFor num den)).1 (scaled num den (exponentFor num den)).2

/-- A mantissa, or the first of the next exponent. -/
def carried (m : Nat) (e : Int) : Magnitude :=
  if m = 2 * fullMantissa then ⟨fullMantissa, e + 1⟩ else ⟨m, e⟩

theorem nearest?_eq {num : Nat} (den : Nat) (hnum : num ≠ 0) :
    nearest? num den =
      if greatestExponent < (carried (rounded num den) (exponentFor num den)).exponent then none
      else some (carried (rounded num den) (exponentFor num den)) := by
  rw [nearest?, if_neg hnum]
  extract_lets e
  -- The match is split by hand: reducing it would unfold the scaling.
  split
  rename_i n d hs
  have hrounded : rounded num den = roundQuotient n d := by rw [rounded, hs]
  rw [hrounded]
  rfl

theorem nearest?_eq_some {num den : Nat} {x : Magnitude} (hnum : num ≠ 0)
    (h : nearest? num den = some x) : x = carried (rounded num den) (exponentFor num den) := by
  rw [nearest?_eq den hnum] at h
  split at h
  · cases h
  · exact (Option.some.inj h).symm

/-- The nearest double has a full mantissa. -/
theorem nearest?_normal {num den : Nat} {x : Magnitude} (hden : 0 < den)
    (h : nearest? num den = some x) : x.Normal := by
  by_cases hnum : num = 0
  · subst hnum
    cases h
    exact zero_normal
  · rw [nearest?_eq_some hnum h, carried]
    obtain ⟨hle, hfull⟩ := roundQuotient_mantissa hnum hden
    have hleast := (exponentFor_spec hnum hden).1
    split
    · exact ⟨carry_lt, Int.le_trans hleast (Int.le_of_lt (Int.lt_succ _)), fun _ => Nat.le_refl _⟩
    · rename_i hne
      exact ⟨Nat.lt_of_le_of_ne hle hne, hleast, hfull⟩

end Magnitude

/-! ### Doubles -/

namespace Binary64

theorem zero_normal (negative : Bool) : (zero negative).magnitude.Normal := Magnitude.zero_normal

theorem num_pos {x : Binary64} (h : x.isZero = false) : 0 < x.magnitude.num := by
  have hm : x.magnitude.mantissa ≠ 0 := by simpa [isZero] using h
  exact Nat.mul_pos (Nat.pos_of_ne_zero hm) (Nat.two_pow_pos _)

theorem den_pos (x : Binary64) : 0 < x.magnitude.den := Nat.two_pow_pos _

theorem ofNat?_normal {n : Nat} {x : Binary64} (h : ofNat? n = some x) : x.magnitude.Normal := by
  obtain ⟨m, hm, rfl⟩ := Option.map_eq_some_iff.mp h
  exact Magnitude.nearest?_normal Nat.one_pos hm

theorem mul?_normal {x y z : Binary64} (h : x.mul? y = some z) : z.magnitude.Normal := by
  obtain ⟨m, hm, rfl⟩ := Option.map_eq_some_iff.mp h
  exact Magnitude.nearest?_normal (Nat.mul_pos x.den_pos y.den_pos) hm

theorem div?_normal {x y z : Binary64} (h : x.div? y = some z) : z.magnitude.Normal := by
  unfold div? at h
  split at h
  · cases h
  · rename_i hy
    obtain ⟨m, hm, rfl⟩ := Option.map_eq_some_iff.mp h
    exact Magnitude.nearest?_normal (Nat.mul_pos x.den_pos (num_pos (by simpa using hy))) hm

end Binary64

theorem overPowerOfTen_normal {x : Binary64} (hx : x.magnitude.Normal) (d : Nat) :
    (overPowerOfTen x d).magnitude.Normal := by
  unfold overPowerOfTen
  cases h : (Binary64.powerOfTen? d).bind x.div? with
  | none => exact hx
  | some y =>
    obtain ⟨p, -, hy⟩ := Option.bind_eq_some_iff.mp h
    exact Binary64.div?_normal hy

theorem dividedDown_normal {x : Binary64} (hx : x.magnitude.Normal) (d : Nat) :
    (dividedDown x d).magnitude.Normal := by
  induction d using Nat.strongRecOn generalizing x with
  | ind d ih =>
    unfold dividedDown
    split
    · exact overPowerOfTen_normal hx d
    · rename_i hd
      split
      · exact hx
      · refine ih _ ?_ (overPowerOfTen_normal hx greatestPower)
        simp only [greatestPower] at hd ⊢
        omega

/-- The double that is read of digits and a power of ten has a full mantissa. -/
theorem ofScaled?_normal {s : Nat} {e : Int} {x : Binary64} (h : ofScaled? s e = some x) :
    x.magnitude.Normal := by
  obtain ⟨y, hy, h⟩ := Option.bind_eq_some_iff.mp h
  have hynormal := Binary64.ofNat?_normal hy
  split at h
  · cases h
    exact dividedDown_normal hynormal _
  · split at h
    · obtain ⟨p, -, h⟩ := Option.bind_eq_some_iff.mp h
      exact Binary64.mul?_normal h
    · split at h
      · cases h
        exact hynormal
      · cases h

end RunDispatch.Decimal
