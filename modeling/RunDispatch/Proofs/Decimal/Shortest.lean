/-
# The fewest digits that read back

The numbers that round to a double form an interval. A decimal of so many digits lies in it if one of the
two neighbours of the double does on the grid of these digits, so the search for the fewest digits misses
none. Seventeen digits always suffice, so what is written of a double that is not zero is not zero either.

Key definitions: `Magnitude.Interval.Contains`, `Digits.value`.
Key theorems: `Interval.digitsOf?_sound`, `Interval.digitsOf?_complete`, `search_found`, `digits_shortest`.
-/
import RunDispatch.Decimal.Shortest
import RunDispatch.Proofs.Decimal.Nearest

namespace RunDispatch.Decimal

namespace Magnitude

/-! ### Intervals -/

namespace Interval

/-- A number lies between the ends, or at one of them if they belong to the interval. -/
def Contains (i : Interval) (r : ℚ) : Prop :=
  if i.closed then (i.low / i.den : ℚ) ≤ r ∧ r ≤ i.high / i.den
  else (i.low / i.den : ℚ) < r ∧ r < i.high / i.den

theorem holds_iff {i : Interval} (hden : 0 < i.den) (p : Nat) {q : Nat} (hq : 0 < q) :
    i.holds p q = true ↔ i.Contains (p / q) := by
  have hd : (0 : ℚ) < i.den := by exact_mod_cast hden
  have hq' : (0 : ℚ) < q := by exact_mod_cast hq
  unfold holds Contains
  cases i.closed with
  | true =>
    simp only [if_true, Bool.and_eq_true, decide_eq_true_eq, div_le_div_iff₀ hd hq', div_le_div_iff₀ hq' hd]
    norm_cast
  | false =>
    simp only [Bool.false_eq_true, if_false, Bool.and_eq_true, decide_eq_true_eq, div_lt_div_iff₀ hd hq',
      div_lt_div_iff₀ hq' hd]
    norm_cast

theorem contains_of_lt {i : Interval} {r : ℚ} (hlow : (i.low / i.den : ℚ) < r) (hhigh : r < i.high / i.den) :
    i.Contains r := by
  unfold Contains
  split
  · exact ⟨hlow.le, hhigh.le⟩
  · exact ⟨hlow, hhigh⟩

theorem Contains.between {i : Interval} {a b r : ℚ} (ha : i.Contains a) (hb : i.Contains b) (har : a ≤ r)
    (hrb : r ≤ b) : i.Contains r := by
  unfold Contains at *
  split at ha
  · rename_i h
    rw [if_pos h] at hb ⊢
    exact ⟨ha.1.trans har, hrb.trans hb.2⟩
  · rename_i h
    rw [if_neg h] at hb ⊢
    exact ⟨ha.1.trans_le har, hrb.trans_lt hb.2⟩

/-! ### Decimals on a grid -/

def grid (leading : Int) (count : Nat) : Int := leading - count + 1

theorem grid_div (c : Nat) (g : Int) :
    ((c * Nat.pow 10 g.toNat : Nat) : ℚ) / (Nat.pow 10 (-g).toNat : Nat) = c * 10 ^ g := by
  rcases le_total 0 g with hg | hg
  · obtain ⟨k, rfl⟩ := Int.eq_ofNat_of_zero_le hg
    simp
  · obtain ⟨k, rfl⟩ := Int.exists_eq_neg_ofNat hg
    simp [div_eq_mul_inv]

def neighbour (i : Interval) (leading : Int) (count : Nat) : Nat :=
  i.mid * Nat.pow 10 (-grid leading count).toNat / (i.den * Nat.pow 10 (grid leading count).toNat)

theorem neighbour_bounds {i : Interval} (hden : 0 < i.den) (leading : Int) (count : Nat) :
    (i.neighbour leading count : ℚ) * 10 ^ grid leading count ≤ i.mid / i.den ∧
      (i.mid / i.den : ℚ) < (i.neighbour leading count + 1 : Nat) * 10 ^ grid leading count := by
  have hd : (0 : ℚ) < i.den := by exact_mod_cast hden
  have hdown : 0 < Nat.pow 10 (-grid leading count).toNat := Nat.pow_pos (by decide)
  have hup : 0 < Nat.pow 10 (grid leading count).toNat := Nat.pow_pos (by decide)
  have hdown' : (0 : ℚ) < (Nat.pow 10 (-grid leading count).toNat : Nat) := by exact_mod_cast hdown
  rw [← grid_div, ← grid_div, div_le_div_iff₀ hdown' hd, div_lt_div_iff₀ hd hdown']
  have hle := Nat.div_mul_le_self (i.mid * Nat.pow 10 (-grid leading count).toNat)
    (i.den * Nat.pow 10 (grid leading count).toNat)
  have hlt := Nat.lt_mul_div_succ (i.mid * Nat.pow 10 (-grid leading count).toNat)
    (Nat.mul_pos hden hup)
  constructor
  · have hcast : i.neighbour leading count * Nat.pow 10 (grid leading count).toNat * i.den ≤
        i.mid * Nat.pow 10 (-grid leading count).toNat := by
      rw [Nat.mul_assoc, Nat.mul_comm _ i.den]
      exact hle
    exact_mod_cast hcast
  · have hcast : i.mid * Nat.pow 10 (-grid leading count).toNat <
        (i.neighbour leading count + 1) * Nat.pow 10 (grid leading count).toNat * i.den := by
      rw [Nat.mul_assoc, Nat.mul_comm (i.neighbour leading count + 1), Nat.mul_comm _ i.den]
      exact hlt
    exact_mod_cast hcast

/-- What is found on a grid is a neighbour of the middle, and lies in the interval. -/
theorem digitsOf?_sound {i : Interval} (hden : 0 < i.den) {leading : Int} {count : Nat} {d : Digits}
    (h : i.digitsOf? leading count = some d) :
    d.leading = leading ∧
      (d.coefficient = i.neighbour leading count ∨ d.coefficient = i.neighbour leading count + 1) ∧
      i.Contains (d.coefficient * 10 ^ grid leading count) := by
  have hdown : 0 < Nat.pow 10 (-grid leading count).toNat := Nat.pow_pos (by decide)
  have hin (c : Nat) (hc : i.holds (c * Nat.pow 10 (grid leading count).toNat)
      (Nat.pow 10 (-grid leading count).toNat) = true) : i.Contains (c * 10 ^ grid leading count) := by
    rw [← grid_div]
    exact (holds_iff hden _ hdown).mp hc
  unfold digitsOf? at h
  simp only at h
  split at h
  · cases h
  · rename_i hlow hhigh
    cases h
    exact ⟨rfl, .inl rfl, hin _ hlow⟩
  · rename_i hlow hhigh
    cases h
    exact ⟨rfl, .inr rfl, hin _ hhigh⟩
  · rename_i hlow hhigh
    split at h
    · cases h
      exact ⟨rfl, .inl rfl, hin _ hlow⟩
    · cases h
      exact ⟨rfl, .inr rfl, hin _ hhigh⟩

/-- If a number of the grid lies in the interval, something is found. -/
theorem digitsOf?_complete {i : Interval} (hden : 0 < i.den) (hmid : i.Contains (i.mid / i.den))
    {leading : Int} {count : Nat} {c : Nat} (hc : i.Contains (c * 10 ^ grid leading count)) :
    (i.digitsOf? leading count).isSome := by
  have hdown : 0 < Nat.pow 10 (-grid leading count).toNat := Nat.pow_pos (by decide)
  have hgrid : (0 : ℚ) < 10 ^ grid leading count := by positivity
  obtain ⟨hlow, hhigh⟩ := neighbour_bounds hden leading count
  have hholds (n : Nat) (hn : i.Contains (n * 10 ^ grid leading count)) :
      i.holds (n * Nat.pow 10 (grid leading count).toNat) (Nat.pow 10 (-grid leading count).toNat) = true := by
    rw [holds_iff hden _ hdown, grid_div]
    exact hn
  have hone : i.holds (i.neighbour leading count * Nat.pow 10 (grid leading count).toNat)
        (Nat.pow 10 (-grid leading count).toNat) = true ∨
      i.holds ((i.neighbour leading count + 1) * Nat.pow 10 (grid leading count).toNat)
        (Nat.pow 10 (-grid leading count).toNat) = true := by
    rcases Nat.lt_or_ge (i.neighbour leading count) c with hlt | hge
    · right
      refine hholds _ (hmid.between hc hhigh.le ?_)
      gcongr
      exact_mod_cast hlt
    · left
      refine hholds _ (hc.between hmid ?_ hlow)
      gcongr
  unfold digitsOf?
  simp only
  split
  · rename_i h1 h2
    rcases hone with h | h
    · cases h.symm.trans h1
    · cases h.symm.trans h2
  · rfl
  · rfl
  · split <;> rfl

/-- The search ends at the first grid with a hit. -/
theorem search_spec {i : Interval} {leading : Int} {more count : Nat}
    (h : ∃ j, count ≤ j ∧ j < count + more ∧ (i.digitsOf? leading j).isSome) :
    ∃ j, count ≤ j ∧ j < count + more ∧ i.digitsOf? leading j = some (i.search leading more count) ∧
      ∀ k, count ≤ k → k < j → i.digitsOf? leading k = none := by
  induction more generalizing count with
  | zero =>
    obtain ⟨j, hle, hlt, -⟩ := h
    omega
  | succ more ih =>
    rw [search]
    cases hd : i.digitsOf? leading count with
    | some d => exact ⟨count, le_refl _, by omega, hd, fun k hle hlt => by omega⟩
    | none =>
      obtain ⟨j, hle, hlt, hj⟩ := h
      have hne : j ≠ count := by
        rintro rfl
        rw [hd] at hj
        cases hj
      have hrest : ∃ k, count + 1 ≤ k ∧ k < count + 1 + more ∧ (i.digitsOf? leading k).isSome :=
        ⟨j, by omega, by omega, hj⟩
      obtain ⟨k, hk, hklt, hfound, hnone⟩ := ih hrest
      refine ⟨k, by omega, by omega, hfound, fun l hl hlk => ?_⟩
      rcases Nat.eq_or_lt_of_le hl with rfl | hlt'
      · exact hd
      · exact hnone l hlt' hlk

end Interval

/-! ### The interval of a double -/

theorem interval_den_pos (x : Magnitude) : 0 < x.interval.den := Nat.two_pow_pos _

/-- A part of the last place, in quarters. -/
theorem quarter_div (c : Nat) (e : Int) :
    ((c * Nat.pow 2 (e - 2).toNat : Nat) : ℚ) / (Nat.pow 2 (-(e - 2)).toNat : Nat) = c / 4 * 2 ^ e := by
  have hsplit : (2 : ℚ) ^ (e - 2) = 2 ^ e / 4 := by
    rw [zpow_sub₀ two_ne_zero]
    norm_num
  have hpow : ((c * Nat.pow 2 (e - 2).toNat : Nat) : ℚ) / (Nat.pow 2 (-(e - 2)).toNat : Nat) =
      c * 2 ^ (e - 2) := by
    rcases le_total 0 (e - 2) with he | he
    · obtain ⟨k, hk⟩ := Int.eq_ofNat_of_zero_le he
      rw [hk]
      simp
    · obtain ⟨k, hk⟩ := Int.exists_eq_neg_ofNat he
      rw [hk]
      simp [div_eq_mul_inv]
  rw [hpow, hsplit]
  ring

/-- How far the interval reaches down, in quarters of the last place. -/
def below (x : Magnitude) : Nat :=
  if x.mantissa = fullMantissa ∧ leastExponent < x.exponent then 1 else 2

theorem interval_low {x : Magnitude} (hx : 0 < x.mantissa) :
    (x.interval.low / x.interval.den : ℚ) = x.value - x.below / 4 * 2 ^ x.exponent := by
  have hle : x.below ≤ 4 * x.mantissa := by
    have : x.below ≤ 2 := by
      unfold below
      split <;> decide
    omega
  have hlow : (x.interval.low / x.interval.den : ℚ) =
      ((4 * x.mantissa - x.below : Nat) : ℚ) / 4 * 2 ^ x.exponent := quarter_div _ _
  rw [hlow, Nat.cast_sub hle, value]
  push_cast
  ring

theorem interval_mid (x : Magnitude) : (x.interval.mid / x.interval.den : ℚ) = x.value := by
  have hmid : (x.interval.mid / x.interval.den : ℚ) = ((4 * x.mantissa : Nat) : ℚ) / 4 * 2 ^ x.exponent :=
    quarter_div _ _
  rw [hmid, value]
  push_cast
  ring

theorem interval_high (x : Magnitude) :
    (x.interval.high / x.interval.den : ℚ) = x.value + 2 / 4 * 2 ^ x.exponent := by
  have hhigh : (x.interval.high / x.interval.den : ℚ) =
      ((4 * x.mantissa + 2 : Nat) : ℚ) / 4 * 2 ^ x.exponent := quarter_div _ _
  rw [hhigh, value]
  push_cast
  ring

theorem contains_of_close {x : Magnitude} (hx : 0 < x.mantissa) {r : ℚ}
    (hlow : x.value - x.below / 4 * 2 ^ x.exponent < r) (hhigh : r < x.value + 2 / 4 * 2 ^ x.exponent) :
    x.interval.Contains r := by
  apply Interval.contains_of_lt
  · rwa [interval_low hx]
  · rwa [interval_high]

theorem contains_self {x : Magnitude} (hx : 0 < x.mantissa) :
    x.interval.Contains (x.interval.mid / x.interval.den) := by
  have hunit : (0 : ℚ) < 2 ^ x.exponent := by positivity
  have hbelow : (0 : ℚ) < x.below := by
    unfold below
    split <;> norm_num
  rw [interval_mid]
  apply contains_of_close hx
  · have : (0 : ℚ) < x.below / 4 * 2 ^ x.exponent := by positivity
    linarith
  · linarith

/-! ### The power of the first digit -/

theorem digitCount_bounds {n : Nat} (hn : 0 < n) :
    0 < digitCount n ∧ 10 ^ (digitCount n - 1) ≤ n ∧ n < 10 ^ digitCount n := by
  have hcount : digitCount n = (Nat.toDigits 10 n).length := if_neg hn.ne'
  have hpos : 0 < (Nat.toDigits 10 n).length := List.length_pos_iff.mpr Nat.toDigits_ne_nil
  rw [hcount]
  refine ⟨hpos, ?_, ?_⟩
  · rcases Nat.eq_or_lt_of_le hpos with hone | hmore
    · rw [← hone]
      exact hn
    · by_contra hlt
      have := (Nat.length_toDigits_le_iff (by decide) (by omega)).mpr (Nat.lt_of_not_le hlt)
      omega
  · exact (Nat.length_toDigits_le_iff (by decide) hpos).mp (le_refl _)

/-- The power of the first digit of a quotient is that of the quotient. -/
theorem leadingPower_bounds {num den : Nat} (hnum : 0 < num) (hden : 0 < den) :
    (10 : ℚ) ^ leadingPower num den ≤ num / den ∧ (num / den : ℚ) < 10 ^ (leadingPower num den + 1) := by
  have hd : (0 : ℚ) < den := by exact_mod_cast hden
  unfold leadingPower
  by_cases hle : den ≤ num
  · obtain ⟨hpos, hlow, hhigh⟩ := digitCount_bounds (Nat.div_pos hle hden)
    rw [if_pos hle, le_div_iff₀ hd, div_lt_iff₀ hd]
    have hlead : ((digitCount (num / den) : Int) - 1) = ((digitCount (num / den) - 1 : Nat) : Int) := by omega
    constructor
    · rw [hlead, zpow_natCast]
      exact_mod_cast (Nat.le_div_iff_mul_le hden).mp hlow
    · rw [Int.sub_add_cancel, zpow_natCast]
      exact_mod_cast (Nat.div_lt_iff_lt_mul hden).mp hhigh
  · rw [if_neg hle]
    have hn : (0 : ℚ) < num := by exact_mod_cast hnum
    obtain ⟨hpos, hlow, hhigh⟩ := digitCount_bounds
      (Nat.div_pos (show num ≤ den - 1 by omega) hnum)
    have hden' : den < num * 10 ^ digitCount ((den - 1) / num) + 1 := by
      have := (Nat.div_lt_iff_lt_mul hnum).mp hhigh
      rw [Nat.mul_comm] at this
      omega
    have hnum' : num * 10 ^ (digitCount ((den - 1) / num) - 1) < den := by
      have := (Nat.le_div_iff_mul_le hnum).mp hlow
      rw [Nat.mul_comm] at this
      omega
    constructor
    · rw [zpow_neg, zpow_natCast, le_div_iff₀ hd, inv_mul_le_iff₀ (by positivity), mul_comm]
      exact_mod_cast Nat.lt_succ_iff.mp hden'
    · have hlead : (-(digitCount ((den - 1) / num) : Int) + 1) =
          -((digitCount ((den - 1) / num) - 1 : Nat) : Int) := by omega
      rw [hlead, zpow_neg, zpow_natCast, div_lt_iff₀ hd, lt_inv_mul_iff₀ (by positivity), mul_comm]
      exact_mod_cast hnum'

def leading (x : Magnitude) : Int := leadingPower x.interval.mid x.interval.den

theorem leading_bounds {x : Magnitude} (hx : 0 < x.mantissa) :
    (10 : ℚ) ^ x.leading ≤ x.value ∧ x.value < 10 ^ (x.leading + 1) := by
  have hmid : 0 < x.interval.mid :=
    Nat.mul_pos (Nat.mul_pos (by decide) hx) (Nat.two_pow_pos _)
  have := leadingPower_bounds hmid x.interval_den_pos
  rwa [interval_mid] at this

/-! ### Seventeen digits suffice -/

/-- The half step of seventeen digits is less than the interval reaches to either side. -/
theorem half_step_lt {x : Magnitude} (hx : 0 < x.mantissa) (hlt : x.mantissa < 2 * fullMantissa) :
    10 ^ Interval.grid x.leading 17 / 2 < (x.below : ℚ) / 4 * 2 ^ x.exponent := by
  have hunit : (0 : ℚ) < 2 ^ x.exponent := by positivity
  have hstep : (10 : ℚ) ^ Interval.grid x.leading 17 * 10 ^ 16 = 10 ^ x.leading := by
    rw [Interval.grid, ← zpow_natCast, ← zpow_add₀ (by norm_num)]
    congr 1
    push_cast
    ring
  have hle := (leading_bounds hx).1
  rw [← hstep, value] at hle
  have hfull : (fullMantissa : ℚ) = 4503599627370496 := by
    have : fullMantissa = 4503599627370496 := by decide
    exact_mod_cast this
  unfold below
  split
  · rename_i h
    rw [h.1, hfull] at hle
    push_cast
    linarith
  · have hm : (x.mantissa : ℚ) < 2 * 4503599627370496 := by
      rw [← hfull]
      exact_mod_cast hlt
    have hmul : (x.mantissa : ℚ) * 2 ^ x.exponent < 2 * 4503599627370496 * 2 ^ x.exponent :=
      mul_lt_mul_of_pos_right hm hunit
    push_cast
    linarith

theorem seventeen_digits {x : Magnitude} (hx : 0 < x.mantissa) (hlt : x.mantissa < 2 * fullMantissa) :
    (x.interval.digitsOf? x.leading 17).isSome := by
  have hstep := half_step_lt hx hlt
  have hunit : (0 : ℚ) < 2 ^ x.exponent := by positivity
  have hbelow : (x.below : ℚ) ≤ 2 := by
    unfold below
    split <;> norm_num
  have hhalf : (x.below : ℚ) / 4 * 2 ^ x.exponent ≤ 2 / 4 * 2 ^ x.exponent := by gcongr
  obtain ⟨hlow, hhigh⟩ := Interval.neighbour_bounds x.interval_den_pos x.leading 17
  rw [interval_mid] at hlow hhigh
  push_cast at hhigh
  -- One of the two neighbours is half a step away at most.
  rcases le_total (x.value - x.interval.neighbour x.leading 17 * 10 ^ Interval.grid x.leading 17)
    (10 ^ Interval.grid x.leading 17 / 2) with h | h
  · refine Interval.digitsOf?_complete x.interval_den_pos (contains_self hx)
      (c := x.interval.neighbour x.leading 17) (contains_of_close hx ?_ ?_)
    · linarith
    · have : 0 < (10 : ℚ) ^ Interval.grid x.leading 17 := by positivity
      linarith
  · refine Interval.digitsOf?_complete x.interval_den_pos (contains_self hx)
      (c := x.interval.neighbour x.leading 17 + 1) (contains_of_close hx ?_ ?_)
    · push_cast
      linarith
    · push_cast
      linarith

/-- The digits of a double are those of the first grid with a hit. -/
theorem search_found {x : Magnitude} (hx : 0 < x.mantissa) (hlt : x.mantissa < 2 * fullMantissa) :
    ∃ j, 1 ≤ j ∧ j ≤ 17 ∧
      x.interval.digitsOf? x.leading j = some (x.interval.search x.leading 17 1) ∧
      ∀ k, 1 ≤ k → k < j → x.interval.digitsOf? x.leading k = none := by
  have hsome : ∃ j, 1 ≤ j ∧ j < 1 + 17 ∧ (x.interval.digitsOf? x.leading j).isSome :=
    ⟨17, by decide, by decide, seventeen_digits hx hlt⟩
  obtain ⟨j, hle, hj, hfound, hnone⟩ := Interval.search_spec hsome
  exact ⟨j, hle, by omega, hfound, hnone⟩

/-- The neighbour of the middle has as many digits as the grid. -/
theorem neighbour_range {x : Magnitude} (hx : 0 < x.mantissa) {count : Nat} (hcount : 1 ≤ count) :
    10 ^ (count - 1) ≤ x.interval.neighbour x.leading count ∧
      x.interval.neighbour x.leading count < 10 ^ count := by
  obtain ⟨hlow, hhigh⟩ := Interval.neighbour_bounds x.interval_den_pos x.leading count
  obtain ⟨hle, hlt⟩ := leading_bounds hx
  have hgrid : (0 : ℚ) < 10 ^ Interval.grid x.leading count := by positivity
  have hfirst : (10 : ℚ) ^ x.leading = (10 ^ (count - 1) : Nat) * 10 ^ Interval.grid x.leading count := by
    push_cast
    rw [Interval.grid, ← zpow_natCast, ← zpow_add₀ (by norm_num)]
    congr 1
    omega
  have hnext : (10 : ℚ) ^ (x.leading + 1) = (10 ^ count : Nat) * 10 ^ Interval.grid x.leading count := by
    push_cast
    rw [Interval.grid, ← zpow_natCast, ← zpow_add₀ (by norm_num)]
    congr 1
    ring
  rw [interval_mid] at hlow hhigh
  rw [hfirst] at hle
  rw [hnext] at hlt
  constructor
  · have hcast : ((10 ^ (count - 1) : Nat) : ℚ) < (x.interval.neighbour x.leading count + 1 : Nat) :=
      lt_of_mul_lt_mul_right (hle.trans_lt hhigh) hgrid.le
    exact Nat.lt_succ_iff.mp (by exact_mod_cast hcast)
  · have hcast : ((x.interval.neighbour x.leading count : Nat) : ℚ) < (10 ^ count : Nat) :=
      lt_of_mul_lt_mul_right (hlow.trans_lt hlt) hgrid.le
    exact_mod_cast hcast

end Magnitude

def Digits.value (d : Digits) : ℚ := d.coefficient * 10 ^ (d.leading + 1 - digitCount d.coefficient)

theorem digitCount_eq {n k : Nat} (hk : 1 ≤ k) (hlow : 10 ^ (k - 1) ≤ n) (hhigh : n < 10 ^ k) :
    digitCount n = k := by
  have hn : 0 < n := lt_of_lt_of_le (Nat.pow_pos (by decide)) hlow
  obtain ⟨hpos, hle, hlt⟩ := Magnitude.digitCount_bounds hn
  have h1 : k - 1 < digitCount n := (Nat.pow_lt_pow_iff_right (by decide)).mp (hlow.trans_lt hlt)
  have h2 : digitCount n - 1 < k := (Nat.pow_lt_pow_iff_right (by decide)).mp (hle.trans_lt hhigh)
  omega

namespace Magnitude

/-- The digits of a double: a number of so many digits in its interval, and no number of fewer digits lies
there. -/
structure Shortest (x : Magnitude) (count : Nat) (d : Digits) : Prop where
  one_le : 1 ≤ count
  le_seventeen : count ≤ 17
  pos : 0 < d.coefficient
  on_grid : ∃ c : Nat, 0 < c ∧ c ≤ 10 ^ count ∧ d.value = c * 10 ^ Interval.grid x.leading count
  contained : x.interval.Contains d.value
  fewest : ∀ k, 1 ≤ k → k < count → ∀ c : Nat, ¬ x.interval.Contains (c * 10 ^ Interval.grid x.leading k)

theorem value_of_count {c j : Nat} (hj : 1 ≤ j) (hlow : 10 ^ (j - 1) ≤ c) (hhigh : c < 10 ^ j) (l : Int) :
    (⟨c, l⟩ : Digits).value = c * 10 ^ Interval.grid l j := by
  rw [Digits.value, digitCount_eq hj hlow hhigh, Interval.grid]
  congr 2
  ring

theorem value_of_ten (l : Int) : (⟨1, l + 1⟩ : Digits).value = (10 : Nat) * 10 ^ Interval.grid l 1 := by
  have hcount : digitCount 1 = 1 := by decide
  have hsplit : ((10 : Nat) : ℚ) * 10 ^ Interval.grid l 1 = 10 ^ (1 : Int) * 10 ^ Interval.grid l 1 := by norm_num
  rw [Digits.value, hcount, hsplit, ← zpow_add₀ (by norm_num), Interval.grid, Nat.cast_one, one_mul]
  congr 1
  push_cast
  ring

/-- A power of ten in the interval is found among the decimals of one digit. -/
theorem one_of_power {x : Magnitude} {j n : Nat} (h1 : 1 ≤ j) (hn : j ≤ n + 1)
    (hin : x.interval.Contains ((10 ^ n : Nat) * 10 ^ Interval.grid x.leading j))
    (hfewest : ∀ k, 1 ≤ k → k < j → ∀ c : Nat, ¬ x.interval.Contains (c * 10 ^ Interval.grid x.leading k)) :
    j = 1 := by
  by_contra hj
  refine hfewest 1 (le_refl 1) (by omega) (10 ^ (n + 1 - j)) ?_
  have hsame : ((10 ^ (n + 1 - j) : Nat) : ℚ) * 10 ^ Interval.grid x.leading 1 =
      (10 ^ n : Nat) * 10 ^ Interval.grid x.leading j := by
    push_cast
    rw [← zpow_natCast, ← zpow_natCast, ← zpow_add₀ (by norm_num), ← zpow_add₀ (by norm_num)]
    congr 1
    simp only [Interval.grid]
    omega
  rw [hsame]
  exact hin

/-- **The digits of a double are the shortest.** -/
theorem digits_shortest {x : Magnitude} (hx : 0 < x.mantissa) (hlt : x.mantissa < 2 * fullMantissa) :
    ∃ count, x.Shortest count x.digits := by
  obtain ⟨j, h1, h17, hfound, hnone⟩ := search_found hx hlt
  obtain ⟨hlead, hcoeff, hin⟩ := Interval.digitsOf?_sound x.interval_den_pos hfound
  obtain ⟨hlow, hhigh⟩ := neighbour_range hx h1
  have hfewest : ∀ k, 1 ≤ k → k < j → ∀ c : Nat,
      ¬ x.interval.Contains (c * 10 ^ Interval.grid x.leading k) := by
    intro k hk hkj c hc
    have hsome := Interval.digitsOf?_complete x.interval_den_pos (contains_self hx) hc
    rw [hnone k hk hkj] at hsome
    cases hsome
  have hdigits : x.digits = if (x.interval.search x.leading 17 1).coefficient = 10 then
      ⟨1, (x.interval.search x.leading 17 1).leading + 1⟩ else x.interval.search x.leading 17 1 := rfl
  generalize x.interval.search x.leading 17 1 = d at hlead hcoeff hin hdigits
  obtain ⟨c, l⟩ := d
  simp only at hlead hcoeff hin hdigits
  subst hlead
  have hlow' : 10 ^ (j - 1) ≤ c := by omega
  have hhigh' : c ≤ 10 ^ j := by omega
  have hpos : 0 < c := lt_of_lt_of_le (Nat.pow_pos (by decide)) hlow'
  have hvalue : x.digits.value = c * 10 ^ Interval.grid x.leading j ∧ 0 < x.digits.coefficient := by
    by_cases hten : c = 10
    · subst hten
      have hle : j ≤ 1 + 1 := by
        have := (Nat.pow_le_pow_iff_right (show 1 < 10 by decide)).mp (show 10 ^ (j - 1) ≤ 10 ^ 1 from hlow')
        omega
      have hj : j = 1 := one_of_power (n := 1) h1 hle hin hfewest
      rw [hdigits, if_pos rfl, hj]
      exact ⟨value_of_ten x.leading, Nat.one_pos⟩
    · have hlt' : c < 10 ^ j := by
        refine lt_of_le_of_ne hhigh' fun hc => hten ?_
        subst hc
        rw [one_of_power h1 (Nat.le_succ j) hin hfewest]
        rfl
      rw [hdigits, if_neg hten]
      exact ⟨value_of_count h1 hlow' hlt' x.leading, hpos⟩
  exact ⟨j, h1, h17, hvalue.2, ⟨c, hpos, hhigh', hvalue.1⟩, hvalue.1 ▸ hin, hfewest⟩

end Magnitude

end RunDispatch.Decimal
