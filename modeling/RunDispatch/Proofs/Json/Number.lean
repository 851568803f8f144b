/-
# Numbers as they are read

The reader of numbers takes the longest literal that a text begins with, and what it makes of the literal
depends on the literal alone. The digits before the point are gathered into a significand until the next one
does not fit 64 bits, those after the point likewise. Digits that are left over before the point move the
point; those left over after it are dropped. A literal without point and exponent whose digits all fit is a
whole number; everything else is a double.

Key definitions: `Literal.number`, `Reads`.
Key theorems: `readNumber_reads`, `lex?_of_readNumber`, `readNumber_of_lex?`.
-/
import RunDispatch.Proofs.Json.Grammar

namespace RunDispatch.Json

/-! ### Digits -/

def NoDigitNext (r : List Char) : Prop := ∀ c ∈ r.head?, isDigit c = false

abbrev AllDigits (ds : List Char) : Prop := ∀ c ∈ ds, isDigit c = true

theorem noDigitNext_dropWhile (cs : List Char) : NoDigitNext (cs.dropWhile isDigit) := by
  intro c hc
  have := List.head?_dropWhile_not isDigit cs
  rw [Option.mem_def.mp hc] at this
  simpa using this

theorem allDigits_takeWhile (cs : List Char) : AllDigits (cs.takeWhile isDigit) :=
  List.all_eq_true.mp List.all_takeWhile

theorem takeWhile_digits {ds r : List Char} (hd : AllDigits ds) (hr : NoDigitNext r) :
    (ds ++ r).takeWhile isDigit = ds ∧ (ds ++ r).dropWhile isDigit = r := by
  have htake : r.takeWhile isDigit = [] := by
    cases r with
    | nil => rfl
    | cons c t => exact List.takeWhile_cons_of_neg (by simp [hr c rfl])
  have hdrop : r.dropWhile isDigit = r := by
    cases r with
    | nil => rfl
    | cons c t => exact List.dropWhile_cons_of_neg (by simp [hr c rfl])
  rw [List.takeWhile_append_of_pos hd, List.dropWhile_append_of_pos hd, htake, hdrop, List.append_nil]
  exact ⟨rfl, rfl⟩

/-- The digits at the beginning of a text are the longest there. -/
theorem digits?_eq_some {cs ds r : List Char} :
    digits? cs = some (ds, r) ↔ ds ≠ [] ∧ AllDigits ds ∧ NoDigitNext r ∧ cs = ds ++ r := by
  unfold digits?
  constructor
  · intro h
    split at h
    · cases h
    · rename_i hne
      cases h
      exact ⟨hne, allDigits_takeWhile cs, noDigitNext_dropWhile cs, List.takeWhile_append_dropWhile.symm⟩
  · rintro ⟨hne, hd, hr, rfl⟩
    obtain ⟨htake, hdrop⟩ := takeWhile_digits hd hr
    rw [htake, hdrop, if_neg hne]

theorem digits?_eq_none {cs : List Char} : digits? cs = none ↔ NoDigitNext cs := by
  unfold digits?
  constructor
  · intro h
    split at h
    · rename_i hnil
      intro c hc
      cases cs with
      | nil => cases hc
      | cons d t =>
        cases hc
        by_cases hd : isDigit c
        · rw [List.takeWhile_cons_of_pos hd] at hnil
          cases hnil
        · simpa using hd
    · cases h
  · intro h
    rw [if_pos]
    cases cs with
    | nil => rfl
    | cons c t => exact List.takeWhile_cons_of_neg (by simp [h c rfl])

/-! ### Gathering digits -/

theorem ofDigitChars_step (c : Char) (t : List Char) (s : Nat) :
    Nat.ofDigitChars 10 (c :: t) s = Nat.ofDigitChars 10 t (s * 10 + digitValue c) := by
  rw [Nat.ofDigitChars_cons, Nat.mul_comm]
  rfl

theorem gatherDigits_append {ds r : List Char} (hd : AllDigits ds) (hr : NoDigitNext r) (s k : Nat) :
    gatherDigits s k (ds ++ r) =
      ((gatherDigits s k ds).1, (gatherDigits s k ds).2.1, (gatherDigits s k ds).2.2 ++ r) := by
  induction ds generalizing s k with
  | nil =>
    cases r with
    | nil => rfl
    | cons c t => simp [gatherDigits, hr c rfl]
  | cons c t ih =>
    have hc : isDigit c = true := hd c (by simp)
    have ht : AllDigits t := fun d hd' => hd d (by simp [hd'])
    simp only [List.cons_append, gatherDigits, hc, if_true]
    split
    · rfl
    · exact ih ht _ _

/-- What is gathered of digits is the digits up to the first that does not fit. -/
theorem gatherDigits_spec (ds : List Char) (hd : AllDigits ds) (s k : Nat) :
    ∃ taken, ds = taken ++ (gatherDigits s k ds).2.2 ∧
      (gatherDigits s k ds).1 = Nat.ofDigitChars 10 taken s ∧
      (gatherDigits s k ds).2.1 = k + taken.length := by
  induction ds generalizing s k with
  | nil => exact ⟨[], rfl, rfl, rfl⟩
  | cons c t ih =>
    have hc : isDigit c = true := hd c (by simp)
    have ht : AllDigits t := fun d hd' => hd d (by simp [hd'])
    simp only [gatherDigits, hc, if_true]
    split
    · exact ⟨[], rfl, rfl, rfl⟩
    · obtain ⟨taken, hsplit, hvalue, hcount⟩ := ih ht (s * 10 + digitValue c) (k + 1)
      refine ⟨c :: taken, by rw [List.cons_append, ← hsplit], ?_, ?_⟩
      · rw [hvalue, ofDigitChars_step]
      · rw [hcount, List.length_cons]
        omega

theorem le_ofDigitChars (ds : List Char) (s : Nat) : s ≤ Nat.ofDigitChars 10 ds s := by
  induction ds generalizing s with
  | nil => exact Nat.le_refl s
  | cons c t ih =>
    rw [Nat.ofDigitChars_cons]
    exact Nat.le_trans (by omega) (ih _)

theorem gatherDigits_fit {ds : List Char} (hd : AllDigits ds) {s : Nat} (k : Nat)
    (hfit : Nat.ofDigitChars 10 ds s < wordLimit) :
    gatherDigits s k ds = (Nat.ofDigitChars 10 ds s, k + ds.length, []) := by
  induction ds generalizing s k with
  | nil => rfl
  | cons c t ih =>
    have hc : isDigit c = true := hd c (by simp)
    have ht : AllDigits t := fun d hd' => hd d (by simp [hd'])
    rw [ofDigitChars_step] at hfit ⊢
    have hle := le_ofDigitChars t (s * 10 + digitValue c)
    rw [gatherDigits, if_pos hc]
    simp only
    rw [if_neg (by omega), ih ht (k + 1) hfit, List.length_cons, Nat.add_assoc, Nat.add_comm 1]

theorem gatherDigits_lt (ds : List Char) {s : Nat} (k : Nat) (hs : s < wordLimit) :
    (gatherDigits s k ds).1 < wordLimit := by
  induction ds generalizing s k with
  | nil => exact hs
  | cons c t ih =>
    rw [gatherDigits]
    split
    · simp only
      split
      · exact hs
      · exact ih (k + 1) (by omega)
    · exact hs

theorem gatherDigits_count (ds : List Char) (s j k : Nat) :
    (gatherDigits s j ds).1 = (gatherDigits s k ds).1 ∧
      (gatherDigits s j ds).2.2 = (gatherDigits s k ds).2.2 := by
  induction ds generalizing s j k with
  | nil => exact ⟨rfl, rfl⟩
  | cons c t ih =>
    simp only [gatherDigits]
    split
    · split
      · exact ⟨rfl, rfl⟩
      · exact ih _ _ _
    · exact ⟨rfl, rfl⟩

theorem gatherExponent_append {ds r : List Char} (hd : AllDigits ds) (hr : NoDigitNext r) (v : Nat) :
    gatherExponent v (ds ++ r) = ((gatherExponent v ds).1, r) := by
  induction ds generalizing v with
  | nil =>
    cases r with
    | nil => rfl
    | cons c t => simp [gatherExponent, hr c rfl]
  | cons c t ih =>
    have hc : isDigit c = true := hd c (by simp)
    have ht : AllDigits t := fun d hd' => hd d (by simp [hd'])
    simp only [List.cons_append, gatherExponent, hc, if_true]
    split
    · rw [(takeWhile_digits ht hr).2]
    · exact ih ht _

/-! ### What a literal is read as -/

/-- The number of gathered digits with an exponent. -/
def Gathered.scaledBy (g : Gathered) : Option (Bool × List Char) → Except Failure Number
  | none => g.double
  | some (down, digits) =>
    match (gatherExponent 0 digits).1 with
    | some e => ({ g with exponent := g.exponent + if down then -(e : Int) else e } : Gathered).double
    | none =>
      if g.significand ≠ 0 ∧ ¬ down then refuse .numberOutOfRange
      else .ok (.double (.zero g.negative))

/-- The gathered digits with those after a point. -/
def Gathered.withFraction (g : Gathered) (digits : List Char) : Gathered :=
  { g with
    significand := (gatherDigits g.significand 0 digits).1
    exponent := g.exponent - (gatherDigits g.significand 0 digits).2.1 }

/-- The number of a gathered whole part with the digits after the point and the exponent. -/
def Gathered.number (g : Gathered) (fraction : List Char) (exponent : Option (Bool × List Char)) :
    Except Failure Number :=
  if g.exponent = 0 ∧ fraction = [] ∧ exponent = none then g.whole
  else (g.withFraction fraction).scaledBy exponent

/-- The digits before a point, gathered. -/
def Gathered.ofWhole (negative : Bool) (digits : List Char) : Gathered :=
  ⟨negative, (gatherDigits 0 0 digits).1, (gatherDigits 0 0 digits).2.2.length⟩

/-- The number that a literal is read as. -/
def Literal.number (l : Literal) : Except Failure Number :=
  (Gathered.ofWhole l.negative l.whole).number l.fraction l.exponent

@[simp] theorem Gathered.withFraction_nil (g : Gathered) : g.withFraction [] = g := by
  simp [Gathered.withFraction, gatherDigits]

/-- What is read is what is told, and nothing is read if nothing is told. -/
def Reads {α : Type} (told : Option (Except Failure α)) (x : Except Failure α) : Prop :=
  match told with
  | some y => x = y
  | none => ∃ f, x = .error f

def leaving (r : List Char) (x : Except Failure Number) : Except Failure (Number × List Char) :=
  x.map fun n => (n, r)

/-- Reads the digits of an exponent whose sign is read. -/
def readPower (g : Gathered) (down : Bool) : List Char → Except Failure (Number × List Char)
  | [] => refuse .endInValue
  | c :: r =>
    if !isDigit c then refuse .invalidNumber
    else match gatherExponent (digitValue c) r with
      | (some e, rest) => do
        let e : Int := if down then -(e : Int) else e
        return (← ({ g with exponent := g.exponent + e } : Gathered).double, rest)
      | (none, rest) =>
        if g.significand ≠ 0 ∧ ¬ down then refuse .numberOutOfRange
        else .ok (.double (.zero g.negative), rest)

theorem readExponent_eq (g : Gathered) (cs : List Char) :
    readExponent g cs = readPower g (Literal.exponentSign cs).1 (Literal.exponentSign cs).2 := by
  unfold Literal.exponentSign
  split
  · rfl
  · rfl
  · rename_i hplus hminus
    unfold readExponent
    split
    rename_i ht
    split at ht
    · exact absurd rfl (hplus _)
    · exact absurd rfl (hminus _)
    · cases ht
      rfl

theorem digitValue_le {c : Char} (hc : isDigit c) : digitValue c ≤ 9 := by
  simp only [isDigit, Bool.and_eq_true, decide_eq_true_eq, Char.le_def, UInt32.le_iff_toNat_le] at hc
  exact Nat.sub_le_sub_right hc.2 48

theorem gatherExponent_first {c : Char} (hc : isDigit c) (ds : List Char) :
    gatherExponent 0 (c :: ds) = gatherExponent (digitValue c) ds := by
  have hval := digitValue_le hc
  have hlimit : exponentLimit = 2147483647 := by decide
  rw [gatherExponent, if_pos hc]
  simp only [Nat.zero_mul, Nat.zero_add]
  rw [if_neg (by omega)]

theorem readPower_reads (g : Gathered) (down : Bool) (cs : List Char) :
    Reads ((digits? cs).map fun p => leaving p.2 (g.scaledBy (some (down, p.1))))
      (readPower g down cs) := by
  cases hd : digits? cs with
  | none =>
    have hn := digits?_eq_none.mp hd
    cases cs with
    | nil => exact ⟨_, rfl⟩
    | cons c r =>
      rw [readPower, if_pos (by simp [hn c rfl])]
      exact ⟨_, rfl⟩
  | some p =>
    obtain ⟨ds, r⟩ := p
    obtain ⟨hne, hall, hr, rfl⟩ := digits?_eq_some.mp hd
    obtain ⟨c, ds, rfl⟩ := List.exists_cons_of_ne_nil hne
    have hc : isDigit c = true := hall c (by simp)
    have hrest : AllDigits ds := fun d hd' => hall d (by simp [hd'])
    have hread : readPower g down (c :: ds ++ r) = leaving r (g.scaledBy (some (down, c :: ds))) := by
      rw [List.cons_append, readPower, if_neg (by simp [hc]), gatherExponent_append hrest hr,
        Gathered.scaledBy, gatherExponent_first hc]
      cases (gatherExponent (digitValue c) ds).1 with
      | some e => rfl
      | none =>
        simp only [leaving]
        split <;> rfl
    exact hread

theorem readAfterDigits_reads (g : Gathered) (cs : List Char) :
    Reads ((Literal.exponent? cs).map fun p => leaving p.2 (g.scaledBy p.1)) (readAfterDigits g cs) := by
  cases cs with
  | nil => rfl
  | cons c t =>
    by_cases hc : c = 'e' ∨ c = 'E'
    · have hread : readAfterDigits g (c :: t) = readExponent g t := by
        rcases hc with rfl | rfl <;> rfl
      rw [hread, readExponent_eq, Literal.exponent?, if_pos hc, Option.map_map]
      exact readPower_reads g _ _
    · have hread : readAfterDigits g (c :: t) = leaving (c :: t) g.double := by
        unfold readAfterDigits
        split
        · rename_i h
          cases h
          exact absurd (.inl rfl) hc
        · rename_i h
          cases h
          exact absurd (.inr rfl) hc
        · rfl
      rw [Literal.exponent?, if_neg hc]
      exact hread

theorem readFraction_of_none (g : Gathered) {cs : List Char} (h : digits? cs = none) :
    ∃ f, readFraction g cs = .error f := by
  have hn := digits?_eq_none.mp h
  cases cs with
  | nil => exact ⟨_, rfl⟩
  | cons c t =>
    have hc : isDigit c = false := hn c rfl
    simp only [readFraction, gatherDigits, hc, if_true, Bool.false_eq_true, if_false]
    exact ⟨_, rfl⟩

theorem readFraction_of_digits (g : Gathered) {cs ds r : List Char} (h : digits? cs = some (ds, r)) :
    readFraction g cs = readAfterDigits (g.withFraction ds) r := by
  obtain ⟨hne, hall, hr, rfl⟩ := digits?_eq_some.mp h
  obtain ⟨taken, hsplit, -, hcount⟩ := gatherDigits_spec ds hall g.significand 0
  simp only [readFraction, gatherDigits_append hall hr, Gathered.withFraction]
  generalize gatherDigits g.significand 0 ds = p at hsplit hcount
  obtain ⟨s, k, left⟩ := p
  cases left with
  | nil =>
    -- All digits are gathered, and there is one at least.
    have hk : k ≠ 0 := by
      have hpos := List.length_pos_iff.mpr hne
      have hds : ds = taken := by simpa using hsplit
      have hlen : k = taken.length := by simpa using hcount
      rw [hds] at hpos
      omega
    cases r with
    | nil => simp [hk]
    | cons c t => simp [hk, hr c rfl]
  | cons c t =>
    have hleft : AllDigits (c :: t) := fun d hd => hall d (hsplit ▸ List.mem_append_right taken hd)
    have hdrop := (takeWhile_digits hleft hr).2
    simp only [List.cons_append, hleft c List.mem_cons_self, if_true]
    rw [← List.cons_append, hdrop]

theorem ne_of_isDigit {c d : Char} (hc : isDigit c = true) (hd : isDigit d = false) : c ≠ d := by
  rintro rfl
  exact absurd hc (by simp [hd])

/-- Digits that did not fit move the point. -/
theorem readAfterWhole_left (negative : Bool) (s : Nat) {left r : List Char} (hl : AllDigits left)
    (hr : NoDigitNext r) (hne : left ≠ []) :
    (∀ t, r = '.' :: t →
      readAfterWhole ⟨negative, s, 0⟩ (left ++ r) = readFraction ⟨negative, s, left.length⟩ t) ∧
    ((∀ t, r ≠ '.' :: t) →
      readAfterWhole ⟨negative, s, 0⟩ (left ++ r) = readAfterDigits ⟨negative, s, left.length⟩ r) := by
  obtain ⟨htake, hdrop⟩ := takeWhile_digits hl hr
  obtain ⟨c, t, rfl⟩ := List.exists_cons_of_ne_nil hne
  have hc : isDigit c = true := hl c List.mem_cons_self
  rw [List.cons_append] at htake hdrop ⊢
  unfold readAfterWhole
  split
  · rename_i h
    exact absurd (List.cons.inj h).1 (ne_of_isDigit hc (by decide))
  · rename_i h
    exact absurd (List.cons.inj h).1 (ne_of_isDigit hc (by decide))
  · rename_i h
    exact absurd (List.cons.inj h).1 (ne_of_isDigit hc (by decide))
  · rw [htake]
    simp only
    rw [hdrop]
    constructor
    · rintro t rfl
      rfl
    · intro hpoint
      split
      · exact absurd rfl (hpoint _)
      · rfl

/-- A number has no exponent exactly if no letter comes next. -/
theorem exponent?_eq_none {r t : List Char} (h : Literal.exponent? r = some (none, t)) :
    t = r ∧ ∀ u, r ≠ 'e' :: u ∧ r ≠ 'E' :: u := by
  cases r with
  | nil =>
    cases h
    exact ⟨rfl, fun _ => ⟨nofun, nofun⟩⟩
  | cons c u =>
    rw [Literal.exponent?] at h
    split at h
    · cases hd : digits? (Literal.exponentSign u).2 <;> simp [hd] at h
    · rename_i hc
      cases h
      refine ⟨rfl, fun v => ⟨?_, ?_⟩⟩ <;> rintro hv <;> cases hv
      · exact hc (.inl rfl)
      · exact hc (.inr rfl)

/-- Without a point, a number is whole if all its digits were gathered and no exponent comes next. -/
theorem readAfterWhole_no_point (negative : Bool) (s : Nat) {left r : List Char} (hl : AllDigits left)
    (hr : NoDigitNext r) (hno : ∀ t, r ≠ '.' :: t) :
    readAfterWhole ⟨negative, s, 0⟩ (left ++ r) =
      if left = [] ∧ Literal.exponent? r = some (none, r) then
        leaving r (⟨negative, s, 0⟩ : Gathered).whole
      else readAfterDigits ⟨negative, s, left.length⟩ r := by
  by_cases hne : left = []
  · subst hne
    have htake : r.takeWhile isDigit = [] := (takeWhile_digits hl hr).1
    rw [List.nil_append]
    unfold readAfterWhole
    split
    · exact absurd rfl (hno _)
    · rw [if_neg fun h => ((exponent?_eq_none h.2).2 _).1 rfl]
      rfl
    · rw [if_neg fun h => ((exponent?_eq_none h.2).2 _).2 rfl]
      rfl
    · rename_i he hE
      have hx : Literal.exponent? r = some (none, r) := by
        cases r with
        | nil => rfl
        | cons c u =>
          rw [Literal.exponent?, if_neg]
          rintro (rfl | rfl)
          · exact he _ rfl
          · exact hE _ rfl
      rw [htake, if_pos ⟨rfl, hx⟩]
      rfl
  · rw [if_neg fun h => hne h.1]
    exact (readAfterWhole_left negative s hl hr hne).2 hno

/-- What a number goes on with after the digits before the point that were gathered. -/
theorem readAfterWhole_reads (negative : Bool) (s : Nat) {left r : List Char} (hl : AllDigits left)
    (hr : NoDigitNext r) :
    Reads (do
        let (fraction, r) ← Literal.fraction? r
        let (exponent, r) ← Literal.exponent? r
        return leaving r ((⟨negative, s, left.length⟩ : Gathered).number fraction exponent))
      (readAfterWhole ⟨negative, s, 0⟩ (left ++ r)) := by
  by_cases hpoint : ∃ t, r = '.' :: t
  · obtain ⟨t, rfl⟩ := hpoint
    have hread : readAfterWhole ⟨negative, s, 0⟩ (left ++ '.' :: t) =
        readFraction ⟨negative, s, left.length⟩ t := by
      by_cases hne : left = []
      · subst hne
        rfl
      · exact (readAfterWhole_left negative s hl hr hne).1 t rfl
    rw [hread, Literal.fraction?]
    cases hd : digits? t with
    | none => exact readFraction_of_none _ hd
    | some p =>
      obtain ⟨ds, r⟩ := p
      have hds := (digits?_eq_some.mp hd).1
      have hrest := readAfterDigits_reads ((⟨negative, s, left.length⟩ : Gathered).withFraction ds) r
      rw [readFraction_of_digits _ hd]
      cases hx : Literal.exponent? r with
      | none => simpa [hx] using hrest
      | some q => simpa [hx, Gathered.number, hds] using hrest
  · have hno : ∀ t, r ≠ '.' :: t := fun t ht => hpoint ⟨t, ht⟩
    have hfraction : Literal.fraction? r = some ([], r) := by
      unfold Literal.fraction?
      split
      · exact absurd rfl (hno _)
      · rfl
    have hrest := readAfterDigits_reads ⟨negative, s, left.length⟩ r
    rw [hfraction, readAfterWhole_no_point negative s hl hr hno]
    cases hx : Literal.exponent? r with
    | none => simpa [hx] using hrest
    | some q =>
      obtain ⟨exponent, t⟩ := q
      cases exponent with
      | none =>
        obtain ⟨rfl, -⟩ := exponent?_eq_none hx
        by_cases hl : left = []
        · simp [hl, hx, Gathered.number, Reads]
        · simpa [hl, hx, Gathered.number] using hrest
      | some e => simpa [hx, Gathered.number] using hrest

theorem ofWhole_cons (negative : Bool) {c : Char} (hc : isDigit c) (t : List Char) :
    Gathered.ofWhole negative (c :: t) =
      ⟨negative, (gatherDigits (digitValue c) 0 t).1, (gatherDigits (digitValue c) 0 t).2.2.length⟩ := by
  have hval := digitValue_le hc
  have hlimit : wordLimit = 18446744073709551616 := by decide
  obtain ⟨hsig, hleft⟩ := gatherDigits_count t (digitValue c) 1 0
  rw [Gathered.ofWhole, gatherDigits, if_pos hc]
  simp only [Nat.zero_mul, Nat.zero_add]
  rw [if_neg (by omega), hsig, hleft]

theorem readUnsigned_of_none (negative : Bool) {cs : List Char} (h : digits? cs = none) :
    ∃ f, readUnsigned negative cs = .error f := by
  have hn := digits?_eq_none.mp h
  cases cs with
  | nil => exact ⟨_, rfl⟩
  | cons c t =>
    have hc : isDigit c = false := hn c rfl
    unfold readUnsigned
    split
    · exact ⟨_, rfl⟩
    · rename_i h
      cases h
      exact absurd hc (by decide)
    · rename_i h
      cases h
      rw [if_neg (by simp [hc])]
      exact ⟨_, rfl⟩

theorem readUnsigned_zero (negative : Bool) {t r : List Char} (ht : AllDigits t) (hr : NoDigitNext r) :
    readUnsigned negative ('0' :: (t ++ r)) =
      if t = [] then readAfterWhole ⟨negative, 0, 0⟩ r else refuse .invalidNumber := by
  cases t with
  | nil =>
    rw [if_pos rfl, List.nil_append]
    cases r with
    | nil => rfl
    | cons c u => simp [readUnsigned, hr c rfl]
  | cons c u =>
    rw [if_neg (List.cons_ne_nil c u), List.cons_append]
    simp [readUnsigned, ht c List.mem_cons_self]

theorem unsigned?_of_none (negative : Bool) {cs : List Char} (h : Literal.whole? cs = none) :
    Literal.unsigned? negative cs = none := by
  rw [Literal.unsigned?, h]
  rfl

theorem unsigned?_of_whole (negative : Bool) {cs ds r : List Char}
    (h : Literal.whole? cs = some (ds, r)) :
    ((Literal.unsigned? negative cs).map fun p => leaving p.2 p.1.number) = (do
      let (fraction, r) ← Literal.fraction? r
      let (exponent, r) ← Literal.exponent? r
      return leaving r ((Gathered.ofWhole negative ds).number fraction exponent)) := by
  rw [Literal.unsigned?, h]
  simp [Literal.number]

/-- A number after its sign is read as its literal. -/
theorem readUnsigned_reads (negative : Bool) (cs : List Char) :
    Reads ((Literal.unsigned? negative cs).map fun p => leaving p.2 p.1.number)
      (readUnsigned negative cs) := by
  cases hd : digits? cs with
  | none =>
    have hw : Literal.whole? cs = none := by
      rw [Literal.whole?, hd]
      rfl
    rw [unsigned?_of_none negative hw]
    exact readUnsigned_of_none negative hd
  | some p =>
    obtain ⟨ds, r⟩ := p
    obtain ⟨hne, hall, hr, rfl⟩ := digits?_eq_some.mp hd
    obtain ⟨c, t, rfl⟩ := List.exists_cons_of_ne_nil hne
    have ht : AllDigits t := fun d hd => hall d (by simp [hd])
    have hc : isDigit c := hall c (by simp)
    have hw : Literal.whole? (c :: t ++ r) =
        if c = '0' ∧ t ≠ [] then none else some (c :: t, r) := by
      rw [Literal.whole?, hd]
      by_cases hc0 : c = '0' <;> simp [hc0]
    by_cases hzero : c = '0'
    · subst hzero
      rw [List.cons_append] at hw ⊢
      rw [readUnsigned_zero negative ht hr]
      by_cases hnil : t = []
      · subst hnil
        rw [if_neg (by simp)] at hw
        rw [unsigned?_of_whole negative hw, if_pos rfl]
        exact readAfterWhole_reads negative 0 ht hr
      · rw [if_pos ⟨rfl, hnil⟩] at hw
        rw [unsigned?_of_none negative hw, if_neg hnil]
        exact ⟨_, rfl⟩
    · rw [if_neg fun h => hzero h.1] at hw
      obtain ⟨taken, hsplit, -, -⟩ := gatherDigits_spec t ht (digitValue c) 0
      have hleft : AllDigits (gatherDigits (digitValue c) 0 t).2.2 :=
        fun d hd => ht d (hsplit ▸ List.mem_append_right taken hd)
      have hread : readUnsigned negative (c :: (t ++ r)) =
          readAfterWhole ⟨negative, (gatherDigits (digitValue c) 0 t).1, 0⟩
            ((gatherDigits (digitValue c) 0 t).2.2 ++ r) := by
        unfold readUnsigned
        split
        · rename_i h
          cases h
        · rename_i h
          exact absurd (List.cons.inj h).1 hzero
        · rename_i h
          obtain ⟨rfl, rfl⟩ := List.cons.inj h
          rw [if_pos hc, gatherDigits_append ht hr]
      rw [unsigned?_of_whole negative hw, List.cons_append, hread, ofWhole_cons negative hc]
      exact readAfterWhole_reads negative _ hleft hr

/-- **A number is read as its literal.** -/
theorem readNumber_reads (cs : List Char) :
    Reads ((Literal.lex? cs).map fun p => leaving p.2 p.1.number) (readNumber cs) := by
  by_cases hminus : ∃ r, cs = '-' :: r
  · obtain ⟨r, rfl⟩ := hminus
    exact readUnsigned_reads true r
  · have hlex : Literal.lex? cs = Literal.unsigned? false cs := by
      unfold Literal.lex?
      split
      · exact absurd ⟨_, rfl⟩ hminus
      · rfl
    have hread : readNumber cs = readUnsigned false cs := by
      unfold readNumber
      split
      · exact absurd ⟨_, rfl⟩ hminus
      · rfl
    rw [hlex, hread]
    exact readUnsigned_reads false cs

/-- What is read is a literal's number. -/
theorem lex?_of_readNumber {cs r : List Char} {n : Number} (h : readNumber cs = .ok (n, r)) :
    ∃ l, Literal.lex? cs = some (l, r) ∧ l.number = .ok n := by
  have hreads := readNumber_reads cs
  rw [h] at hreads
  cases hl : Literal.lex? cs with
  | none =>
    rw [hl] at hreads
    obtain ⟨_, hf⟩ := hreads
    cases hf
  | some p =>
    obtain ⟨l, t⟩ := p
    rw [hl] at hreads
    have hok : Except.ok (n, r) = leaving t l.number := hreads
    cases hn : l.number with
    | error f =>
      rw [hn] at hok
      cases hok
    | ok m =>
      rw [hn] at hok
      cases hok
      exact ⟨l, rfl, hn⟩

theorem readNumber_of_lex? {cs r : List Char} {l : Literal} {n : Number}
    (hl : Literal.lex? cs = some (l, r)) (hn : l.number = .ok n) : readNumber cs = .ok (n, r) := by
  have hreads := readNumber_reads cs
  rw [hl] at hreads
  rw [show readNumber cs = leaving r l.number from hreads, hn]
  rfl

end RunDispatch.Json
