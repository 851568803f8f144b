/-
# What the writer makes of a value

The text of a value is a phrase that denotes what the value does. Names and strings at any depth are written
without a control character, and nothing else in a text is one, so a text is one line. What is not a plain
character of ASCII in a text stands in one of these names and strings, U+007F too, which is written as it is.

Key definitions: `Plain`, `Value.texts`.
Key theorems: `quoted_spells`, `write_spells`, `write_denotes`, `mem_write`, `write_printable`, `mem_write_iff`.
-/
import RunDispatch.Proofs.Json.Reading

namespace RunDispatch.Json

open Decimal (Binary64 Digits)

/-! ### Strings -/

theorem skipBlanks_cons {c : Char} (h : isJsonBlank c = false) (t : List Char) :
    skipBlanks (c :: t) = c :: t :=
  List.dropWhile_cons_of_neg (by simp [h])

theorem quad?_control {c : Char} (hc : c.toNat < 0x20) :
    quad? '0' '0' (Text.hexDigit (c.toNat / 16)) (Text.hexDigit (c.toNat % 16)) = some c.toNat := by
  have hzero : Text.hexValue? '0' = some 0 := by decide
  rw [quad?, hzero, Text.hexValue?_hexDigit (show c.toNat / 16 < 16 by omega),
    Text.hexValue?_hexDigit (Nat.mod_lt _ (by decide))]
  simp only [Option.bind_eq_bind, Option.bind_some, Option.pure_def, Option.some.injEq]
  omega

/-- A character of ASCII that is printed, or the space. -/
def Plain (c : Char) : Prop := 0x20 ≤ c.toNat ∧ c.toNat < 0x7F

instance : DecidablePred Plain := fun c =>
  inferInstanceAs (Decidable (0x20 ≤ c.toNat ∧ c.toNat < 0x7F))

/-- A character is written by a short escape, by its number if it is another control, or as it is. -/
theorem escaped_cases (c : Char) :
    (∃ e, escaped c = ['\\', e] ∧ shortEscape? e = some c ∧ Plain e) ∨
      (c.toNat < 0x20 ∧ escaped c = unicodeEscape c) ∨
      (escaped c = [c] ∧ c ≠ '"' ∧ c ≠ '\\' ∧ 0x20 ≤ c.toNat) := by
  have hnumber {n : Nat} (h : c.toNat = n) : c = Char.ofNat n := by
    rw [← h, Char.ofNat_toNat]
  by_cases hquote : c = '"'
  · subst hquote
    exact .inl ⟨'"', rfl, rfl, by decide⟩
  by_cases hslash : c = '\\'
  · subst hslash
    exact .inl ⟨'\\', rfl, rfl, by decide⟩
  by_cases hnewline : c = '\n'
  · subst hnewline
    exact .inl ⟨'n', rfl, rfl, by decide⟩
  by_cases hreturn : c = '\r'
  · subst hreturn
    exact .inl ⟨'r', rfl, rfl, by decide⟩
  by_cases htab : c = '\t'
  · subst htab
    exact .inl ⟨'t', rfl, rfl, by decide⟩
  by_cases hback : c.toNat = 0x08
  · rw [hnumber hback]
    exact .inl ⟨'b', rfl, rfl, by decide⟩
  by_cases hfeed : c.toNat = 0x0C
  · rw [hnumber hfeed]
    exact .inl ⟨'f', rfl, rfl, by decide⟩
  have hescaped : escaped c = if c.toNat < 0x20 then unicodeEscape c else [c] := by
    rw [escaped, if_neg hquote, if_neg hslash, if_neg hnewline, if_neg hreturn, if_neg htab, if_neg hback,
      if_neg hfeed]
  by_cases hcontrol : c.toNat < 0x20
  · exact .inr (.inl ⟨hcontrol, by rw [hescaped, if_pos hcontrol]⟩)
  · exact .inr (.inr ⟨by rw [hescaped, if_neg hcontrol], hquote, hslash, Nat.le_of_not_lt hcontrol⟩)

theorem escaped_piece (c : Char) :
    ∃ p : Piece, (∀ ps cs r, Body ps cs r → Body (p :: ps) (escaped c ++ cs) r) ∧
      ∀ ps, chars? (p :: ps) = (chars? ps).map (c :: ·) := by
  rcases escaped_cases c with ⟨e, hescaped, he, -⟩ | ⟨hcontrol, hescaped⟩ | ⟨hescaped, hquote, hslash, hprint⟩
  · refine ⟨.char c, fun ps cs r h => ?_, fun ps => rfl⟩
    rw [hescaped]
    exact .short he h
  · refine ⟨.unit c.toNat, fun ps cs r h => ?_, fun ps => ?_⟩
    · rw [hescaped]
      exact .unit (quad?_control hcontrol) h
    · rw [chars?_unit (by simp [isLowSurrogate]; omega) (by simp [isHighSurrogate]; omega), Char.ofNat_toNat]
  · refine ⟨.char c, fun ps cs r h => ?_, fun ps => rfl⟩
    rw [hescaped]
    exact .char hquote hslash hprint h

theorem escaped_body (s r : List Char) :
    ∃ ps, Body ps (s.flatMap escaped ++ '"' :: r) r ∧ chars? ps = some s := by
  induction s with
  | nil => exact ⟨[], .close, rfl⟩
  | cons c s ih =>
    obtain ⟨ps, hbody, hchars⟩ := ih
    obtain ⟨p, hp, hpc⟩ := escaped_piece c
    refine ⟨p :: ps, ?_, ?_⟩
    · rw [List.flatMap_cons, List.append_assoc]
      exact hp ps _ _ hbody
    · rw [hpc, hchars]
      rfl

/-- **A string is written as pieces that spell it.** -/
theorem quoted_spells (s : String) (r : List Char) :
    ∃ ps d, quoted s.toList ++ r = '"' :: d ∧ Body ps d r ∧ (chars? ps).isSome ∧ textOf ps = s := by
  obtain ⟨ps, hbody, hchars⟩ := escaped_body s.toList r
  refine ⟨ps, s.toList.flatMap escaped ++ '"' :: r, ?_, hbody, by rw [hchars]; rfl, ?_⟩
  · simp [quoted]
  · rw [textOf, hchars]
    exact String.ofList_toList

/-! ### Values -/

/-- What stands before an item or a member: a comma, unless it is the first. -/
def lead (first : Bool) : List Char := if first then [] else [',']

/-- Texts with a comma before each, but for the very first. -/
def separated : Bool → List (List Char) → List Char
  | _, [] => []
  | first, t :: ts => lead first ++ (t ++ separated false ts)

theorem commaSeparated_eq (ts : List (List Char)) : commaSeparated ts = separated true ts := by
  induction ts with
  | nil => rfl
  | cons t ts ih =>
    cases ts with
    | nil => simp [commaSeparated, separated, lead]
    | cons u us =>
      have hmore : commaSeparated (t :: u :: us) = t ++ ',' :: commaSeparated (u :: us) := rfl
      rw [hmore, ih]
      rfl

theorem numberEnds_nil : NumberEnds [] := nofun

theorem numberEnds_cons {c : Char} (hd : isDigit c = false) (h1 : c ≠ '.') (h2 : c ≠ 'e') (h3 : c ≠ 'E')
    (t : List Char) : NumberEnds (c :: t) := by
  intro d hd'
  cases hd'
  exact ⟨hd, h1, h2, h3⟩

theorem numberEnds_more (ts : List (List Char)) {c : Char} (hc : c = ']' ∨ c = '\x7d') (r : List Char) :
    NumberEnds (separated false ts ++ c :: r) := by
  cases ts with
  | nil => rcases hc with rfl | rfl <;> exact numberEnds_cons (by decide) (by decide) (by decide) (by decide) r
  | cons t ts => exact numberEnds_cons (by decide) (by decide) (by decide) (by decide) _

theorem Items.of_lead {x : Phrase} {xs : List Phrase} {cs d r : List Char} (first : Bool)
    (hx : Begins x cs d) (hxs : Items false xs d r) : Items first (x :: xs) (lead first ++ cs) r := by
  cases first with
  | true => exact .first hx hxs
  | false => exact .next rfl hx hxs

theorem Members.of_lead {ps : List Piece} {x : Phrase} {ms : List (List Piece × Phrase)}
    {d c t r : List Char} (first : Bool) (hs : Body ps d (':' :: c)) (hx : Begins x c t)
    (hms : Members false ms t r) : Members first ((ps, x) :: ms) (lead first ++ '"' :: d) r := by
  cases first with
  | true => exact .first (skipBlanks_cons (by decide) d) hs rfl hx hms
  | false => exact .next rfl (skipBlanks_cons (by decide) d) hs rfl hx hms

/-- A phrase that a value is written as: its strings spell characters, and it denotes what the value does. -/
structure WrittenAs (v : Value) (y : Phrase) : Prop where
  paired : y.Paired
  meaning : y.meaning Literal.exact = v.meaning

/-- No number begins with a blank. -/
theorem skipBlanks_written {l : Literal} (hl : l.WellFormed) (r : List Char) :
    skipBlanks (l.written ++ r) = l.written ++ r := by
  obtain ⟨negative, whole, fraction, exponent⟩ := l
  cases negative with
  | true => exact skipBlanks_cons (by decide) _
  | false =>
    obtain ⟨c, t, hc⟩ := List.exists_cons_of_ne_nil hl.whole_ne
    simp only at hc
    subst hc
    have hd : isDigit c = true := hl.whole_digits c List.mem_cons_self
    refine skipBlanks_cons ?_ _
    have hspace : c ≠ ' ' := ne_of_isDigit hd (by decide)
    have hnewline : c ≠ '\n' := ne_of_isDigit hd (by decide)
    have htab : c ≠ '\t' := ne_of_isDigit hd (by decide)
    have hreturn : c ≠ '\r' := ne_of_isDigit hd (by decide)
    simp [isJsonBlank, hspace, hnewline, htab, hreturn]

mutual

/-- **What is written of a value is a phrase that denotes what the value does.** -/
theorem write_spells (v : Value) {depth : Nat} (hv : v.Proper depth) {r : List Char} (hr : NumberEnds r) :
    ∃ y, Begins y (v.write ++ r) r ∧ WrittenAs v y := by
  cases v with
  | null => exact ⟨.null, .null rfl, trivial, rfl⟩
  | bool b =>
    cases b with
    | true => exact ⟨.bool true, .yes rfl, trivial, rfl⟩
    | false => exact ⟨.bool false, .no rfl, trivial, rfl⟩
  | number n =>
    obtain ⟨l, hl, hwritten, hexact⟩ := Number.literal hv
    refine ⟨.number l, .number ?_, trivial, congrArg Meaning.number hexact⟩
    rw [Value.write, ← hwritten, skipBlanks_written hl]
    exact Literal.lex?_written hl hr
  | string s =>
    obtain ⟨ps, d, hquoted, hbody, hsome, htext⟩ := quoted_spells s r
    refine ⟨.string ps, .string ?_ hbody, hsome, congrArg Meaning.string htext⟩
    rw [Value.write, hquoted]
    exact skipBlanks_cons (by decide) d
  | array vs =>
    obtain ⟨ys, hitems, hpaired, hmeaning⟩ := writeItems_spell vs hv.2 true r
    refine ⟨.array ys, .array rfl ?_, hpaired, congrArg Meaning.array hmeaning⟩
    simpa [commaSeparated_eq] using hitems
  | object ms =>
    obtain ⟨ys, hmembers, hpaired, hmeaning⟩ := writeMembers_spell ms hv.2.2 true r
    refine ⟨.object ys, .object rfl ?_, hpaired, congrArg (fun es => Meaning.object (lastOf es)) hmeaning⟩
    simpa [commaSeparated_eq] using hmembers

theorem writeItems_spell (vs : List Value) {depth : Nat} (hvs : ItemsProper vs depth) (first : Bool)
    (r : List Char) :
    ∃ ys, Items first ys (separated first (writeItems vs) ++ ']' :: r) r ∧ ItemsPaired ys ∧
      itemMeanings Literal.exact ys = valueMeanings vs := by
  cases vs with
  | nil => exact ⟨[], .close rfl, trivial, rfl⟩
  | cons v vs =>
    obtain ⟨y, hy, hwritten⟩ := write_spells v hvs.1 (numberEnds_more (writeItems vs) (.inl rfl) r)
    obtain ⟨ys, hitems, hpaired, hmeaning⟩ := writeItems_spell vs hvs.2 false r
    refine ⟨y :: ys, ?_, ⟨hwritten.paired, hpaired⟩, ?_⟩
    · rw [writeItems, separated, List.append_assoc, List.append_assoc]
      exact .of_lead first hy hitems
    · rw [itemMeanings, valueMeanings, hwritten.meaning, hmeaning]

theorem writeMembers_spell (ms : List (String × Value)) {depth : Nat} (hms : MembersProper ms depth)
    (first : Bool) (r : List Char) :
    ∃ ys, Members first ys (separated first (writeMembers ms) ++ '\x7d' :: r) r ∧ MembersPaired ys ∧
      memberMeanings Literal.exact ys = entryMeanings ms := by
  cases ms with
  | nil => exact ⟨[], .close rfl, trivial, rfl⟩
  | cons m ms =>
    obtain ⟨n, v⟩ := m
    obtain ⟨y, hy, hwritten⟩ := write_spells v hms.1 (numberEnds_more (writeMembers ms) (.inr rfl) r)
    obtain ⟨ys, hmembers, hpaired, hmeaning⟩ := writeMembers_spell ms hms.2 false r
    obtain ⟨ps, d, hquoted, hbody, hsome, htext⟩ :=
      quoted_spells n (':' :: (v.write ++ (separated false (writeMembers ms) ++ '\x7d' :: r)))
    refine ⟨(ps, y) :: ys, ?_, ⟨hsome, hwritten.paired, hpaired⟩, ?_⟩
    · rw [writeMembers, separated]
      simp only [List.append_assoc, List.cons_append]
      rw [hquoted]
      exact .of_lead first hbody hy hmembers
    · rw [memberMeanings, entryMeanings, htext, hwritten.meaning, hmeaning]

end

/-- **A value is written as a text that denotes what the value does.** -/
theorem write_denotes (v : Value) {depth : Nat} (hv : v.Proper depth) : Denotes v.write v.meaning := by
  obtain ⟨y, hy, hpaired, hmeaning⟩ := write_spells v hv numberEnds_nil
  rw [List.append_nil] at hy
  exact ⟨y, ⟨[], hy, rfl⟩, hpaired, hmeaning⟩

/-! ### The characters of a text -/

abbrev AllPlain (cs : List Char) : Prop := ∀ c ∈ cs, Plain c

theorem AllPlain.append {cs ds : List Char} (hc : AllPlain cs) (hd : AllPlain ds) : AllPlain (cs ++ ds) := by
  intro c h
  rcases List.mem_append.mp h with h | h
  · exact hc c h
  · exact hd c h

theorem AllPlain.cons {c : Char} {cs : List Char} (hc : Plain c) (hcs : AllPlain cs) :
    AllPlain (c :: cs) :=
  List.forall_mem_cons.mpr ⟨hc, hcs⟩

theorem plain_of_all {cs : List Char} (h : cs.all (fun c => decide (Plain c)) = true) : AllPlain cs :=
  fun c hc => of_decide_eq_true (List.all_eq_true.mp h c hc)

theorem plain_of_isDigit {c : Char} (h : isDigit c = true) : Plain c := by
  simp only [isDigit, Bool.and_eq_true, decide_eq_true_eq, Char.le_def, UInt32.le_iff_toNat_le] at h
  exact ⟨le_trans (by decide) h.1, lt_of_le_of_lt h.2 (by decide)⟩

theorem plain_toDigits (n : Nat) : AllPlain (Nat.toDigits 10 n) :=
  fun c hc => plain_of_isDigit (allDigits_toDigits n c hc)

theorem plain_replicate_zero (n : Nat) : AllPlain (List.replicate n '0') :=
  fun c hc => plain_of_isDigit (allDigits_replicate_zero n c hc)

theorem plain_hexDigit {n : Nat} (hn : n < 16) : Plain (Text.hexDigit n) := by
  have all : ∀ m, m < 16 → Plain (Text.hexDigit m) := by decide
  exact all n hn

theorem plain_positional {ds : List Char} (hd : AllPlain ds) (leading : Int) :
    AllPlain (numberLayout.positional ds leading) := by
  unfold Decimal.Layout.positional
  split
  · exact .cons (by decide) (.cons (by decide) ((plain_replicate_zero _).append hd))
  · simp only
    split
    · exact (hd.append (plain_replicate_zero _)).append (plain_of_all rfl)
    · refine .append (fun c hc => hd c (List.mem_of_mem_take hc)) (.cons (by decide) ?_)
      exact fun c hc => hd c (List.mem_of_mem_drop hc)

theorem plain_exponential {ds : List Char} (hd : AllPlain ds) (leading : Int) :
    AllPlain (numberLayout.exponential ds leading) := by
  have hmark : AllPlain (if leading < 0 then '-' :: Nat.toDigits 10 leading.natAbs
      else numberLayout.plus ++ Nat.toDigits 10 leading.natAbs) := by
    split
    · exact .cons (by decide) (plain_toDigits _)
    · exact .append (plain_of_all rfl) (plain_toDigits _)
  unfold Decimal.Layout.exponential
  simp only
  split
  · exact nofun
  · rename_i d
    exact .cons (hd d (by simp)) (.cons (by decide) hmark)
  · rename_i d rest _
    refine .cons (hd d (by simp)) (.cons (by decide) (.append ?_ (.cons (by decide) hmark)))
    exact fun c hc => hd c (by simp [hc])

theorem plain_writeDouble (x : Binary64) : AllPlain (numberLayout.write x) := by
  have hbody : AllPlain (if x.isZero then '0' :: numberLayout.wholeEnd
      else numberLayout.writeDigits x.magnitude.digits) := by
    split
    · exact plain_of_all rfl
    · unfold Decimal.Layout.writeDigits
      simp only
      split
      · exact plain_positional (plain_toDigits _) _
      · exact plain_exponential (plain_toDigits _) _
  unfold Decimal.Layout.write
  simp only
  split
  · exact .cons (by decide) hbody
  · exact hbody

theorem plain_number (n : Number) : AllPlain n.write := by
  cases n with
  | whole n =>
    rw [Number.write, writeInt]
    split
    · exact .cons (by decide) (plain_toDigits _)
    · exact plain_toDigits _
  | double x => exact plain_writeDouble x

theorem escaped_of_le {c : Char} (h : 0x7F ≤ c.toNat) : escaped c = [c] := by
  have hne : ∀ d : Char, d.toNat < 0x7F → c ≠ d := by
    rintro d hd rfl
    omega
  rw [escaped, if_neg (hne '"' (by decide)), if_neg (hne '\\' (by decide)), if_neg (hne '\n' (by decide)),
    if_neg (hne '\r' (by decide)), if_neg (hne '\t' (by decide)), if_neg (by omega), if_neg (by omega),
    if_neg (by omega)]

theorem mem_escaped {c d : Char} (h : d ∈ escaped c) : Plain d ∨ 0x20 ≤ d.toNat ∧ d = c := by
  rcases escaped_cases c with ⟨e, hescaped, -, he⟩ | ⟨hcontrol, hescaped⟩ | ⟨hescaped, -, -, hprint⟩ <;>
    rw [hescaped] at h
  · have hall : AllPlain ['\\', e] := .cons (by decide) (.cons he nofun)
    exact .inl (hall d h)
  · have hmark : AllPlain ['\\', 'u', '0', '0'] := plain_of_all rfl
    have hdigits : AllPlain [Text.hexDigit (c.toNat / 16), Text.hexDigit (c.toNat % 16)] :=
      .cons (plain_hexDigit (by omega)) (.cons (plain_hexDigit (Nat.mod_lt _ (by decide))) nofun)
    exact .inl (hmark.append hdigits d h)
  · rw [List.mem_singleton.mp h]
    exact .inr ⟨hprint, rfl⟩

theorem mem_quoted {s : List Char} {d : Char} (h : d ∈ quoted s) :
    Plain d ∨ 0x20 ≤ d.toNat ∧ d ∈ s := by
  rcases List.mem_cons.mp h with rfl | h
  · exact .inl (by decide)
  · rcases List.mem_append.mp h with h | h
    · obtain ⟨c, hc, hd⟩ := List.mem_flatMap.mp h
      rcases mem_escaped hd with hplain | ⟨hprint, rfl⟩
      · exact .inl hplain
      · exact .inr ⟨hprint, hc⟩
    · rw [List.mem_singleton.mp h]
      exact .inl (by decide)

theorem mem_separated {first : Bool} {ts : List (List Char)} {c : Char} (h : c ∈ separated first ts) :
    c = ',' ∨ ∃ t ∈ ts, c ∈ t := by
  induction ts generalizing first with
  | nil => cases h
  | cons t ts ih =>
    rcases List.mem_append.mp h with h | h
    · cases first with
      | true => cases h
      | false => exact .inl (List.mem_singleton.mp h)
    · rcases List.mem_append.mp h with h | h
      · exact .inr ⟨t, List.mem_cons_self, h⟩
      · exact (ih h).imp_right fun ⟨u, hu, hc⟩ => ⟨u, List.mem_cons_of_mem t hu, hc⟩

theorem subset_separated {first : Bool} {ts : List (List Char)} {t : List Char} (h : t ∈ ts) :
    t ⊆ separated first ts := by
  induction ts generalizing first with
  | nil => cases h
  | cons u ts ih =>
    intro c hc
    rw [separated]
    rcases List.mem_cons.mp h with rfl | h
    · exact List.mem_append_right _ (List.mem_append_left _ hc)
    · exact List.mem_append_right _ (List.mem_append_right _ (ih h hc))

theorem mem_bracketed {left right : Char} {ts : List (List Char)} {c : Char}
    (h : c ∈ left :: (commaSeparated ts ++ [right])) : c = left ∨ c = right ∨ c = ',' ∨ ∃ t ∈ ts, c ∈ t := by
  rw [commaSeparated_eq] at h
  rcases List.mem_cons.mp h with hleft | h
  · exact .inl hleft
  · rcases List.mem_append.mp h with h | hright
    · exact .inr (.inr (mem_separated h))
    · exact .inr (.inl (List.mem_singleton.mp hright))

theorem subset_bracketed {left right : Char} {ts : List (List Char)} {t : List Char} (h : t ∈ ts) :
    t ⊆ left :: (commaSeparated ts ++ [right]) := by
  rw [commaSeparated_eq]
  exact fun c hc => List.mem_cons_of_mem left (List.mem_append_left _ (subset_separated h hc))

mutual

/-- The strings and the names in a value, at any depth. -/
def Value.texts : Value → List String
  | .string s => [s]
  | .array items => itemTexts items
  | .object members => memberTexts members
  | _ => []

def itemTexts : List Value → List String
  | [] => []
  | v :: r => v.texts ++ itemTexts r

def memberTexts : List (String × Value) → List String
  | [] => []
  | (n, v) :: r => n :: (v.texts ++ memberTexts r)

end

mutual

/-- **The characters that a value is written with** are plain, or are no control and stand in one of its
strings or names. -/
theorem mem_write (v : Value) {c : Char} (h : c ∈ v.write) :
    Plain c ∨ 0x20 ≤ c.toNat ∧ ∃ s ∈ v.texts, c ∈ s.toList := by
  cases v with
  | null =>
    have hall : AllPlain (Value.write .null) := plain_of_all rfl
    exact .inl (hall c h)
  | bool b =>
    have hall : AllPlain (Value.write (.bool b)) := by cases b <;> exact plain_of_all rfl
    exact .inl (hall c h)
  | number n => exact .inl (plain_number n c h)
  | string s => exact (mem_quoted h).imp_right fun ⟨hprint, hc⟩ => ⟨hprint, s, List.mem_singleton_self s, hc⟩
  | array vs =>
    rcases mem_bracketed h with rfl | rfl | rfl | ⟨t, ht, hc⟩
    · exact .inl (by decide)
    · exact .inl (by decide)
    · exact .inl (by decide)
    · exact mem_writeItems vs ht hc
  | object ms =>
    rcases mem_bracketed h with rfl | rfl | rfl | ⟨t, ht, hc⟩
    · exact .inl (by decide)
    · exact .inl (by decide)
    · exact .inl (by decide)
    · exact mem_writeMembers ms ht hc

theorem mem_writeItems (vs : List Value) {c : Char} {t : List Char} (ht : t ∈ writeItems vs) (h : c ∈ t) :
    Plain c ∨ 0x20 ≤ c.toNat ∧ ∃ s ∈ itemTexts vs, c ∈ s.toList := by
  cases vs with
  | nil => cases ht
  | cons v vs =>
    rcases List.mem_cons.mp ht with rfl | ht
    · exact (mem_write v h).imp_right fun ⟨hprint, s, hs, hc⟩ => ⟨hprint, s, List.mem_append_left _ hs, hc⟩
    · exact (mem_writeItems vs ht h).imp_right fun ⟨hprint, s, hs, hc⟩ =>
        ⟨hprint, s, List.mem_append_right _ hs, hc⟩

theorem mem_writeMembers (ms : List (String × Value)) {c : Char} {t : List Char} (ht : t ∈ writeMembers ms)
    (h : c ∈ t) : Plain c ∨ 0x20 ≤ c.toNat ∧ ∃ s ∈ memberTexts ms, c ∈ s.toList := by
  cases ms with
  | nil => cases ht
  | cons m ms =>
    obtain ⟨n, v⟩ := m
    rcases List.mem_cons.mp ht with rfl | ht
    · rcases List.mem_append.mp h with h | h
      · exact (mem_quoted h).imp_right fun ⟨hprint, hc⟩ => ⟨hprint, n, List.mem_cons_self, hc⟩
      · rcases List.mem_cons.mp h with rfl | h
        · exact .inl (by decide)
        · exact (mem_write v h).imp_right fun ⟨hprint, s, hs, hc⟩ =>
            ⟨hprint, s, List.mem_cons_of_mem n (List.mem_append_left _ hs), hc⟩
    · exact (mem_writeMembers ms ht h).imp_right fun ⟨hprint, s, hs, hc⟩ =>
        ⟨hprint, s, List.mem_cons_of_mem n (List.mem_append_right _ hs), hc⟩

end

theorem escaped_subset_quoted {s : List Char} {c : Char} (h : c ∈ s) : escaped c ⊆ quoted s := by
  intro d hd
  exact List.mem_cons_of_mem _ (List.mem_append_left _ (List.mem_flatMap.mpr ⟨c, h, hd⟩))

mutual

theorem escaped_subset_write (v : Value) {s : String} (hs : s ∈ v.texts) {c : Char} (hc : c ∈ s.toList) :
    escaped c ⊆ v.write := by
  cases v with
  | null | bool | number => cases hs
  | string u =>
    rw [List.mem_singleton.mp hs] at hc
    exact escaped_subset_quoted hc
  | array vs =>
    obtain ⟨t, ht, hsub⟩ := escaped_subset_writeItems vs hs hc
    exact fun d hd => subset_bracketed ht (hsub hd)
  | object ms =>
    obtain ⟨t, ht, hsub⟩ := escaped_subset_writeMembers ms hs hc
    exact fun d hd => subset_bracketed ht (hsub hd)

theorem escaped_subset_writeItems (vs : List Value) {s : String} (hs : s ∈ itemTexts vs) {c : Char}
    (hc : c ∈ s.toList) : ∃ t ∈ writeItems vs, escaped c ⊆ t := by
  cases vs with
  | nil => cases hs
  | cons v vs =>
    rcases List.mem_append.mp hs with hs | hs
    · exact ⟨v.write, List.mem_cons_self, escaped_subset_write v hs hc⟩
    · obtain ⟨t, ht, hsub⟩ := escaped_subset_writeItems vs hs hc
      exact ⟨t, List.mem_cons_of_mem _ ht, hsub⟩

theorem escaped_subset_writeMembers (ms : List (String × Value)) {s : String} (hs : s ∈ memberTexts ms)
    {c : Char} (hc : c ∈ s.toList) : ∃ t ∈ writeMembers ms, escaped c ⊆ t := by
  cases ms with
  | nil => cases hs
  | cons m ms =>
    obtain ⟨n, v⟩ := m
    rcases List.mem_cons.mp hs with rfl | hs
    · exact ⟨_, List.mem_cons_self, fun d hd => List.mem_append_left _ (escaped_subset_quoted hc hd)⟩
    · rcases List.mem_append.mp hs with hs | hs
      · exact ⟨_, List.mem_cons_self, fun d hd =>
          List.mem_append_right _ (List.mem_cons_of_mem _ (escaped_subset_write v hs hc hd))⟩
      · obtain ⟨t, ht, hsub⟩ := escaped_subset_writeMembers ms hs hc
        exact ⟨t, List.mem_cons_of_mem _ ht, hsub⟩

end

abbrev Printable (cs : List Char) : Prop := ∀ c ∈ cs, 0x20 ≤ c.toNat

/-- **No text of a value holds a control character**, however deep the strings and names in it lie. -/
theorem write_printable (v : Value) : Printable v.write := by
  intro c hc
  rcases mem_write v hc with hplain | ⟨hprint, -⟩
  · exact hplain.1
  · exact hprint

/-- A character that is neither plain nor a control is in the text of a value exactly if it is in one of its
strings or names. -/
theorem mem_write_iff (v : Value) {c : Char} (hc : 0x7F ≤ c.toNat) :
    c ∈ v.write ↔ ∃ s ∈ v.texts, c ∈ s.toList := by
  constructor
  · intro h
    rcases mem_write v h with hplain | ⟨-, htext⟩
    · exact absurd hplain.2 (by omega)
    · exact htext
  · rintro ⟨s, hs, hmem⟩
    refine escaped_subset_write v hs hmem ?_
    rw [escaped_of_le hc]
    exact List.mem_singleton_self c

end RunDispatch.Json
