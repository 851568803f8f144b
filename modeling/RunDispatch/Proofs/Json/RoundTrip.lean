/-
# Written values are read back

A value whose numbers are all whole, and which the reader could have made, is read back from its text: strings
with their escapes, the members of objects in their order, and all of it within the depth in which it was
read. Doubles are left out, since a text of one is read with its own rounding.

Key definitions: `Value.Whole`.
Key theorems: `readString_quoted`, `readValueWith_write`, `parse_write`.
-/
import RunDispatch.Proofs.Json.Writing

namespace RunDispatch.Json

mutual

/-- Every number of a value is whole, and between -2^63 and 2^64 - 1. -/
def Value.Whole : Value → Prop
  | .number n => ∃ i : Int, n = .whole i ∧ -2 ^ 63 ≤ i ∧ i ≤ 2 ^ 64 - 1
  | .array items => ItemsWhole items
  | .object members => MembersWhole members
  | _ => True

def ItemsWhole : List Value → Prop
  | [] => True
  | v :: vs => v.Whole ∧ ItemsWhole vs

def MembersWhole : List (String × Value) → Prop
  | [] => True
  | (_, v) :: ms => v.Whole ∧ MembersWhole ms

end

/-! ### Strings -/

theorem readHex4_of_quad? {a b c d : Char} {n : Nat} (h : quad? a b c d = some n) (r : List Char) :
    readHex4 (a :: b :: c :: d :: r) = .ok (n, r) := by
  unfold quad? at h
  cases ha : Text.hexValue? a with
  | none => simp [ha] at h
  | some a' =>
    cases hb : Text.hexValue? b with
    | none => simp [ha, hb] at h
    | some b' =>
      cases hc : Text.hexValue? c with
      | none => simp [ha, hb, hc] at h
      | some c' =>
        cases hd : Text.hexValue? d with
        | none => simp [ha, hb, hc, hd] at h
        | some d' =>
          simp [ha, hb, hc, hd] at h
          simp [readHex4, ha, hb, hc, hd, h]

theorem readUnicode_control {c : Char} (hc : c.toNat < 0x20) (r : List Char) :
    readUnicode ('0' :: '0' :: Text.hexDigit (c.toNat / 16) :: Text.hexDigit (c.toNat % 16) :: r) =
      .ok (c, r) := by
  have hlow : isLowSurrogate c.toNat = false := by simp [isLowSurrogate]; omega
  have hhigh : isHighSurrogate c.toNat = false := by simp [isHighSurrogate]; omega
  rw [readUnicode, readHex4_of_quad? (quad?_control hc)]
  simp only [bind, Except.bind, hlow, hhigh, Bool.false_eq_true, if_false, Bool.not_false, if_true,
    Char.ofNat_toNat]
  rfl

theorem readEscape_short {c e : Char} (h : shortEscape? e = some c) (r : List Char) :
    readEscape (e :: r) = .ok (c, r) := by
  have hu : e ≠ 'u' := by
    rintro rfl
    cases shortEscape?_u.symm.trans h
  unfold readEscape
  split
  · rename_i h'
    cases h'
  · rename_i h'
    exact absurd (List.cons.inj h').1 hu
  · rename_i h'
    obtain ⟨rfl, rfl⟩ := List.cons.inj h'
    rw [h]

theorem readStringFrom_escape {c : Char} {cs r : List Char} (he : readEscape cs = .ok (c, r)) (fuel : Nat) :
    readStringFrom (fuel + 1) ('\\' :: cs) = (readStringFrom fuel r).map fun p => (c :: p.1, p.2) := by
  rw [readStringFrom, if_neg (by decide), if_pos rfl, he]
  cases hs : readStringFrom fuel r <;> simp [bind, Except.bind, hs, Except.map, pure, Except.pure]

theorem readStringFrom_escaped (c : Char) (fuel : Nat) (cs : List Char) :
    readStringFrom (fuel + 1) (escaped c ++ cs) =
      (readStringFrom fuel cs).map fun p => (c :: p.1, p.2) := by
  rcases escaped_cases c with ⟨e, hescaped, he, -⟩ | ⟨hcontrol, hescaped⟩ | ⟨hescaped, hquote, hslash, hprint⟩
  · rw [hescaped]
    exact readStringFrom_escape (readEscape_short he cs) fuel
  · have hread : readEscape ('u' :: '0' :: '0' :: Text.hexDigit (c.toNat / 16) ::
        Text.hexDigit (c.toNat % 16) :: cs) = .ok (c, cs) := readUnicode_control hcontrol cs
    rw [hescaped]
    exact readStringFrom_escape hread fuel
  · rw [hescaped, List.singleton_append, readStringFrom, if_neg hquote, if_neg hslash, if_neg (by omega)]
    cases readStringFrom fuel cs <;> rfl

theorem readStringFrom_flatMap (s r : List Char) {fuel : Nat} (hf : s.length < fuel) :
    readStringFrom fuel (s.flatMap escaped ++ '"' :: r) = .ok (s, r) := by
  induction s generalizing fuel with
  | nil =>
    obtain ⟨fuel, rfl⟩ := Nat.exists_eq_add_one_of_ne_zero (show fuel ≠ 0 by omega)
    rfl
  | cons c s ih =>
    rw [List.length_cons] at hf
    obtain ⟨fuel, rfl⟩ := Nat.exists_eq_add_one_of_ne_zero (show fuel ≠ 0 by omega)
    rw [List.flatMap_cons, List.append_assoc, readStringFrom_escaped, ih (by omega)]
    rfl

theorem length_le_flatMap_escaped (s : List Char) : s.length ≤ (s.flatMap escaped).length := by
  induction s with
  | nil => exact Nat.le_refl 0
  | cons c s ih =>
    have hpos : 0 < (escaped c).length := by
      rcases escaped_cases c with ⟨e, hescaped, -⟩ | ⟨-, hescaped⟩ | ⟨hescaped, -⟩ <;> rw [hescaped] <;>
        exact Nat.succ_pos _
    rw [List.flatMap_cons, List.length_append, List.length_cons]
    omega

/-- **A string is read back from what is written of it.** -/
theorem readString_quoted (s : String) (r : List Char) :
    readString (s.toList.flatMap escaped ++ '"' :: r) = .ok (s, r) := by
  have hlength := length_le_flatMap_escaped s.toList
  rw [readString, readStringFrom_flatMap s.toList r (by rw [List.length_append]; omega)]
  simp [bind, Except.bind, pure, Except.pure]

/-! ### Values -/

/-- What can begin the text of a value. -/
structure Opens (c : Char) : Prop where
  blank : isJsonBlank c = false
  bracket : c ≠ ']'
  comma : c ≠ ','

theorem opens_digit {c : Char} (h : isDigit c = true) : Opens c := by
  have hspace : c ≠ ' ' := ne_of_isDigit h (by decide)
  have hnewline : c ≠ '\n' := ne_of_isDigit h (by decide)
  have htab : c ≠ '\t' := ne_of_isDigit h (by decide)
  have hreturn : c ≠ '\r' := ne_of_isDigit h (by decide)
  exact ⟨by simp [isJsonBlank, hspace, hnewline, htab, hreturn], ne_of_isDigit h (by decide),
    ne_of_isDigit h (by decide)⟩

theorem writeInt_cons (n : Int) : ∃ c t, writeInt n = c :: t ∧ (c = '-' ∨ isDigit c = true) := by
  unfold writeInt
  split
  · exact ⟨'-', _, rfl, .inl rfl⟩
  · obtain ⟨c, t, hc⟩ := List.exists_cons_of_ne_nil (Nat.toDigits_ne_nil (b := 10) (n := n.natAbs))
    exact ⟨c, t, hc, .inr (allDigits_toDigits n.natAbs c (hc ▸ List.mem_cons_self))⟩

/-- The text of a value begins with neither a blank nor anything that ends or parts items. -/
theorem write_cons {v : Value} (hv : v.Whole) : ∃ c t, v.write = c :: t ∧ Opens c := by
  cases v with
  | null => exact ⟨'n', _, rfl, by decide, by decide, by decide⟩
  | bool b =>
    cases b with
    | true => exact ⟨'t', _, rfl, by decide, by decide, by decide⟩
    | false => exact ⟨'f', _, rfl, by decide, by decide, by decide⟩
  | number n =>
    obtain ⟨i, rfl, -⟩ := hv
    obtain ⟨c, t, hc, hopen⟩ := writeInt_cons i
    refine ⟨c, t, hc, ?_⟩
    rcases hopen with rfl | hd
    · exact ⟨by decide, by decide, by decide⟩
    · exact opens_digit hd
  | string s => exact ⟨'"', _, rfl, by decide, by decide, by decide⟩
  | array vs => exact ⟨'[', _, rfl, by decide, by decide, by decide⟩
  | object ms => exact ⟨'\x7b', _, rfl, by decide, by decide, by decide⟩

theorem beforeItem_lead (first : Bool) {c : Char} (hc : Opens c) (t : List Char) :
    beforeItem first (lead first ++ c :: t) = .ok (some (c :: t), []) := by
  have hskip : skipBlanks (c :: t) = c :: t := skipBlanks_cons hc.blank t
  cases first with
  | true =>
    rw [lead, if_pos rfl, List.nil_append]
    unfold beforeItem
    rw [hskip]
    split
    · rename_i h
      cases h
    · rename_i h
      exact absurd (List.cons.inj h).1 hc.bracket
    · rename_i h
      exact absurd (List.cons.inj h).1 hc.comma
    · rfl
  | false =>
    have hcomma : skipBlanks (lead false ++ c :: t) = ',' :: c :: t := rfl
    unfold beforeItem
    rw [hcomma]
    simp only [Bool.false_eq_true, if_false]
    rw [hskip]
    split
    · rename_i h
      cases h
    · rename_i h
      exact absurd (List.cons.inj h).1 hc.bracket
    · rfl

theorem beforeMember_lead (first : Bool) (t : List Char) :
    beforeMember first (lead first ++ '"' :: t) = .ok (some t, []) := by
  cases first <;> rfl

theorem insertMember_last {name : String} {v : Value} {ms : List (String × Value)}
    (h : ∀ m ∈ ms, m.1 < name) : insertMember name v ms = ms ++ [(name, v)] := by
  induction ms with
  | nil => rfl
  | cons m ms ih =>
    obtain ⟨n, w⟩ := m
    have hlt : n < name := h (n, w) List.mem_cons_self
    rw [insertMember, if_neg (lt_asymm hlt), if_neg (ne_of_gt hlt),
      ih fun m hm => h m (List.mem_cons_of_mem _ hm)]
    rfl

theorem readValueWith_number {c : Char} (hc : c = '-' ∨ isDigit c = true) (fuel depth : Nat) (t : List Char) :
    readValueWith (fuel + 1) depth (c :: t) = (do
      let (n, r) ← readNumber (c :: t)
      return (.number n, r)) := by
  have hblank : isJsonBlank c = false := by
    rcases hc with rfl | hd
    · decide
    · exact (opens_digit hd).blank
  have hne {d : Char} (hm : d ≠ '-') (hd : isDigit d = false) : c ≠ d := by
    rcases hc with rfl | hc
    · exact hm.symm
    · exact ne_of_isDigit hc hd
  rw [readValueWith, skipBlanks_cons hblank]
  split
  · rename_i h
    cases h
  · rename_i h
    exact absurd (List.cons.inj h).1 (hne (by decide) (by decide))
  · rename_i h
    exact absurd (List.cons.inj h).1 (hne (by decide) (by decide))
  · rename_i h
    exact absurd (List.cons.inj h).1 (hne (by decide) (by decide))
  · rename_i h
    exact absurd (List.cons.inj h).1 (hne (by decide) (by decide))
  · rename_i h
    exact absurd (List.cons.inj h).1 (hne (by decide) (by decide))
  · rename_i h
    exact absurd (List.cons.inj h).1 (hne (by decide) (by decide))
  · rename_i h
    obtain ⟨rfl, rfl⟩ := List.cons.inj h
    rw [if_pos hc]

/-- A value that the reader could have made, all of whose numbers are whole. -/
structure Value.Exact (v : Value) (depth : Nat) : Prop where
  whole : v.Whole
  proper : v.Proper depth

mutual

/-- **A value is read back from its text.** An opening bracket takes two steps of the reader, and any other
character one at most. -/
theorem readValueWith_write (v : Value) {fuel depth : Nat} (hv : v.Exact depth)
    (hf : 2 * v.write.length ≤ fuel) {r : List Char} (hr : NumberEnds r) :
    readValueWith fuel depth (v.write ++ r) = .ok (v, r) := by
  obtain ⟨hw, hp⟩ := hv
  obtain ⟨c, t, hc, -⟩ := write_cons hw
  have hpos : 0 < v.write.length := by
    rw [hc]
    exact Nat.succ_pos _
  obtain ⟨fuel, rfl⟩ := Nat.exists_eq_add_one_of_ne_zero (show fuel ≠ 0 by omega)
  cases v with
  | null =>
    rw [readValueWith]
    rfl
  | bool b => cases b <;> rw [readValueWith] <;> rfl
  | number n =>
    obtain ⟨i, rfl, -⟩ := hw
    obtain ⟨c, t, hc, hopen⟩ := writeInt_cons i
    have hlex := Literal.lex?_written (wholeLiteral_wellFormed i) hr
    rw [wholeLiteral_written] at hlex
    have hread := readNumber_of_lex? hlex (number_wholeLiteral hp.1 hp.2)
    rw [Value.write, Number.write]
    rw [hc] at hread ⊢
    rw [List.cons_append] at hread ⊢
    rw [readValueWith_number hopen, hread]
    rfl
  | string s =>
    have hread := readString_quoted s r
    have htext : (Value.string s).write ++ r = '"' :: (s.toList.flatMap escaped ++ '"' :: r) := by
      simp [Value.write, quoted]
    rw [htext, readValueWith, skipBlanks_cons (by decide)]
    simp only [hread]
    rfl
  | array vs =>
    obtain ⟨hdepth, hp⟩ := hp
    obtain ⟨inner, rfl⟩ := Nat.exists_eq_add_of_le' hdepth
    have htext : (Value.array vs).write ++ r = '[' :: (separated true (writeItems vs) ++ ']' :: r) := by
      simp [Value.write, commaSeparated_eq]
    have hlength : (Value.array vs).write.length = (separated true (writeItems vs)).length + 2 := by
      simp [Value.write, commaSeparated_eq]
    have hfuel : 2 * (separated true (writeItems vs)).length + 3 ≤ fuel := by omega
    have hread : readItems fuel (inner + 1) 0 (separated true (writeItems vs) ++ ']' :: r) = .ok (vs, r) :=
      readItems_write vs (beq_self_eq_true 0) hw hp hfuel r
    rw [htext, readValueWith, skipBlanks_cons (by decide)]
    simp only [hread]
    rfl
  | object ms =>
    obtain ⟨hdepth, ho, hp⟩ := hp
    obtain ⟨inner, rfl⟩ := Nat.exists_eq_add_of_le' hdepth
    have htext : (Value.object ms).write ++ r =
        '\x7b' :: (separated true (writeMembers ms) ++ '\x7d' :: r) := by
      simp [Value.write, commaSeparated_eq]
    have hlength : (Value.object ms).write.length = (separated true (writeMembers ms)).length + 2 := by
      simp [Value.write, commaSeparated_eq]
    have hfuel : 2 * (separated true (writeMembers ms)).length + 3 ≤ fuel := by omega
    have hread : readMembers fuel (inner + 1) true [] (separated true (writeMembers ms) ++ '\x7d' :: r) =
        .ok (ms, r) := readMembers_write ms true hw hp (show Ordered ([] ++ ms) from ho) hfuel r
    rw [htext, readValueWith, skipBlanks_cons (by decide)]
    simp only [hread]
    rfl

theorem readItems_write (vs : List Value) {fuel depth index : Nat} {first : Bool}
    (hfirst : (index == 0) = first) (hw : ItemsWhole vs) (hp : ItemsProper vs depth)
    (hf : 2 * (separated first (writeItems vs)).length + 3 ≤ fuel) (r : List Char) :
    readItems fuel depth index (separated first (writeItems vs) ++ ']' :: r) = .ok (vs, r) := by
  obtain ⟨fuel, rfl⟩ := Nat.exists_eq_add_one_of_ne_zero (show fuel ≠ 0 by omega)
  cases vs with
  | nil =>
    rw [readItems]
    rfl
  | cons v vs =>
    obtain ⟨c, t, hc, hopen⟩ := write_cons hw.1
    have hlength : 1 ≤ v.write.length := by
      rw [hc]
      exact Nat.succ_pos _
    rw [writeItems, separated, List.length_append, List.length_append] at hf
    have hbefore : beforeItem first
        (lead first ++ (v.write ++ (separated false (writeItems vs) ++ ']' :: r))) =
          .ok (some (v.write ++ (separated false (writeItems vs) ++ ']' :: r)), []) := by
      rw [hc]
      exact beforeItem_lead first hopen _
    have hv : readValueWith fuel depth (v.write ++ (separated false (writeItems vs) ++ ']' :: r)) =
        .ok (v, separated false (writeItems vs) ++ ']' :: r) :=
      readValueWith_write v ⟨hw.1, hp.1⟩ (by omega) (numberEnds_more (writeItems vs) (.inl rfl) r)
    have hmore : (index + 1 == 0) = false := rfl
    have hvs : readItems fuel depth (index + 1) (separated false (writeItems vs) ++ ']' :: r) = .ok (vs, r) :=
      readItems_write vs hmore hw.2 hp.2 (by omega) r
    rw [readItems, writeItems, separated, List.append_assoc, List.append_assoc, hfirst, hbefore]
    simp only [bind, Except.bind, hv, inPart, Except.mapError, hvs]
    rfl

theorem readMembers_write (ms : List (String × Value)) {fuel depth : Nat} (first : Bool)
    {before : List (String × Value)} (hw : MembersWhole ms) (hp : MembersProper ms depth)
    (ho : Ordered (before ++ ms)) (hf : 2 * (separated first (writeMembers ms)).length + 3 ≤ fuel)
    (r : List Char) :
    readMembers fuel depth first before (separated first (writeMembers ms) ++ '\x7d' :: r) =
      .ok (before ++ ms, r) := by
  obtain ⟨fuel, rfl⟩ := Nat.exists_eq_add_one_of_ne_zero (show fuel ≠ 0 by omega)
  cases ms with
  | nil =>
    rw [readMembers, List.append_nil]
    rfl
  | cons m ms =>
    obtain ⟨n, v⟩ := m
    obtain ⟨c, t, hc, -⟩ := write_cons hw.1
    have hlength : 1 ≤ v.write.length := by
      rw [hc]
      exact Nat.succ_pos _
    rw [writeMembers, separated, List.length_append, List.length_append, List.length_append,
      List.length_cons] at hf
    have htext : quoted n.toList ++ ':' :: v.write ++ (separated false (writeMembers ms) ++ '\x7d' :: r) =
        '"' :: (n.toList.flatMap escaped ++
          '"' :: ':' :: (v.write ++ (separated false (writeMembers ms) ++ '\x7d' :: r))) := by
      simp [quoted]
    have hname := readString_quoted n (':' :: (v.write ++ (separated false (writeMembers ms) ++ '\x7d' :: r)))
    have hcolon : readColon (':' :: (v.write ++ (separated false (writeMembers ms) ++ '\x7d' :: r))) =
        .ok (v.write ++ (separated false (writeMembers ms) ++ '\x7d' :: r)) := rfl
    have hv : readValueWith fuel depth (v.write ++ (separated false (writeMembers ms) ++ '\x7d' :: r)) =
        .ok (v, separated false (writeMembers ms) ++ '\x7d' :: r) :=
      readValueWith_write v ⟨hw.1, hp.1⟩ (by omega) (numberEnds_more (writeMembers ms) (.inr rfl) r)
    have hput : insertMember n v before = before ++ [(n, v)] :=
      insertMember_last fun m hm => (List.pairwise_append.mp ho).2.2 m hm (n, v) List.mem_cons_self
    have hms : readMembers fuel depth false (before ++ [(n, v)])
        (separated false (writeMembers ms) ++ '\x7d' :: r) = .ok (before ++ [(n, v)] ++ ms, r) :=
      readMembers_write ms false hw.2 hp.2 (by simpa using ho) (by omega) r
    rw [readMembers, writeMembers, separated, List.append_assoc, List.append_assoc, htext,
      beforeMember_lead]
    simp only [bind, Except.bind, hname, hcolon, hv, inPart, Except.mapError, hput, hms]
    simp

end

/-- **A value is read back from its text**, whatever follows that belongs to no number. -/
theorem readValue_write {v : Value} {depth : Nat} (hv : v.Exact depth) {r : List Char} (hr : NumberEnds r) :
    readValue depth (v.write ++ r) = .ok (v, r) := by
  refine readValueWith_write v hv ?_ hr
  rw [List.length_append]
  omega

/-- **A whole text of a value is read back as that value.** -/
theorem parse_write {v : Value} (hv : v.Exact depthLimit) : parse readValue v.write = .ok v := by
  have hread := readValue_write hv numberEnds_nil
  rw [List.append_nil] at hread
  rw [parse, hread]
  rfl

end RunDispatch.Json
