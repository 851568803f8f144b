/-
# What the reader makes of a text

Whatever the reader of values takes from a text is a phrase that the text begins with, and the value that it
makes of it denotes what the phrase denotes, but for the numbers: these denote what is kept of them. The
members of an object come out in the order of their names, each name once, and of a name that is there more
than once the last member counts.

Key definitions: `Value.meaning`, `Value.Proper`, `ReadAs`.
Key theorems: `readString_sound`, `readValueWith_sound`, `readValue_sound`.
-/
import Mathlib.Data.String.Basic
import RunDispatch.Json.Reader
import RunDispatch.Proofs.Json.Shown
import RunDispatch.Proofs.Staging.Frame

namespace RunDispatch.Json

open Staging (ok_of_bind)

/-! ### What a value denotes -/

mutual

/-- What a value denotes, its numbers as they are shown. -/
def Value.meaning : Value → Meaning
  | .null => .null
  | .bool b => .bool b
  | .number n => .number n.shown
  | .string s => .string s
  | .array items => .array (valueMeanings items)
  | .object members => .object (lastOf (entryMeanings members))

def valueMeanings : List Value → List Meaning
  | [] => []
  | v :: vs => v.meaning :: valueMeanings vs

def entryMeanings : List (String × Value) → List (String × Meaning)
  | [] => []
  | (n, v) :: ms => (n, v.meaning) :: entryMeanings ms

end

/-- Members in the order of their names, each name once. -/
def Ordered (ms : List (String × Value)) : Prop := ms.Pairwise fun a b => a.1 < b.1

mutual

/-- A value that fits into the depth that is left: its numbers fit, and the members of its objects are in
order. -/
def Value.Proper : Value → Nat → Prop
  | .number n, _ => n.Fits
  | .array items, depth => 2 ≤ depth ∧ ItemsProper items (depth - 1)
  | .object members, depth => 2 ≤ depth ∧ Ordered members ∧ MembersProper members (depth - 1)
  | _, _ => True

def ItemsProper : List Value → Nat → Prop
  | [], _ => True
  | v :: vs, depth => v.Proper depth ∧ ItemsProper vs depth

def MembersProper : List (String × Value) → Nat → Prop
  | [], _ => True
  | (_, v) :: ms, depth => v.Proper depth ∧ MembersProper ms depth

end

mutual

theorem Value.Proper.mono {v : Value} {d e : Nat} (h : v.Proper d) (hde : d ≤ e) : v.Proper e := by
  cases v with
  | null => trivial
  | bool => trivial
  | number => exact h
  | string => trivial
  | array vs => exact ⟨Nat.le_trans h.1 hde, h.2.mono (Nat.sub_le_sub_right hde 1)⟩
  | object ms => exact ⟨Nat.le_trans h.1 hde, h.2.1, h.2.2.mono (Nat.sub_le_sub_right hde 1)⟩

theorem ItemsProper.mono {vs : List Value} {d e : Nat} (h : ItemsProper vs d) (hde : d ≤ e) :
    ItemsProper vs e := by
  cases vs with
  | nil => trivial
  | cons v vs => exact ⟨h.1.mono hde, h.2.mono hde⟩

theorem MembersProper.mono {ms : List (String × Value)} {d e : Nat} (h : MembersProper ms d) (hde : d ≤ e) :
    MembersProper ms e := by
  cases ms with
  | nil => trivial
  | cons m ms => exact ⟨h.1.mono hde, h.2.mono hde⟩

end

/-! ### Members in order -/

theorem mem_insertMember {name n : String} {v w : Value} {ms : List (String × Value)}
    (h : (n, w) ∈ insertMember name v ms) : (n, w) = (name, v) ∨ (n, w) ∈ ms := by
  induction ms with
  | nil => exact .inl (List.mem_singleton.mp h)
  | cons m r ih =>
    obtain ⟨k, u⟩ := m
    simp only [insertMember] at h
    split at h
    · rcases List.mem_cons.mp h with h | h
      · exact .inl h
      · exact .inr h
    · split at h
      · rcases List.mem_cons.mp h with h | h
        · exact .inl h
        · exact .inr (List.mem_cons_of_mem _ h)
      · rcases List.mem_cons.mp h with h | h
        · exact .inr (h ▸ List.mem_cons_self)
        · rcases ih h with h | h
          · exact .inl h
          · exact .inr (List.mem_cons_of_mem _ h)

/-- A member that is put in leaves the members in order. -/
theorem Ordered.insertMember {ms : List (String × Value)} (h : Ordered ms) (name : String) (v : Value) :
    Ordered (insertMember name v ms) := by
  induction ms with
  | nil => exact List.pairwise_singleton _ _
  | cons m r ih =>
    obtain ⟨n, w⟩ := m
    obtain ⟨hhead, hrest⟩ := List.pairwise_cons.mp h
    simp only [Json.insertMember]
    split
    · rename_i hlt
      refine List.pairwise_cons.mpr ⟨fun m hm => ?_, h⟩
      rcases List.mem_cons.mp hm with rfl | hm
      · exact hlt
      · exact lt_trans hlt (hhead m hm)
    · rename_i hge
      split
      · rename_i heq
        subst heq
        exact List.pairwise_cons.mpr ⟨hhead, hrest⟩
      · rename_i hne
        have hlt : n < name := lt_of_le_of_ne (not_lt.mp hge) (Ne.symm hne)
        refine List.pairwise_cons.mpr ⟨fun m hm => ?_, ih hrest⟩
        rcases mem_insertMember hm with h | h
        · cases h
          exact hlt
        · exact hhead m h

theorem MembersProper.insertMember {ms : List (String × Value)} {depth : Nat} (h : MembersProper ms depth)
    (name : String) {v : Value} (hv : v.Proper depth) : MembersProper (insertMember name v ms) depth := by
  induction ms with
  | nil => exact ⟨hv, trivial⟩
  | cons m r ih =>
    obtain ⟨n, w⟩ := m
    simp only [Json.insertMember]
    split
    · exact ⟨hv, h⟩
    · split
      · exact ⟨hv, h.2⟩
      · exact ⟨h.1, ih h.2⟩

theorem lastOf_eq_none {ms : List (String × Value)} {name : String} (h : ∀ m ∈ ms, name < m.1) :
    lastOf (entryMeanings ms) name = none := by
  induction ms with
  | nil => rfl
  | cons m r ih =>
    obtain ⟨n, w⟩ := m
    have hne : n ≠ name := (ne_of_lt (h _ List.mem_cons_self)).symm
    simp only [entryMeanings, lastOf]
    rw [ih fun m hm => h m (List.mem_cons_of_mem _ hm), if_neg hne]
    rfl

/-- A member that is put in counts for its name, and the others count as before. -/
theorem lastOf_insertMember {ms : List (String × Value)} (h : Ordered ms) (name n : String) (v : Value) :
    lastOf (entryMeanings (insertMember name v ms)) n =
      if name = n then some v.meaning else lastOf (entryMeanings ms) n := by
  induction ms with
  | nil => simp [insertMember, entryMeanings, lastOf]
  | cons m r ih =>
    obtain ⟨k, w⟩ := m
    obtain ⟨hhead, hrest⟩ := List.pairwise_cons.mp h
    simp only [insertMember]
    split
    · rename_i hlt
      by_cases hn : name = n
      · subst hn
        have hall : ∀ m ∈ (k, w) :: r, name < m.1 := by
          intro m hm
          rcases List.mem_cons.mp hm with rfl | hm
          · exact hlt
          · exact lt_trans hlt (hhead m hm)
        have hnone := lastOf_eq_none hall
        simp only [entryMeanings, lastOf] at hnone ⊢
        rw [hnone]
        simp
      · simp [entryMeanings, lastOf, hn]
    · split
      · rename_i heq
        subst heq
        by_cases hn : name = n
        · subst hn
          have hnone := lastOf_eq_none hhead
          simp [entryMeanings, lastOf, hnone]
        · simp [entryMeanings, lastOf, hn]
      · rename_i hne
        simp only [entryMeanings, lastOf]
        rw [ih hrest]
        by_cases hn : name = n
        · subst hn
          simp [Ne.symm hne]
        · simp [hn]

/-! ### Strings -/

theorem readWord_sound {ws cs r : List Char} (h : readWord ws cs = .ok r) : cs = ws ++ r := by
  induction ws generalizing cs with
  | nil =>
    cases h
    rfl
  | cons w ws ih =>
    cases cs with
    | nil => cases h
    | cons c cs =>
      rw [readWord] at h
      split at h
      · rename_i hc
        rw [ih h, hc, List.cons_append]
      · cases h

theorem readHex4_sound {cs r : List Char} {n : Nat} (h : readHex4 cs = .ok (n, r)) :
    ∃ a b c d, cs = a :: b :: c :: d :: r ∧ quad? a b c d = some n := by
  unfold readHex4 at h
  split at h
  · split at h
    · rename_i a b c d t _ _ _ _ _ _ _ _ ha hb hc hd
      cases h
      exact ⟨a, b, c, d, rfl, by rw [quad?, ha, hb, hc, hd]; rfl⟩
    · cases h
  · split at h <;> cases h

theorem chars?_unit {n : Nat} (hl : isLowSurrogate n = false) (hh : isHighSurrogate n = false)
    (ps : List Piece) : chars? (.unit n :: ps) = (chars? ps).map (Char.ofNat n :: ·) := by
  cases ps with
  | nil => simp [chars?, hl, hh]
  | cons p ps => cases p <;> simp [chars?, hl, hh]

theorem chars?_pair {n m : Nat} (hh : isHighSurrogate n = true) (hl : isLowSurrogate m = true)
    (ps : List Piece) : chars? (.unit n :: .unit m :: ps) = (chars? ps).map (pairOf n m :: ·) := by
  have hn : isLowSurrogate n = false := by
    simp only [isHighSurrogate, isLowSurrogate, Bool.and_eq_true, Bool.and_eq_false_iff, decide_eq_true_eq,
      decide_eq_false_iff_not] at *
    omega
  simp [chars?, hn, hh, hl]

/-- The pieces of a character that is given by its number are one unit, or a pair. -/
theorem readUnicode_sound {cs r : List Char} {c : Char} (h : readUnicode cs = .ok (c, r)) :
    ∃ ps : List Piece,
      (∀ qs t, Body qs r t → Body (ps ++ qs) ('\\' :: 'u' :: cs) t) ∧
        ∀ qs, chars? (ps ++ qs) = (chars? qs).map (c :: ·) := by
  obtain ⟨⟨n, t⟩, hn, hrest⟩ := ok_of_bind h
  obtain ⟨w, x, y, z, rfl, hquad⟩ := readHex4_sound hn
  simp only at hrest
  split at hrest
  · cases hrest
  · rename_i hlow
    split at hrest
    · rename_i hhigh
      cases hrest
      exact ⟨[.unit n], fun qs t hq => .unit hquad hq,
        chars?_unit (by simpa using hlow) (by simpa using hhigh)⟩
    · rename_i hhigh
      split at hrest
      · cases hrest
      · cases hrest
      · obtain ⟨⟨m, u⟩, hm, hpair⟩ := ok_of_bind hrest
        obtain ⟨w', x', y', z', rfl, hquad'⟩ := readHex4_sound hm
        simp only at hpair
        split at hpair
        · rename_i hlow'
          obtain ⟨hc, hr⟩ := Prod.mk.inj (Except.ok.inj hpair)
          subst hc hr
          exact ⟨[.unit n, .unit m], fun qs t hq => .unit hquad (.unit hquad' hq),
            chars?_pair (by simpa using hhigh) hlow'⟩
        · cases hpair
      · cases hrest

theorem readEscape_sound {cs r : List Char} {c : Char} (h : readEscape cs = .ok (c, r)) :
    ∃ ps : List Piece,
      (∀ qs t, Body qs r t → Body (ps ++ qs) ('\\' :: cs) t) ∧
        ∀ qs, chars? (ps ++ qs) = (chars? qs).map (c :: ·) := by
  unfold readEscape at h
  split at h
  · cases h
  · exact readUnicode_sound h
  · split at h
    · rename_i e t _ d hd
      cases h
      exact ⟨[.char c], fun qs t hq => .short hd hq, fun qs => rfl⟩
    · cases h

theorem readStringFrom_sound {fuel : Nat} {cs s r : List Char} (h : readStringFrom fuel cs = .ok (s, r)) :
    ∃ ps, Body ps cs r ∧ chars? ps = some s := by
  induction fuel generalizing cs s r with
  | zero => cases h
  | succ fuel ih =>
    cases cs with
    | nil => cases h
    | cons c cs =>
      rw [readStringFrom] at h
      split at h
      · rename_i hquote
        cases h
        subst hquote
        exact ⟨[], .close, rfl⟩
      · rename_i hquote
        split at h
        · rename_i hslash
          obtain ⟨⟨d, t⟩, he, h⟩ := ok_of_bind h
          obtain ⟨⟨u, v⟩, hs, h⟩ := ok_of_bind h
          cases h
          obtain ⟨ps, hbody, hchars⟩ := readEscape_sound he
          obtain ⟨qs, hq, hqs⟩ := ih hs
          refine ⟨ps ++ qs, hslash ▸ hbody qs _ hq, ?_⟩
          rw [hchars, hqs]
          rfl
        · rename_i hslash
          split at h
          · cases h
          · rename_i hcontrol
            obtain ⟨⟨u, v⟩, hs, h⟩ := ok_of_bind h
            cases h
            obtain ⟨qs, hq, hqs⟩ := ih hs
            refine ⟨.char c :: qs, .char hquote hslash (Nat.le_of_not_lt hcontrol) hq, ?_⟩
            rw [chars?, hqs]
            rfl

/-- **What is read of a string is what its pieces spell.** -/
theorem readString_sound {cs r : List Char} {s : String} (h : readString cs = .ok (s, r)) :
    ∃ ps, Body ps cs r ∧ (chars? ps).isSome ∧ textOf ps = s := by
  obtain ⟨⟨u, t⟩, hs, h⟩ := ok_of_bind h
  cases h
  obtain ⟨ps, hbody, hchars⟩ := readStringFrom_sound hs
  refine ⟨ps, hbody, by rw [hchars]; rfl, ?_⟩
  rw [textOf, hchars]
  rfl

/-! ### Between the parts -/

theorem skipBlanks_skipBlanks (cs : List Char) : skipBlanks (skipBlanks cs) = skipBlanks cs := by
  induction cs with
  | nil => rfl
  | cons c t ih =>
    by_cases hc : isJsonBlank c
    · have hskip : skipBlanks (c :: t) = skipBlanks t := List.dropWhile_cons_of_pos hc
      rw [hskip]
      exact ih
    · have hskip : skipBlanks (c :: t) = c :: t := List.dropWhile_cons_of_neg hc
      rw [hskip, hskip]

theorem Begins.of_skipBlanks {x : Phrase} {cs r : List Char} (h : Begins x (skipBlanks cs) r) :
    Begins x cs r := by
  cases h with
  | null h => exact .null (by rwa [skipBlanks_skipBlanks] at h)
  | yes h => exact .yes (by rwa [skipBlanks_skipBlanks] at h)
  | no h => exact .no (by rwa [skipBlanks_skipBlanks] at h)
  | number h => exact .number (by rwa [skipBlanks_skipBlanks] at h)
  | string h hs => exact .string (by rwa [skipBlanks_skipBlanks] at h) hs
  | array h hi => exact .array (by rwa [skipBlanks_skipBlanks] at h) hi
  | object h hm => exact .object (by rwa [skipBlanks_skipBlanks] at h) hm

theorem beforeItem_end {first : Bool} {cs r : List Char} (h : beforeItem first cs = .ok (none, r)) :
    skipBlanks cs = ']' :: r := by
  unfold beforeItem at h
  split at h
  · cases h
  · rename_i hcs
    cases h
    exact hcs
  · split at h
    · cases h
    · split at h <;> cases h
  · split at h <;> cases h

/-- Before an item that is not the first stands a comma. -/
theorem beforeItem_item {first : Bool} {cs s r : List Char} (h : beforeItem first cs = .ok (some s, r)) :
    (first = true ∧ s = skipBlanks cs) ∨
      (first = false ∧ ∃ e, skipBlanks cs = ',' :: e ∧ s = skipBlanks e) := by
  unfold beforeItem at h
  split at h
  · cases h
  · cases h
  · rename_i e hcs
    split at h
    · rename_i hfirst
      cases h
      exact .inl ⟨hfirst, hcs.symm⟩
    · rename_i hfirst
      split at h
      · cases h
      · cases h
      · cases h
        exact .inr ⟨by simpa using hfirst, e, hcs, rfl⟩
  · split at h
    · rename_i hfirst
      cases h
      exact .inl ⟨hfirst, rfl⟩
    · cases h

theorem Items.of_beforeItem {first : Bool} {cs s t d r : List Char} {x : Phrase} {xs : List Phrase}
    (h : beforeItem first cs = .ok (some s, t)) (hx : Begins x s d) (hxs : Items false xs d r) :
    Items first (x :: xs) cs r := by
  rcases beforeItem_item h with ⟨rfl, rfl⟩ | ⟨rfl, e, he, rfl⟩
  · exact .first hx.of_skipBlanks hxs
  · exact .next he hx.of_skipBlanks hxs

theorem beforeMember_end {first : Bool} {cs r : List Char} (h : beforeMember first cs = .ok (none, r)) :
    skipBlanks cs = '\x7d' :: r := by
  unfold beforeMember at h
  split at h
  · cases h
  · rename_i hcs
    cases h
    exact hcs
  · split at h
    · split at h <;> cases h
    · split at h
      · split at h <;> cases h
      · cases h

/-- Before a member that is not the first stands a comma, and its name is a string. -/
theorem beforeMember_member {first : Bool} {cs s r : List Char}
    (h : beforeMember first cs = .ok (some s, r)) :
    (first = true ∧ skipBlanks cs = '"' :: s) ∨
      (first = false ∧ ∃ e, skipBlanks cs = ',' :: e ∧ skipBlanks e = '"' :: s) := by
  unfold beforeMember at h
  split at h
  · cases h
  · cases h
  · rename_i c e _ hcs
    split at h
    · rename_i hfirst
      split at h
      · rename_i hc
        cases h
        exact .inl ⟨hfirst, by rw [hcs, hc]⟩
      · cases h
    · rename_i hfirst
      split at h
      · rename_i hc
        split at h
        · cases h
        · rename_i he
          cases h
          exact .inr ⟨by simpa using hfirst, e, by rw [hcs, hc], he⟩
        · cases h
        · cases h
      · cases h

theorem readColon_sound {cs r : List Char} (h : readColon cs = .ok r) : skipBlanks cs = ':' :: r := by
  unfold readColon at h
  split at h
  · cases h
  · rename_i hcs
    cases h
    exact hcs
  · cases h

theorem Members.of_beforeMember {first : Bool} {cs s t d c u r : List Char} {ps : List Piece} {x : Phrase}
    {ms : List (List Piece × Phrase)} (h : beforeMember first cs = .ok (some s, t)) (hs : Body ps s d)
    (hc : readColon d = .ok c) (hx : Begins x c u) (hms : Members false ms u r) :
    Members first ((ps, x) :: ms) cs r := by
  rcases beforeMember_member h with ⟨rfl, hq⟩ | ⟨rfl, e, he, hq⟩
  · exact .first hq hs (readColon_sound hc) hx hms
  · exact .next he hq hs (readColon_sound hc) hx hms

theorem inPart_ok {α : Type} {s : Step} {x : Except Failure α} {a : α} (h : inPart s x = .ok a) :
    x = .ok a := by
  cases x with
  | error f => cases h
  | ok b =>
    cases h
    rfl

/-- Nothing is read of a text of another shape. -/
theorem refuseType_ne_ok {α : Type} {wanted : String} {cs : List Char} {a : α} :
    refuseType wanted cs ≠ .ok a := by
  intro h
  unfold refuseType at h
  split at h
  · cases h
  · obtain ⟨_, -, h⟩ := ok_of_bind h
    cases h
  · obtain ⟨_, -, h⟩ := ok_of_bind h
    cases h
  · obtain ⟨_, -, h⟩ := ok_of_bind h
    cases h
  · obtain ⟨_, -, h⟩ := ok_of_bind h
    cases h
  · cases h
  · cases h
  · split at h
    · obtain ⟨_, -, h⟩ := ok_of_bind h
      cases h
    · cases h

/-! ### Values -/

/-- A phrase whose strings spell characters is read as a value, which fits into the depth. -/
structure ReadAs (x : Phrase) (v : Value) (depth : Nat) : Prop where
  paired : x.Paired
  meaning : x.meaning Literal.kept = v.meaning
  proper : v.Proper depth

mutual

/-- **A value is read of a phrase that the text begins with, and denotes what the phrase does.** -/
theorem readValueWith_sound {fuel depth : Nat} {cs r : List Char} {v : Value}
    (h : readValueWith fuel depth cs = .ok (v, r)) : ∃ x, Begins x cs r ∧ ReadAs x v depth := by
  match fuel with
  | 0 =>
    rw [readValueWith] at h
    cases h
  | fuel + 1 =>
    rw [readValueWith] at h
    split at h
    · cases h
    · rename_i t ht
      obtain ⟨u, hu, h⟩ := ok_of_bind h
      cases h
      rw [readWord_sound hu] at ht
      exact ⟨.null, .null ht, trivial, rfl, trivial⟩
    · rename_i t ht
      obtain ⟨u, hu, h⟩ := ok_of_bind h
      cases h
      rw [readWord_sound hu] at ht
      exact ⟨.bool true, .yes ht, trivial, rfl, trivial⟩
    · rename_i t ht
      obtain ⟨u, hu, h⟩ := ok_of_bind h
      cases h
      rw [readWord_sound hu] at ht
      exact ⟨.bool false, .no ht, trivial, rfl, trivial⟩
    · rename_i t ht
      obtain ⟨⟨s, u⟩, hs, h⟩ := ok_of_bind h
      cases h
      obtain ⟨ps, hbody, hsome, htext⟩ := readString_sound hs
      exact ⟨.string ps, .string ht hbody, hsome, congrArg Meaning.string htext, trivial⟩
    · rename_i t ht
      split at h
      · cases h
      · cases h
      · rename_i inner hinner
        obtain ⟨⟨vs, u⟩, hvs, h⟩ := ok_of_bind h
        cases h
        obtain ⟨xs, hitems, hpaired, hmeaning, hproper⟩ := readItems_sound hvs
        have hdepth : 2 ≤ inner + 1 := Nat.succ_le_succ (Nat.pos_of_ne_zero hinner)
        exact ⟨.array xs, .array ht hitems, hpaired, congrArg Meaning.array hmeaning, hdepth, hproper⟩
    · rename_i t ht
      split at h
      · cases h
      · cases h
      · rename_i inner hinner
        obtain ⟨⟨ms, u⟩, hms, h⟩ := ok_of_bind h
        cases h
        obtain ⟨ps, hmembers, hpaired, hmeaning, hordered, hproper⟩ :=
          readMembers_sound hms List.Pairwise.nil trivial
        have hdepth : 2 ≤ inner + 1 := Nat.succ_le_succ (Nat.pos_of_ne_zero hinner)
        refine ⟨.object ps, .object ht hmembers, hpaired, congrArg Meaning.object (funext fun n => ?_),
          hdepth, hordered, hproper⟩
        rw [hmeaning n]
        exact (Option.or_none).symm
    · rename_i c t _ _ _ _ _ _ ht
      split at h
      · obtain ⟨⟨n, u⟩, hn, h⟩ := ok_of_bind h
        cases h
        obtain ⟨l, hl, hnumber⟩ := lex?_of_readNumber hn
        rw [← ht] at hl
        exact ⟨.number l, .number hl, trivial, congrArg Meaning.number (Literal.kept_of_number hnumber),
          Literal.number_fits hnumber⟩
      · cases h

/-- The items of an array are read of phrases. -/
theorem readItems_sound {fuel depth index : Nat} {cs r : List Char} {vs : List Value}
    (h : readItems fuel depth index cs = .ok (vs, r)) :
    ∃ xs, Items (index == 0) xs cs r ∧ ItemsPaired xs ∧
      itemMeanings Literal.kept xs = valueMeanings vs ∧ ItemsProper vs depth := by
  match fuel with
  | 0 =>
    rw [readItems] at h
    cases h
  | fuel + 1 =>
    rw [readItems] at h
    obtain ⟨⟨s, t⟩, hs, h⟩ := ok_of_bind h
    cases s with
    | none =>
      cases h
      exact ⟨[], .close (beforeItem_end hs), trivial, rfl, trivial⟩
    | some s =>
      obtain ⟨⟨v, u⟩, hv, h⟩ := ok_of_bind h
      obtain ⟨⟨ws, w⟩, hws, h⟩ := ok_of_bind h
      cases h
      obtain ⟨x, hx, hread⟩ := readValueWith_sound (inPart_ok hv)
      obtain ⟨xs, hxs, hpaired, hmeaning, hproper⟩ := readItems_sound hws
      refine ⟨x :: xs, .of_beforeItem hs hx hxs, ⟨hread.paired, hpaired⟩, ?_, hread.proper, hproper⟩
      simp only [itemMeanings, valueMeanings, hread.meaning, hmeaning]

/-- The members of an object are read of named phrases, and come after those read before. -/
theorem readMembers_sound {fuel depth : Nat} {first : Bool} {before ms : List (String × Value)}
    {cs r : List Char} (h : readMembers fuel depth first before cs = .ok (ms, r))
    (hordered : Ordered before) (hproper : MembersProper before depth) :
    ∃ ps, Members first ps cs r ∧ MembersPaired ps ∧
      (∀ n, lastOf (entryMeanings ms) n =
        (lastOf (memberMeanings Literal.kept ps) n).or (lastOf (entryMeanings before) n)) ∧
      Ordered ms ∧ MembersProper ms depth := by
  match fuel with
  | 0 =>
    rw [readMembers] at h
    cases h
  | fuel + 1 =>
    rw [readMembers] at h
    obtain ⟨⟨s, t⟩, hs, h⟩ := ok_of_bind h
    cases s with
    | none =>
      cases h
      exact ⟨[], .close (beforeMember_end hs), trivial, fun _ => rfl, hordered, hproper⟩
    | some s =>
      obtain ⟨⟨name, d⟩, hname, h⟩ := ok_of_bind h
      obtain ⟨c, hc, h⟩ := ok_of_bind h
      obtain ⟨⟨v, u⟩, hv, h⟩ := ok_of_bind h
      obtain ⟨ps, hbody, hsome, rfl⟩ := readString_sound hname
      obtain ⟨x, hx, hread⟩ := readValueWith_sound (inPart_ok hv)
      obtain ⟨qs, hqs, hpaired, hmeaning, hordered', hproper'⟩ :=
        readMembers_sound h (hordered.insertMember _ v) (hproper.insertMember _ hread.proper)
      refine ⟨(ps, x) :: qs, .of_beforeMember hs hbody hc hx hqs, ⟨hsome, hread.paired, hpaired⟩,
        fun n => ?_, hordered', hproper'⟩
      rw [hmeaning n, lastOf_insertMember hordered]
      simp only [memberMeanings, lastOf, hread.meaning]
      by_cases hn : textOf ps = n <;> simp [hn]

end

/-- **Whatever the reader takes from a text is a phrase, and the value denotes what the phrase does.** -/
theorem readValue_sound {depth : Nat} {cs r : List Char} {v : Value} (h : readValue depth cs = .ok (v, r)) :
    ∃ x, Begins x cs r ∧ ReadAs x v depth := readValueWith_sound h

end RunDispatch.Json
