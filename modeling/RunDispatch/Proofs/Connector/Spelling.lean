/-
# The spellings of a connector

One connector has many spellings: with hyphens or without, in braces, as a URN, in letters of either
case, and each of them after `connectors/`. The readable texts are those spellings and no others, and
what is read are the digits that were spelled. So two spellings of one number name the same containers
and the same staged files, which is what marks a run as dispatched and what cleanup goes by.

Key definitions: `Id.Spells`, `Id.Grouped`, `Id.Spelt`, `Id.Bare`, `Id.Named`, `Canonical`.
Key theorems: `Id.ofHyphenated?_eq_some_iff`, `Id.ofUuid?_eq_some_iff`, `Id.parse_eq_ok_iff`,
`Id.value_injective`, `Id.named_display`, `canonical`.
-/
import Mathlib.Data.List.Forall2
import Mathlib.Data.Nat.Digits.Lemmas
import RunDispatch.Proofs.Acceptance

namespace RunDispatch.Connector

namespace Id

/-! ### Digits -/

/-- A character spells a digit, in either case. -/
def Spells (c : Char) (d : Fin 16) : Prop :=
  "0123456789abcdef".toList[d.val]? = some c ∨ "0123456789ABCDEF".toList[d.val]? = some c

instance (c : Char) (d : Fin 16) : Decidable (Spells c d) :=
  inferInstanceAs (Decidable (_ ∨ _))

theorem Spells.digit? {c : Char} {d : Fin 16} (h : Spells c d) : digit? c = some d := by
  have lower : ∀ d : Fin 16, "0123456789abcdef".toList[d.val]?.bind Id.digit? = some d := by decide
  have upper : ∀ d : Fin 16, "0123456789ABCDEF".toList[d.val]?.bind Id.digit? = some d := by decide
  rcases h with h | h
  · rw [← lower d, h, Option.bind_some]
  · rw [← upper d, h, Option.bind_some]

theorem lt_of_hexValue? {c : Char} {n : Nat} (h : Text.hexValue? c = some n) : c.toNat < 0x80 := by
  have bound {e : Char} (he : c ≤ e) : c.toNat ≤ e.toNat := by
    simpa [Char.le_def, UInt32.le_iff_toNat_le] using he
  unfold Text.hexValue? at h
  split at h
  next hc => exact Nat.lt_of_le_of_lt (bound hc.2) (by decide)
  split at h
  next hc => exact Nat.lt_of_le_of_lt (bound hc.2) (by decide)
  split at h
  next hc => exact Nat.lt_of_le_of_lt (bound hc.2) (by decide)
  cases h

theorem digit?_eq_some_iff {c : Char} {d : Fin 16} : digit? c = some d ↔ Spells c d := by
  refine ⟨fun h => ?_, Spells.digit?⟩
  have all : ∀ n < 0x80, ∀ d, digit? (Char.ofNat n) = some d → Spells (Char.ofNat n) d := by
    decide +kernel
  obtain ⟨n, hn, -⟩ := Option.map_eq_some_iff.mp h
  have := all c.toNat (lt_of_hexValue? hn) d
  rw [Char.ofNat_toNat] at this
  exact this h

theorem Spells.lt {c : Char} {d : Fin 16} (h : Spells c d) : c.toNat < 0x80 := by
  obtain ⟨n, hn, -⟩ := Option.map_eq_some_iff.mp h.digit?
  exact lt_of_hexValue? hn

theorem Spells.ne_hyphen {c : Char} {d : Fin 16} (h : Spells c d) : c ≠ '-' := by
  rintro rfl
  have no_digit : Id.digit? '-' = none := by decide
  rw [h.digit?] at no_digit
  cases no_digit

theorem spells_hexDigit (d : Fin 16) : Spells (Text.hexDigit d.val) d := by
  revert d
  decide

theorem exists_spells {s : List Char} {digits : List (Fin 16)} (h : List.Forall₂ Spells s digits) :
    ∀ c ∈ s, ∃ d, Spells c d := by
  induction h with
  | nil => nofun
  | cons hc _ ih =>
    intro e he
    rcases List.mem_cons.mp he with rfl | he
    · exact ⟨_, hc⟩
    · exact ih e he

theorem mapM_digit?_eq_some_iff {s : List Char} {digits : List (Fin 16)} :
    s.mapM digit? = some digits ↔ List.Forall₂ Spells s digits := by
  induction s generalizing digits with
  | nil =>
    simp [eq_comm]
  | cons c r ih =>
    rw [List.mapM_cons, List.forall₂_cons_left_iff]
    simp only [Option.bind_eq_bind, Option.bind_eq_some_iff, Option.pure_def, Option.some.injEq,
      ih, digit?_eq_some_iff]
    constructor
    · rintro ⟨d, hd, ds, hds, rfl⟩
      exact ⟨d, ds, hd, hds, rfl⟩
    · rintro ⟨d, ds, hd, hds, rfl⟩
      exact ⟨d, hd, ds, hds, rfl⟩

theorem ofDigits?_eq_some_iff {s : List Char} {id : Id} :
    ofDigits? s = some id ↔ List.Forall₂ Spells s id.digits := by
  rw [← mapM_digit?_eq_some_iff]
  simp only [ofDigits?, Option.bind_eq_bind, Option.bind_eq_some_iff]
  constructor
  · rintro ⟨digits, hdigits, h⟩
    split at h
    · cases h
      exact hdigits
    · cases h
  · intro h
    exact ⟨id.digits, h, by simp [id.length_digits]⟩

/-! ### Hyphens -/

/-- A text in which the digits of a connector stand in five groups, with hyphens between them. -/
structure Grouped (id : Id) (groups : List (List Char)) : Prop where
  lengths : groups.map List.length = [8, 4, 4, 4, 12]
  digits : List.Forall₂ Spells groups.flatten id.digits

theorem ofHyphenated?_eq_some_iff {s : List Char} {id : Id} :
    ofHyphenated? s = some id ↔ ∃ groups, id.Grouped groups ∧ s = hyphenated groups := by
  simp only [ofHyphenated?, Option.ite_none_right_eq_some, ofDigits?_eq_some_iff]
  constructor
  · rintro ⟨lengths, digits⟩
    exact ⟨s.splitOn '-', ⟨lengths, digits⟩, (List.intercalate_splitOn '-').symm⟩
  · rintro ⟨groups, ⟨lengths, digits⟩, rfl⟩
    have apart : (hyphenated groups).splitOn '-' = groups := by
      refine List.splitOn_intercalate '-' (fun g hg hyphen => ?_) (by rintro rfl; cases lengths)
      obtain ⟨d, hd⟩ := exists_spells digits _ (List.mem_flatten_of_mem hg hyphen)
      exact hd.ne_hyphen rfl
    rw [apart]
    exact ⟨lengths, digits⟩

theorem Grouped.length {id : Id} {groups : List (List Char)} (h : id.Grouped groups) :
    (hyphenated groups).length = 36 := by
  have lengths := h.lengths
  simp only [List.map_eq_cons_iff, List.map_eq_nil_iff] at lengths
  obtain ⟨a, _, rfl, ha, b, _, rfl, hb, c, _, rfl, hc, d, _, rfl, hd, e, _, rfl, he, rfl⟩ := lengths
  simp [hyphenated, ha, hb, hc, hd, he]

theorem Grouped.lt {id : Id} {groups : List (List Char)} (h : id.Grouped groups) :
    ∀ c ∈ hyphenated groups, c.toNat < 0x80 := by
  intro c hc
  by_cases hyphen : c = '-'
  · subst hyphen
    decide
  · have apart : ∀ e ∈ groups.flatten, e ≠ '-' := by
      intro e he
      obtain ⟨d, hd⟩ := exists_spells h.digits e he
      exact hd.ne_hyphen
    have hc : c ∈ (hyphenated groups).filter (· ≠ '-') := List.mem_filter.mpr ⟨hc, by simpa using hyphen⟩
    rw [filter_hyphenated groups apart] at hc
    obtain ⟨d, hd⟩ := exists_spells h.digits c hc
    exact hd.lt

/-! ### The four spellings -/

/-- A text that is a UUID in one of its four spellings. -/
inductive Spelt (id : Id) : List Char → Prop
  | plain {s : List Char} (h : List.Forall₂ Spells s id.digits) : Spelt id s
  | hyphenated {groups : List (List Char)} (h : id.Grouped groups) :
      Spelt id (Id.hyphenated groups)
  | braced {groups : List (List Char)} (h : id.Grouped groups) :
      Spelt id ('\x7b' :: Id.hyphenated groups ++ ['\x7d'])
  | urn {mark : List Char} {groups : List (List Char)}
      (hmark : Text.lowered mark = "urn:uuid:".toList) (h : id.Grouped groups) :
      Spelt id (mark ++ Id.hyphenated groups)

theorem inBraces?_eq_some_iff {t s : List Char} :
    inBraces? t = some s ↔ t = '\x7b' :: s ++ ['\x7d'] := by
  constructor
  · intro h
    unfold inBraces? at h
    split at h
    · split at h
      next r hlast =>
        cases h
        rw [List.cons_append, List.dropLast_append_getLast? _ hlast]
      · cases h
    · cases h
  · rintro rfl
    simp [inBraces?]

theorem octets_of_lt {s : List Char} (h : ∀ c ∈ s, c.toNat < 0x80) : octets s = s.length :=
  Text.length_utf8Chars h

theorem lt_of_toLower {c : Char} (h : c.toLower.toNat < 0x80) : c.toNat < 0x80 := by
  by_cases upper : 'A'.val ≤ c.val ∧ c.val ≤ 'Z'.val
  · have : c.toNat ≤ 'Z'.toNat := UInt32.le_iff_toNat_le.mp upper.2
    exact Nat.lt_of_le_of_lt this (by decide)
  · have same : c.toLower = c := dif_neg upper
    rwa [same] at h

theorem urnMark_lt {mark : List Char} (h : Text.lowered mark = "urn:uuid:".toList) :
    ∀ c ∈ mark, c.toNat < 0x80 := by
  have all : "urn:uuid:".toList.all (fun c => c.toNat < 0x80) = true := by decide
  intro c hc
  exact lt_of_toLower (of_decide_eq_true (List.all_eq_true.mp all _ (h ▸ List.mem_map_of_mem hc)))

theorem hasUrnMark_append {mark : List Char} (h : Text.lowered mark = "urn:uuid:".toList)
    (rest : List Char) : hasUrnMark (mark ++ rest) = true := by
  have start : Text.lowered (mark ++ rest) = Text.lowered mark ++ Text.lowered rest :=
    List.map_append
  rw [hasUrnMark, start, h]
  exact List.isPrefixOf_iff_prefix.mpr (List.prefix_append _ _)

/-- A spelling is read as what it spells. -/
theorem Spelt.ofUuid? {id : Id} {t : List Char} (h : id.Spelt t) : ofUuid? t = some id := by
  cases h with
  | plain h =>
    have length : t.length = 32 := h.length_eq.trans id.length_digits
    have size : octets t = 32 := by
      rw [octets_of_lt, length]
      intro c hc
      obtain ⟨d, hd⟩ := exists_spells h c hc
      exact hd.lt
    simp [Id.ofUuid?, spelling, size, length, ofDigits?_eq_some_iff.mpr h]
  | @hyphenated groups h =>
    have size : octets (Id.hyphenated groups) = 36 := by rw [octets_of_lt h.lt, h.length]
    rw [Id.ofUuid?, spelling, if_pos size]
    exact ofHyphenated?_eq_some_iff.mpr ⟨groups, h, rfl⟩
  | @braced groups h =>
    have size : octets ('\x7b' :: Id.hyphenated groups ++ ['\x7d']) = 38 := by
      rw [octets_of_lt]
      · simp [h.length]
      · intro c hc
        simp only [List.mem_append, List.mem_cons, List.not_mem_nil, or_false] at hc
        rcases hc with (rfl | hc) | rfl
        · decide
        · exact h.lt c hc
        · decide
    have inside := inBraces?_eq_some_iff.mpr (Eq.refl ('\x7b' :: Id.hyphenated groups ++ ['\x7d']))
    have looked : spelling ('\x7b' :: Id.hyphenated groups ++ ['\x7d']) =
        (.hyphenated, Id.hyphenated groups) := by
      rw [spelling, size, if_neg (by decide), if_pos rfl, inside]
    rw [Id.ofUuid?, looked]
    exact ofHyphenated?_eq_some_iff.mpr ⟨groups, h, rfl⟩
  | @urn mark groups hmark h =>
    have length : mark.length = 9 := by
      rw [← Text.length_lowered, hmark]
      decide
    have size : octets (mark ++ Id.hyphenated groups) = 45 := by
      rw [octets_of_lt, List.length_append, length, h.length]
      intro c hc
      rcases List.mem_append.mp hc with hc | hc
      · exact urnMark_lt hmark c hc
      · exact h.lt c hc
    have marked := hasUrnMark_append hmark (Id.hyphenated groups)
    have behind : (mark ++ Id.hyphenated groups).drop urnMark.length = Id.hyphenated groups := by
      have : urnMark.length = mark.length := by
        rw [length]
        decide
      rw [this]
      exact List.drop_left
    have looked : spelling (mark ++ Id.hyphenated groups) = (.hyphenated, Id.hyphenated groups) := by
      rw [spelling, size, if_neg (by decide), if_neg (by decide), if_pos ⟨rfl, marked⟩, behind]
    rw [Id.ofUuid?, looked]
    exact ofHyphenated?_eq_some_iff.mpr ⟨groups, h, rfl⟩

theorem ofUuid?_eq_some_iff {t : List Char} {id : Id} : Id.ofUuid? t = some id ↔ id.Spelt t := by
  refine ⟨fun h => ?_, Spelt.ofUuid?⟩
  unfold Id.ofUuid? spelling at h
  by_cases h36 : octets t = 36
  · simp only [if_pos h36] at h
    obtain ⟨groups, hgroups, rfl⟩ := ofHyphenated?_eq_some_iff.mp h
    exact .hyphenated hgroups
  have free (h : (if t.length = 32 then ofDigits? t else none) = some id) : id.Spelt t :=
    .plain (ofDigits?_eq_some_iff.mp (Option.ite_none_right_eq_some.mp h).2)
  rw [if_neg h36] at h
  by_cases h38 : octets t = 38
  · rw [if_pos h38] at h
    cases hb : inBraces? t with
    | none =>
      rw [hb] at h
      exact free h
    | some s =>
      rw [hb] at h
      obtain ⟨groups, hgroups, rfl⟩ := ofHyphenated?_eq_some_iff.mp h
      rw [inBraces?_eq_some_iff.mp hb]
      exact .braced hgroups
  rw [if_neg h38] at h
  by_cases h45 : octets t = 45 ∧ hasUrnMark t
  · rw [if_pos h45] at h
    obtain ⟨groups, hgroups, hrest⟩ := ofHyphenated?_eq_some_iff.mp h
    have hmark : Text.lowered (t.take urnMark.length) = "urn:uuid:".toList := by
      have start := List.prefix_iff_eq_take.mp (List.isPrefixOf_iff_prefix.mp h45.2)
      rw [Text.lowered, List.map_take]
      exact start.symm
    rw [← List.take_append_drop urnMark.length t, hrest]
    exact .urn hmark hgroups
  · rw [if_neg h45] at h
    exact free h

/-! ### The name of the collection -/

/-- A text without one `connectors/` before it, if it has that. -/
inductive Bare : List Char → List Char → Prop
  | permalink (t : List Char) : Bare ("connectors/".toList ++ t) t
  | itself {t : List Char} (h : ¬ "connectors/".toList <+: t) : Bare t t

theorem bare_iff {raw t : List Char} : Bare raw t ↔ withoutCollection raw = t := by
  have before : ∀ s : List Char, collection.isPrefixOf s = true ↔ "connectors/".toList <+: s :=
    fun s => List.isPrefixOf_iff_prefix
  unfold withoutCollection
  constructor
  · intro h
    cases h with
    | permalink =>
      rw [if_pos ((before _).mpr (List.prefix_append _ _))]
      exact List.drop_left
    | itself h => exact if_neg fun hc => h ((before _).mp hc)
  · intro h
    split at h
    next hc =>
      obtain ⟨rest, rfl⟩ := (before _).mp hc
      have : rest = t := by
        rw [← h]
        exact List.drop_left.symm
      exact this ▸ .permalink rest
    next hc =>
      subst h
      exact .itself fun hp => hc ((before _).mpr hp)

/-- A text that names a connector: one of its spellings, with or without `connectors/` before it. -/
def Named (id : Id) (raw : String) : Prop :=
  ∃ t, Bare raw.toList t ∧ id.Spelt t

theorem parse_eq_ok_iff {raw : String} {id : Id} : parse raw = .ok id ↔ id.Named raw := by
  have named : id.Named raw ↔ ofUuid? (withoutCollection raw.toList) = some id := by
    simp [Named, bare_iff, ofUuid?_eq_some_iff]
  rw [named]
  simp only [parse]
  generalize Id.ofUuid? (withoutCollection raw.toList) = read
  cases read <;> simp

/-! ### Numbers -/

theorem value_eq (id : Id) : id.value = Nat.ofDigits 16 (id.digits.map Fin.val).reverse := by
  rw [Nat.ofDigits_eq_foldr, List.foldr_reverse, List.foldl_map, value]
  congr
  funext n d
  simp
  omega

theorem value_lt (id : Id) : id.value < 2 ^ 128 := by
  rw [value_eq]
  have := Nat.ofDigits_lt_base_pow_length (b := 16) (l := (id.digits.map Fin.val).reverse) (by decide)
    (by simp)
  simpa [id.length_digits] using this

theorem value_injective {a b : Id} (h : a.value = b.value) : a = b := by
  have digits_lt : ∀ id : Id, ∀ n ∈ (id.digits.map Fin.val).reverse, n < 16 := by
    intro id n hn
    obtain ⟨d, -, rfl⟩ := List.mem_map.mp (List.mem_reverse.mp hn)
    exact d.isLt
  rw [value_eq, value_eq] at h
  have same := Nat.ofDigits_inj_of_len_eq (by decide) (by simp [length_digits]) (digits_lt a)
    (digits_lt b) h
  have hdigits : a.digits = b.digits :=
    (List.map_inj_right fun _ _ => Fin.ext).mp (List.reverse_injective same)
  cases a
  cases b
  simpa using hdigits

theorem exists_value {n : Nat} (h : n < 2 ^ 128) : ∃ id : Id, id.value = n := by
  have digits : ∀ (k n : Nat), n < 16 ^ k → ∃ l : List (Fin 16), l.length = k ∧
      l.foldl (fun n d => n * 16 + d.val) 0 = n := by
    intro k
    induction k with
    | zero => intro n hn; exact ⟨[], rfl, by simp_all⟩
    | succ k ih =>
      intro n hn
      obtain ⟨l, hl, hv⟩ := ih (n / 16) (by omega)
      refine ⟨l ++ [Fin.ofNat 16 n], by simp [hl], ?_⟩
      simp only [List.foldl_append, hv, List.foldl_cons, List.foldl_nil, Fin.val_ofNat]
      omega
  obtain ⟨l, hl, hv⟩ := digits 32 n (by simpa using h)
  exact ⟨⟨l, hl⟩, hv⟩

/-! ### The displayed form -/

/-- A displayed connector names itself. -/
theorem named_display (id : Id) : id.Named id.display := by
  have grouped : id.Grouped (cut groupLengths (id.digits.map fun d => Text.hexDigit d.val)) := by
    refine ⟨by simp [cut, groupLengths, id.length_digits], ?_⟩
    rw [flatten_groups, List.forall₂_map_left_iff, List.forall₂_same]
    exact fun d _ => spells_hexDigit d
  refine ⟨id.displayChars, ?_, .hyphenated grouped⟩
  rw [display, String.toList_ofList]
  refine .itself fun hp => ?_
  -- The collection's name has letters that are no digits.
  have inside : 'o' ∈ id.displayChars.filter (· ≠ '-') :=
    List.mem_filter.mpr ⟨hp.subset (by decide), by decide⟩
  rw [filter_displayChars] at inside
  obtain ⟨d, -, hd⟩ := List.mem_map.mp inside
  have none : ∀ d : Fin 16, Text.hexDigit d.val ≠ 'o' := by decide
  exact none d hd

end Id

/-! ### One connector, many spellings -/

theorem parseId_eq_ok_iff {raw : String} {id : Id} : parseId raw = .ok id ↔ id.Named raw := by
  rw [← Id.parse_eq_ok_iff, parseId]
  cases Id.parse raw <;> simp [Except.mapError]

/-- What is read of the texts that should name connectors. -/
structure Canonical : Prop where
  /-- A text is read exactly if it is one of the spellings, and as what that spells. -/
  read_iff : ∀ raw id, parseId raw = .ok id ↔ id.Named raw
  /-- Any other text is refused as no identifier. -/
  refused : ∀ raw, (∀ id : Id, ¬ id.Named raw) →
    ∃ v, parseId raw = .error v ∧ v.rejection.category = .identifier
  /-- A connector is the number with its digits. -/
  value_eq : ∀ id : Id, id.value = Nat.ofDigits 16 (id.digits.map Fin.val).reverse
  /-- There is one connector for every number of 128 bits, and for no other. -/
  one_each : ∀ n, n < 2 ^ 128 ↔ ∃! id : Id, id.value = n
  /-- The displayed form is read as the same connector. -/
  displayed : ∀ id : Id, parseId id.display = .ok id
  /-- Two spellings of one number name the same containers and the same staged files. -/
  agree : ∀ raw raw' id id', parseId raw = .ok id → parseId raw' = .ok id' → id.value = id'.value →
    ∀ kind, Container.nameFor id kind = Container.nameFor id' kind ∧
      ∀ root payload, Staging.pathFor root payload (Container.nameFor id kind) =
        Staging.pathFor root payload (Container.nameFor id' kind)
  /-- A derived name is that of one operation of one connector. -/
  derived : ∀ id id' kind kind', Container.nameFor id kind = Container.nameFor id' kind' →
    id = id' ∧ kind = kind'
  /-- A derived name follows the naming rules. -/
  wellNamed : ∀ id kind, checkContainerName (Container.nameFor id kind) = .ok ()

/-- **Identifiers are canonical.** -/
theorem canonical : Canonical where
  read_iff _ _ := parseId_eq_ok_iff
  refused raw h := by
    cases hp : Id.parse raw with
    | ok id => exact absurd (Id.parse_eq_ok_iff.mp hp) (h id)
    | error fault => exact ⟨.id raw fault, by rw [parseId, hp]; rfl, rfl⟩
  value_eq := Id.value_eq
  one_each n := by
    refine ⟨fun hn => ?_, ?_⟩
    · obtain ⟨id, hid⟩ := Id.exists_value hn
      exact ⟨id, hid, fun id' hid' => Id.value_injective (hid'.trans hid.symm)⟩
    · rintro ⟨id, rfl, -⟩
      exact id.value_lt
  displayed id := parseId_eq_ok_iff.mpr id.named_display
  agree raw raw' id id' _ _ h kind := by
    have same := Id.value_injective h
    subst same
    exact ⟨rfl, fun _ _ => rfl⟩
  derived _ _ _ _ := Container.nameFor_injective
  wellNamed id kind := by
    have ok := (Container.checkName_eq_ok_iff _).mpr (Container.wellNamed_nameFor id kind)
    rw [checkContainerName, ok]
    rfl

end RunDispatch.Connector
