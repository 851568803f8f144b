/-
# What is read of a shape

A reader of a shape takes a phrase from the text, and what it makes of it is related to the phrase: a string is
what its pieces spell, the items of a list are made of the items of an array, one of each. A record is made of
an object of its members, in any order, or of an array of them in theirs; members of other names are skipped,
and no member is there twice. So whatever one member alone decides of a record is decided by the phrase under
its name, or is what it was before if there is none.

Key definitions: `Reader.Takes`, `Phrase.named`, `Record.Outcome`, `Record.Decides`.
Key theorems: `Reader.takes_optional`, `Reader.takes_list`, `Record.Decides.takes`, `Reader.Takes.spells`.
-/
import RunDispatch.Proofs.Json.Skipping

namespace RunDispatch.Json

open Staging (ok_of_bind)

variable {α β δ : Type}

/-- What a reader takes from a text is a phrase that the text begins with, and what it makes of it is as
told. -/
def Reader.Takes (reader : Reader α) (P : Phrase → α → Prop) : Prop :=
  ∀ ⦃depth : Nat⦄ ⦃cs r : List Char⦄ ⦃a : α⦄, depth ≤ depthLimit → reader depth cs = .ok (a, r) →
    ∃ x, Begins x cs r ∧ P x a

namespace Reader

theorem Takes.mono {reader : Reader α} {P Q : Phrase → α → Prop} (h : reader.Takes P)
    (hPQ : ∀ x a, P x a → Q x a) : reader.Takes Q := by
  intro depth cs r a hdepth hread
  obtain ⟨x, hx, hP⟩ := h hdepth hread
  exact ⟨x, hx, hPQ x a hP⟩

/-! ### Values, strings and names -/

theorem takes_readValue : Takes readValue fun x v => ReadAs x v depthLimit := by
  intro depth cs r v hdepth hread
  obtain ⟨x, hx, has⟩ := readValue_sound hread
  exact ⟨x, hx, has.paired, has.meaning, has.proper.mono hdepth⟩

theorem takes_string : Takes string fun x s => ∃ ps, x = .string ps ∧ textOf ps = s := by
  intro depth cs r s _ hread
  unfold string at hread
  split at hread
  · rename_i t ht
    obtain ⟨ps, hbody, -, htext⟩ := readString_sound hread
    exact ⟨.string ps, .string ht hbody, ps, rfl, htext⟩
  · exact absurd hread refuseType_ne_ok

theorem takes_unit : Takes unit fun x _ => x = .null := by
  intro depth cs r u _ hread
  unfold unit at hread
  split at hread
  · rename_i t ht
    obtain ⟨w, hw, h⟩ := ok_of_bind hread
    cases h
    rw [readWord_sound hw] at ht
    exact ⟨.null, .null ht, rfl⟩
  · exact absurd hread refuseType_ne_ok

theorem readOnlyName_sound {cs r : List Char} {name : String} (h : readOnlyName cs = .ok (name, r)) :
    ∃ ps d, skipBlanks cs = '"' :: d ∧ Body ps d r := by
  unfold readOnlyName at h
  split at h
  · cases h
  · rename_i d hd
    obtain ⟨ps, hbody, -, -⟩ := readString_sound h
    exact ⟨ps, d, hd, hbody⟩
  · cases h
  · cases h

/-- A name is a string, or the one key of an object. -/
theorem takes_names (table : List (String × α)) : Takes (names table) fun _ _ => True := by
  intro depth cs r a hdepth hread
  unfold names at hread
  split at hread
  · cases hread
  · rename_i t ht
    obtain ⟨⟨name, u⟩, hname, h⟩ := ok_of_bind hread
    obtain ⟨v, -, h⟩ := ok_of_bind h
    cases h
    obtain ⟨ps, hbody, -, -⟩ := readString_sound hname
    exact ⟨.string ps, .string ht hbody, trivial⟩
  · rename_i t ht
    split at hread
    · cases hread
    · cases hread
    · rename_i inner _
      obtain ⟨⟨name, u⟩, hname, h⟩ := ok_of_bind hread
      obtain ⟨v, -, h⟩ := ok_of_bind h
      obtain ⟨c, hc, h⟩ := ok_of_bind h
      obtain ⟨⟨_, w⟩, hnull, h⟩ := ok_of_bind h
      obtain ⟨ps, d, hd, hbody⟩ := readOnlyName_sound hname
      obtain ⟨x, hx, -⟩ := takes_unit (by omega) (inPart_ok hnull)
      simp only at h
      split at h
      · cases h
      · rename_i hend
        cases h
        exact ⟨.object [(ps, x)], .object ht (.first hd hbody (readColon_sound hc) hx (.close hend)), trivial⟩
      · cases h
  · cases hread

/-! ### Shapes of shapes -/

/-- What `null` and a phrase of a shape make. -/
def OrNull (P : Phrase → α → Prop) (x : Phrase) : Option α → Prop
  | none => x = .null
  | some a => x ≠ .null ∧ P x a

theorem takes_optional {reader : Reader α} {P : Phrase → α → Prop} (h : reader.Takes P) :
    Takes (optional reader) (OrNull P) := by
  intro depth cs r o hdepth hread
  unfold optional at hread
  split at hread
  · rename_i t ht
    obtain ⟨w, hw, h⟩ := ok_of_bind hread
    cases h
    rw [readWord_sound hw] at ht
    exact ⟨.null, .null ht, rfl⟩
  · rename_i hn
    obtain ⟨⟨a, u⟩, ha, h'⟩ := ok_of_bind hread
    cases h'
    obtain ⟨x, hx, hP⟩ := h hdepth ha
    refine ⟨x, hx.of_skipBlanks, ?_, hP⟩
    rintro rfl
    cases hx.of_skipBlanks with
    | null hnull => exact hn _ hnull

theorem itemsWith_sound {reader : Reader α} {P : Phrase → α → Prop} (h : reader.Takes P)
    {fuel depth index : Nat} (hdepth : depth ≤ depthLimit) {cs r : List Char} {as : List α}
    (hread : itemsWith reader fuel depth index cs = .ok (as, r)) :
    ∃ xs, Items (index == 0) xs cs r ∧ List.Forall₂ P xs as := by
  induction fuel generalizing index cs as with
  | zero => cases hread
  | succ fuel ih =>
    rw [itemsWith] at hread
    obtain ⟨⟨s, t⟩, hs, hread⟩ := ok_of_bind hread
    cases s with
    | none =>
      cases hread
      exact ⟨[], .close (beforeItem_end hs), .nil⟩
    | some s =>
      obtain ⟨⟨a, u⟩, ha, hread⟩ := ok_of_bind hread
      obtain ⟨⟨bs, w⟩, hbs, hread⟩ := ok_of_bind hread
      cases hread
      obtain ⟨x, hx, hP⟩ := h hdepth (inPart_ok ha)
      obtain ⟨xs, hxs, hall⟩ := ih hbs
      exact ⟨x :: xs, .of_beforeItem hs hx hxs, .cons hP hall⟩

theorem takes_list {reader : Reader α} {P : Phrase → α → Prop} (h : reader.Takes P) :
    Takes (list reader) fun x as => ∃ xs, x = .array xs ∧ List.Forall₂ P xs as := by
  intro depth cs r as hdepth hread
  unfold list at hread
  split at hread
  · rename_i t ht
    split at hread
    · cases hread
    · cases hread
    · obtain ⟨xs, hxs, hall⟩ := itemsWith_sound h (by omega) hread
      exact ⟨.array xs, .array ht hxs, xs, rfl, hall⟩
  · exact absurd hread refuseType_ne_ok

end Reader

theorem Field.takes_of {reader : Reader α} {P : Phrase → α → Prop} (h : reader.Takes P) (name : String)
    (put : α → δ → δ) (mayLack : Bool) :
    (Field.of name reader put mayLack).reader.Takes fun x f => ∃ a, P x a ∧ f = put a := by
  intro depth cs r f hdepth hread
  obtain ⟨⟨a, u⟩, ha, h'⟩ := ok_of_bind hread
  cases h'
  obtain ⟨x, hx, hP⟩ := h hdepth ha
  exact ⟨x, hx, a, hP, rfl⟩

/-! ### Records -/

/-- The members that a phrase has as a record: those of an object under their names, the items of an array
under the names told. -/
def Phrase.named (names : List String) : Phrase → List (String × Phrase)
  | .object ms => ms.map fun m => (textOf m.1, m.2)
  | .array xs => names.zip xs
  | _ => []

theorem mem_of_lastOf {ms : List (String × α)} {name : String} {v : α} (h : lastOf ms name = some v) :
    (name, v) ∈ ms := by
  induction ms with
  | nil => cases h
  | cons m ms ih =>
    obtain ⟨n, w⟩ := m
    rw [lastOf] at h
    cases hlast : lastOf ms name with
    | some u =>
      rw [hlast] at h
      cases h
      exact List.mem_cons_of_mem _ (ih hlast)
    | none =>
      rw [hlast, Option.none_or] at h
      split at h
      · rename_i hn
        cases h
        exact hn ▸ List.mem_cons_self
      · cases h

namespace Record

/-- What became of the part of a draft that `get` sees: it is as `P` tells of the phrase under the name, or as
it was if there is none. -/
def Outcome (get : δ → β) (P : Phrase → β → Prop) (members : List (String × Phrase)) (key : String)
    (before after : δ) : Prop :=
  (lastOf members key = none ∧ get after = get before) ∨ ∃ y, lastOf members key = some y ∧ P y (get after)

/-- What a field of a name does to the part of a draft that the field of the name `key` decides. -/
def Puts (key : String) (get : δ → β) (P : Phrase → β → Prop) (name : String) (x : Phrase) (put : δ → δ) :
    Prop :=
  ∀ d, if name = key then P x (get (put d)) else get (put d) = get d

theorem puts_own {reader : Reader β} {P : Phrase → β → Prop} (h : reader.Takes P) {key : String}
    {put : β → δ → δ} {get : δ → β} {mayLack : Bool} (hget : ∀ b d, get (put b d) = b) :
    (Field.of key reader put mayLack).reader.Takes (Puts key get P key) := by
  refine (Field.takes_of h key put mayLack).mono ?_
  rintro x _ ⟨b, hP, rfl⟩ d
  rw [if_pos rfl, hget]
  exact hP

/-- A field of another name leaves alone what `get` sees. -/
theorem puts_other {reader : Reader α} {Q : Phrase → α → Prop} {P : Phrase → β → Prop} (h : reader.Takes Q)
    {name key : String} {put : α → δ → δ} {get : δ → β} {mayLack : Bool} (hne : name ≠ key)
    (hget : ∀ a d, get (put a d) = get d) :
    (Field.of name reader put mayLack).reader.Takes (Puts key get P name) := by
  refine (Field.takes_of h name put mayLack).mono ?_
  rintro x _ ⟨a, -, rfl⟩ d
  rw [if_neg hne, hget]

/-- One field alone decides what `get` sees of a draft, and sees to it that it is as `P` tells. -/
structure Decides (record : Record δ α) (key : String) (get : δ → β) (P : Phrase → β → Prop) : Prop where
  names : (record.fields.map (·.name)).Nodup
  field : key ∈ record.fields.map (·.name)
  puts : ∀ f ∈ record.fields, f.reader.Takes (Puts key get P f.name)

section

variable {key : String} {get : δ → β} {P : Phrase → β → Prop} {members : List (String × Phrase)}
  {name : String} {x : Phrase} {put : δ → δ} {d e : δ}

theorem Outcome.cons_key (hput : Puts key get P key x put) (h : Outcome get P members key (put d) e)
    (hnone : lastOf members key = none) : Outcome get P ((key, x) :: members) key d e := by
  rcases h with ⟨-, hget⟩ | ⟨y, hy, -⟩
  · refine .inr ⟨x, by simp [lastOf, hnone], ?_⟩
    have hx := hput d
    rw [if_pos rfl] at hx
    exact hget ▸ hx
  · cases hnone.symm.trans hy

theorem Outcome.cons_ne (hne : name ≠ key) (hget : get d = get e) {f : δ}
    (h : Outcome get P members key e f) : Outcome get P ((name, x) :: members) key d f := by
  have hlast : lastOf ((name, x) :: members) key = lastOf members key := by
    rw [lastOf, if_neg hne, Option.or_none]
  rw [Outcome, hlast, hget]
  exact h

end

variable {record : Record δ α} {key : String} {get : δ → β} {P : Phrase → β → Prop}

/-- **The members of an object make a draft**, by induction on the members; no name that was seen comes
again. -/
theorem membersWith_sound (h : record.Decides key get P) {fuel depth : Nat} (hdepth : depth ≤ depthLimit)
    {first : Bool} {seen : List String} {draft : δ} {cs r : List Char} {a : α}
    (hread : record.membersWith fuel depth first seen draft cs = .ok (a, r)) :
    ∃ ms d, Members first ms cs r ∧ record.finish d = .ok a ∧
      Outcome get P ((Phrase.object ms).named []) key draft d ∧
      (key ∈ seen → lastOf ((Phrase.object ms).named []) key = none) := by
  induction fuel generalizing first seen draft cs with
  | zero => cases hread
  | succ fuel ih =>
    rw [membersWith] at hread
    obtain ⟨⟨s, t⟩, hs, hread⟩ := ok_of_bind hread
    cases s with
    | none =>
      simp only at hread
      split at hread
      · rename_i v hv
        cases hread
        exact ⟨[], draft, .close (beforeMember_end hs), hv, .inl ⟨rfl, rfl⟩, fun _ => rfl⟩
      · cases hread
    | some s =>
      obtain ⟨⟨name, u⟩, hname, hread⟩ := ok_of_bind hread
      obtain ⟨ps, hbody, -, rfl⟩ := readString_sound hname
      simp only at hread
      split at hread
      · -- A member of an unknown name is skipped, and is not the one that decides.
        rename_i hfind
        obtain ⟨c, hc, hread⟩ := ok_of_bind hread
        obtain ⟨⟨_, w⟩, hskip, hread⟩ := ok_of_bind hread
        obtain ⟨x, hx⟩ := skipValue_sound (inPart_ok hskip)
        obtain ⟨ms, d, hms, hfinish, hout, hseen⟩ := ih hread
        have hne : textOf ps ≠ key := by
          rintro hkey
          obtain ⟨f, hf, hfkey⟩ := List.mem_map.mp h.field
          exact List.find?_eq_none.mp hfind f hf (by simp [hfkey, hkey])
        refine ⟨(ps, x) :: ms, d, .of_beforeMember hs hbody hc hx hms, hfinish, hout.cons_ne hne rfl, ?_⟩
        intro hmem
        simpa [Phrase.named, lastOf, hne] using hseen hmem
      · rename_i field hfind
        split at hread
        · cases hread
        · rename_i hnew
          obtain ⟨c, hc, hread⟩ := ok_of_bind hread
          obtain ⟨⟨put, w⟩, hput, hread⟩ := ok_of_bind hread
          obtain ⟨x, hx, hputs⟩ := h.puts field (List.mem_of_find?_eq_some hfind) hdepth (inPart_ok hput)
          obtain ⟨ms, d, hms, hfinish, hout, hseen⟩ := ih hread
          have hfname : field.name = textOf ps := by simpa using List.find?_some hfind
          rw [hfname] at hputs
          refine ⟨(ps, x) :: ms, d, .of_beforeMember hs hbody hc hx hms, hfinish, ?_, ?_⟩
          · by_cases hkey : textOf ps = key
            · subst hkey
              exact .cons_key hputs hout (hseen List.mem_cons_self)
            · have hkeep := hputs draft
              rw [if_neg hkey] at hkeep
              exact hout.cons_ne hkey hkeep.symm
          · intro hmem
            have hne : textOf ps ≠ key := fun he => hnew (he ▸ hmem)
            simpa [Phrase.named, lastOf, hne] using hseen (List.mem_cons_of_mem _ hmem)

/-- **The items of an array make a draft**, by induction on the fields that are left. -/
theorem itemsFrom_sound {depth : Nat} (hdepth : depth ≤ depthLimit) {fields : List (Field δ)}
    (hnames : (fields.map (·.name)).Nodup)
    (hputs : ∀ f ∈ fields, f.reader.Takes (Puts key get P f.name)) {index : Nat} {draft : δ}
    {cs r : List Char} {a : α} (hread : record.itemsFrom depth index fields draft cs = .ok (a, r)) :
    ∃ xs d, Items (index == 0) xs cs r ∧ record.finish d = .ok a ∧
      Outcome get P ((Phrase.array xs).named (fields.map (·.name))) key draft d := by
  induction fields generalizing index draft cs with
  | nil =>
    rw [itemsFrom] at hread
    split at hread
    · rename_i v hv
      split at hread
      · cases hread
      · rename_i hend
        cases hread
        exact ⟨[], draft, .close hend, hv, .inl ⟨rfl, rfl⟩⟩
      · split at hread <;> cases hread
      · cases hread
    · cases hread
  | cons field fields ih =>
    obtain ⟨hnot, hnames⟩ := List.nodup_cons.mp hnames
    rw [itemsFrom] at hread
    obtain ⟨⟨s, t⟩, hs, hread⟩ := ok_of_bind hread
    cases s with
    | none =>
      simp only at hread
      split at hread
      · split at hread
        · rename_i v hv
          cases hread
          exact ⟨[], draft, .close (beforeItem_end hs), hv, .inl ⟨rfl, rfl⟩⟩
        · cases hread
      · cases hread
    | some s =>
      obtain ⟨⟨put, u⟩, hput, hread⟩ := ok_of_bind hread
      obtain ⟨x, hx, hputs'⟩ := hputs field List.mem_cons_self hdepth (inPart_ok hput)
      obtain ⟨xs, d, hxs, hfinish, hout⟩ :=
        ih hnames (fun f hf => hputs f (List.mem_cons_of_mem _ hf)) hread
      refine ⟨x :: xs, d, .of_beforeItem hs hx hxs, hfinish, ?_⟩
      by_cases hkey : field.name = key
      · subst hkey
        have hnone : lastOf ((Phrase.array xs).named (fields.map (·.name))) field.name = none := by
          by_contra hsome
          obtain ⟨y, hy⟩ := Option.ne_none_iff_exists'.mp hsome
          exact hnot (List.of_mem_zip (mem_of_lastOf hy)).1
        exact .cons_key hputs' hout hnone
      · have hkeep := hputs' draft
        rw [if_neg hkey] at hkeep
        exact hout.cons_ne hkey hkeep.symm

/-- **What one field decides of a record is decided by the phrase under its name**, in an object as in an
array. -/
theorem Decides.takes (h : record.Decides key get P) :
    record.reader.Takes fun x a => ∃ d, record.finish d = .ok a ∧
      Outcome get P (x.named (record.fields.map (·.name))) key record.empty d := by
  intro depth cs r a hdepth hread
  unfold reader at hread
  split at hread
  · rename_i t ht
    split at hread
    · cases hread
    · cases hread
    · obtain ⟨xs, d, hxs, hfinish, hout⟩ := itemsFrom_sound (by omega) h.names h.puts hread
      exact ⟨.array xs, .array ht hxs, d, hfinish, hout⟩
  · rename_i t ht
    split at hread
    · cases hread
    · cases hread
    · obtain ⟨ms, d, hms, hfinish, hout, -⟩ := membersWith_sound h (by omega) hread
      exact ⟨.object ms, .object ht hms, d, hfinish, hout⟩
  · exact absurd hread refuseType_ne_ok

end Record

theorem Reader.Takes.spells {reader : Reader α} {P : Phrase → α → Prop} (h : reader.Takes P)
    {text : List Char} {a : α} (hread : parse reader text = .ok a) : ∃ x, Spells text x ∧ P x a := by
  obtain ⟨⟨b, r⟩, hb, hrest⟩ := ok_of_bind hread
  simp only at hrest
  split at hrest
  · rename_i hend
    cases hrest
    obtain ⟨x, hx, hP⟩ := h (Nat.le_refl _) hb
    exact ⟨x, ⟨r, hx, List.isEmpty_iff.mp hend⟩, hP⟩
  · cases hrest

end RunDispatch.Json
