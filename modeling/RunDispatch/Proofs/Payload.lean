/-
# Payloads, and the numbers in them

The catalog and the records of a trigger, and the configuration of a connector, reach the container as texts
that were read and written again. They denote what was given, if every number that counts in it does: strings,
names, arrays and objects come through as they are, and so do the whole numbers of 64 bits. Any other number
becomes a double on the way, and denotes the shortest decimal of that double from there on, which is the number
itself if it has fifteen digits and a power of ten within 22. So a payload is unchanged exactly if all the
numbers that count in it survive this.

Key definitions: `OctetsDenote`, `Phrase.Each`, `Phrase.Survives`, `Arrives`, `Delivered`.
Key theorems: `Phrase.meaning_eq_iff`, `arrives_of_readAs`, `Trigger.delivered`, `payloads_arrive`.
-/
import RunDispatch.Proofs.Json.Kept
import RunDispatch.Proofs.Json.Shapes
import RunDispatch.Proofs.Records
import RunDispatch.Store.Database
import RunDispatch.Trigger

namespace RunDispatch

namespace Json

/-! ### Octets that denote a value -/

/-- Octets denote a meaning: they are the UTF-8 of a text that does. -/
def OctetsDenote (bytes : Bytes) (m : Meaning) : Prop :=
  ∃ text, bytes = Text.utf8Chars text ∧ Denotes text m

theorem OctetsDenote.unique {bytes : Bytes} {m n : Meaning} (hm : OctetsDenote bytes m)
    (hn : OctetsDenote bytes n) : m = n := by
  obtain ⟨s, hs, hsm⟩ := hm
  obtain ⟨t, ht, htn⟩ := hn
  have hst : s = t := by
    rw [← Text.readUtf8Chars_utf8Chars s, ← hs, ht, Text.readUtf8Chars_utf8Chars]
  exact hsm.unique (hst ▸ htn)

/-! ### The numbers that count -/

mutual

/-- Every number of a phrase that counts is as told. A member of an object counts if no later one has its
name. -/
def Phrase.Each (P : Literal → Prop) : Phrase → Prop
  | .number l => P l
  | .array items => ItemsEach P items
  | .object members => MembersEach P members
  | _ => True

def ItemsEach (P : Literal → Prop) : List Phrase → Prop
  | [] => True
  | x :: xs => x.Each P ∧ ItemsEach P xs

def MembersEach (P : Literal → Prop) : List (List Piece × Phrase) → Prop
  | [] => True
  | (ps, x) :: ms => (textOf ps ∈ ms.map (fun m => textOf m.1) ∨ x.Each P) ∧ MembersEach P ms

end

mutual

theorem Phrase.Each.mono {P Q : Literal → Prop} (hPQ : ∀ l, P l → Q l) {x : Phrase} (h : x.Each P) :
    x.Each Q := by
  cases x with
  | null => trivial
  | bool => trivial
  | number l => exact hPQ l h
  | string => trivial
  | array xs => exact ItemsEach.mono hPQ h
  | object ms => exact MembersEach.mono hPQ h

theorem ItemsEach.mono {P Q : Literal → Prop} (hPQ : ∀ l, P l → Q l) {xs : List Phrase}
    (h : ItemsEach P xs) : ItemsEach Q xs := by
  cases xs with
  | nil => trivial
  | cons x xs => exact ⟨h.1.mono hPQ, ItemsEach.mono hPQ h.2⟩

theorem MembersEach.mono {P Q : Literal → Prop} (hPQ : ∀ l, P l → Q l)
    {ms : List (List Piece × Phrase)} (h : MembersEach P ms) : MembersEach Q ms := by
  cases ms with
  | nil => trivial
  | cons m ms => exact ⟨h.1.imp_right (Phrase.Each.mono hPQ), MembersEach.mono hPQ h.2⟩

end

theorem lastOf_memberMeanings_isSome (ν : Literal → ℚ) (ms : List (List Piece × Phrase)) (name : String) :
    (lastOf (memberMeanings ν ms) name).isSome ↔ name ∈ ms.map fun m => textOf m.1 := by
  induction ms with
  | nil => simp [memberMeanings, lastOf]
  | cons m ms ih =>
    obtain ⟨ps, x⟩ := m
    simp only [memberMeanings, lastOf, Option.isSome_or, Bool.or_eq_true, ih, List.map_cons, List.mem_cons]
    by_cases hn : textOf ps = name
    · simp [hn]
    · simp [hn, Ne.symm hn]

theorem lastOf_memberMeanings_mem (ν : Literal → ℚ) {ps : List Piece} (x : Phrase)
    {ms : List (List Piece × Phrase)} (h : textOf ps ∈ ms.map fun m => textOf m.1) :
    lastOf (memberMeanings ν ((ps, x) :: ms)) = lastOf (memberMeanings ν ms) := by
  funext name
  rw [memberMeanings, lastOf]
  by_cases hn : textOf ps = name
  · subst hn
    obtain ⟨m, hm⟩ := Option.isSome_iff_exists.mp ((lastOf_memberMeanings_isSome ν ms _).mpr h)
    rw [hm, Option.some_or]
  · rw [if_neg hn, Option.or_none]

theorem lastOf_memberMeanings_notMem (ν : Literal → ℚ) {ps : List Piece} (x : Phrase)
    {ms : List (List Piece × Phrase)} (h : textOf ps ∉ ms.map fun m => textOf m.1) :
    lastOf (memberMeanings ν ms) (textOf ps) = none ∧
      lastOf (memberMeanings ν ((ps, x) :: ms)) =
        Function.update (lastOf (memberMeanings ν ms)) (textOf ps) (some (x.meaning ν)) := by
  have hnone : lastOf (memberMeanings ν ms) (textOf ps) = none := by
    rw [← Option.not_isSome_iff_eq_none, lastOf_memberMeanings_isSome]
    exact h
  refine ⟨hnone, funext fun name => ?_⟩
  rw [memberMeanings, lastOf, Function.update_apply]
  by_cases hn : textOf ps = name
  · subst hn
    simp [hnone]
  · rw [if_neg hn, if_neg (Ne.symm hn), Option.or_none]

/-- Two maps of members are one exactly if they agree on the first, if it counts, and on the others. -/
theorem lastOf_cons_eq_iff {ν μ : Literal → ℚ} {ps : List Piece} {x : Phrase}
    {ms : List (List Piece × Phrase)} :
    lastOf (memberMeanings ν ((ps, x) :: ms)) = lastOf (memberMeanings μ ((ps, x) :: ms)) ↔
      (textOf ps ∈ ms.map (fun m => textOf m.1) ∨ x.meaning ν = x.meaning μ) ∧
        lastOf (memberMeanings ν ms) = lastOf (memberMeanings μ ms) := by
  by_cases hmem : textOf ps ∈ ms.map fun m => textOf m.1
  · rw [lastOf_memberMeanings_mem ν x hmem, lastOf_memberMeanings_mem μ x hmem]
    exact ⟨fun h => ⟨.inl hmem, h⟩, fun h => h.2⟩
  · obtain ⟨hν, hνcons⟩ := lastOf_memberMeanings_notMem ν x hmem
    obtain ⟨hμ, hμcons⟩ := lastOf_memberMeanings_notMem μ x hmem
    rw [hνcons, hμcons]
    constructor
    · intro h
      have hfirst := congrFun h (textOf ps)
      rw [Function.update_self, Function.update_self] at hfirst
      refine ⟨.inr (Option.some.inj hfirst), funext fun name => ?_⟩
      by_cases hn : name = textOf ps
      · rw [hn, hν, hμ]
      · have hname := congrFun h name
        rwa [Function.update_of_ne hn, Function.update_of_ne hn] at hname
    · rintro ⟨hfirst, hrest⟩
      rw [hfirst.resolve_left hmem, hrest]

mutual

/-- **Two readings of its numbers give a phrase one meaning exactly if they agree on every number that
counts.** -/
theorem Phrase.meaning_eq_iff (ν μ : Literal → ℚ) (x : Phrase) :
    x.meaning ν = x.meaning μ ↔ x.Each fun l => ν l = μ l := by
  cases x with
  | null => exact ⟨fun _ => trivial, fun _ => rfl⟩
  | bool => exact ⟨fun _ => trivial, fun _ => rfl⟩
  | string => exact ⟨fun _ => trivial, fun _ => rfl⟩
  | number l =>
    rw [Phrase.meaning, Phrase.meaning, Meaning.number.injEq]
    rfl
  | array xs =>
    rw [Phrase.meaning, Phrase.meaning, Meaning.array.injEq, itemMeanings_eq_iff ν μ xs]
    rfl
  | object ms =>
    rw [Phrase.meaning, Phrase.meaning, Meaning.object.injEq, memberMeanings_eq_iff ν μ ms]
    rfl

theorem itemMeanings_eq_iff (ν μ : Literal → ℚ) (xs : List Phrase) :
    itemMeanings ν xs = itemMeanings μ xs ↔ ItemsEach (fun l => ν l = μ l) xs := by
  cases xs with
  | nil => exact ⟨fun _ => trivial, fun _ => rfl⟩
  | cons x xs =>
    rw [itemMeanings, itemMeanings, List.cons.injEq, Phrase.meaning_eq_iff ν μ x, itemMeanings_eq_iff ν μ xs]
    rfl

theorem memberMeanings_eq_iff (ν μ : Literal → ℚ) (ms : List (List Piece × Phrase)) :
    lastOf (memberMeanings ν ms) = lastOf (memberMeanings μ ms) ↔ MembersEach (fun l => ν l = μ l) ms := by
  cases ms with
  | nil => exact ⟨fun _ => trivial, fun _ => rfl⟩
  | cons m ms =>
    obtain ⟨ps, x⟩ := m
    rw [lastOf_cons_eq_iff, Phrase.meaning_eq_iff ν μ x, memberMeanings_eq_iff ν μ ms]
    rfl

end

/-- Every number that counts in a phrase is kept as it was written. -/
def Phrase.Survives (x : Phrase) : Prop := x.Each fun l => l.kept = l.exact

theorem Phrase.survives_of_plain {x : Phrase} (h : x.Each Literal.Plain) : x.Survives :=
  h.mono fun _ hl => Literal.kept_of_plain hl

/-! ### What is read and written again -/

/-- Octets carry a phrase as far as its numbers are kept, which whole numbers of 64 bits and short decimals
are. -/
structure Arrives (x : Phrase) (bytes : Bytes) : Prop where
  paired : x.Paired
  kept : OctetsDenote bytes (x.meaning Literal.kept)
  unchanged : OctetsDenote bytes (x.meaning Literal.exact) ↔ x.Survives
  plain : x.Each Literal.Plain → OctetsDenote bytes (x.meaning Literal.exact)

/-- **What is written of the value that is read of a phrase carries the phrase.** -/
theorem arrives_of_readAs {x : Phrase} {v : Value} {depth : Nat} (h : ReadAs x v depth) :
    Arrives x (Text.utf8Chars v.write) := by
  have hkept : OctetsDenote (Text.utf8Chars v.write) (x.meaning Literal.kept) :=
    ⟨v.write, rfl, h.meaning ▸ write_denotes v h.proper⟩
  have hunchanged : OctetsDenote (Text.utf8Chars v.write) (x.meaning Literal.exact) ↔ x.Survives := by
    constructor
    · intro hexact
      exact (Phrase.meaning_eq_iff Literal.kept Literal.exact x).mp (hkept.unique hexact)
    · intro hsurvives
      exact (Phrase.meaning_eq_iff Literal.kept Literal.exact x).mpr hsurvives ▸ hkept
  exact ⟨h.paired, hkept, hunchanged, fun hplain => hunchanged.mpr (Phrase.survives_of_plain hplain)⟩

end Json

open Json (Arrives Phrase ReadAs Spells depthLimit)
open Json.Reader (OrNull takes_list takes_names takes_optional takes_readValue takes_string)
open Json.Record (puts_other puts_own)

/-! ### Triggers -/

namespace Trigger

/-- The phrase that the body of a trigger gives for a member, and `null` if it gives none. -/
def given (x : Phrase) (name : String) : Phrase :=
  (Json.lastOf (x.named (record.fields.map (·.name))) name).getD .null

theorem decides_catalog :
    record.Decides "catalog" Draft.catalog (OrNull fun x v => ReadAs x v depthLimit) where
  names := by decide
  field := by decide
  puts := by
    intro f hf
    simp only [record, List.mem_cons, List.not_mem_nil, or_false] at hf
    rcases hf with rfl | rfl | rfl | rfl | rfl | rfl | rfl
    · exact puts_other takes_string (by decide) fun _ _ => rfl
    · exact puts_other takes_string (by decide) fun _ _ => rfl
    · exact puts_other takes_string (by decide) fun _ _ => rfl
    · exact puts_other (takes_names _) (by decide) fun _ _ => rfl
    · exact puts_other (takes_optional takes_string) (by decide) fun _ _ => rfl
    · exact puts_own (takes_optional takes_readValue) fun _ _ => rfl
    · exact puts_other (takes_optional (takes_list takes_readValue)) (by decide) fun _ _ => rfl

theorem decides_records :
    record.Decides "messages" Draft.records (OrNull fun x vs =>
      ∃ xs, x = .array xs ∧ List.Forall₂ (fun y v => ReadAs y v depthLimit) xs vs) where
  names := by decide
  field := by decide
  puts := by
    intro f hf
    simp only [record, List.mem_cons, List.not_mem_nil, or_false] at hf
    rcases hf with rfl | rfl | rfl | rfl | rfl | rfl | rfl
    · exact puts_other takes_string (by decide) fun _ _ => rfl
    · exact puts_other takes_string (by decide) fun _ _ => rfl
    · exact puts_other takes_string (by decide) fun _ _ => rfl
    · exact puts_other (takes_names _) (by decide) fun _ _ => rfl
    · exact puts_other (takes_optional takes_string) (by decide) fun _ _ => rfl
    · exact puts_other (takes_optional takes_readValue) (by decide) fun _ _ => rfl
    · exact puts_own (takes_optional (takes_list takes_readValue)) fun _ _ => rfl

theorem orNull_of_outcome {β : Type} {P : Phrase → β → Prop} {get : Draft → Option β} {x : Phrase}
    {name : String} {d : Draft} (hempty : get record.empty = none)
    (h : Json.Record.Outcome get (OrNull P) (x.named (record.fields.map (·.name))) name record.empty d) :
    OrNull P (given x name) (get d) := by
  rcases h with ⟨hnone, hget⟩ | ⟨y, hy, hP⟩
  · rw [hget, hempty, given, hnone]
    rfl
  · rw [given, hy]
    exact hP

theorem ofDraft_payloads {d : Draft} {t : Trigger} (h : ofDraft d = .ok t) :
    t.catalog = d.catalog ∧ t.records = d.records := by
  unfold ofDraft at h
  split at h
  · cases h
  · cases h
  · cases h
  · cases h
  · cases h
    exact ⟨rfl, rfl⟩

/-- What is read of the body of a trigger: its payloads are those that the phrase in the body gives. -/
theorem parse_sound {body : String} {t : Trigger} (h : parse body = .ok t) :
    ∃ x, Spells body.toList x ∧
      OrNull (fun y v => ReadAs y v depthLimit) (given x "catalog") t.catalog ∧
      OrNull (fun y vs => ∃ ys, y = .array ys ∧ List.Forall₂ (fun z v => ReadAs z v depthLimit) ys vs)
        (given x "messages") t.records := by
  obtain ⟨x, ⟨r, hx, hr⟩, d, hd, hcatalog⟩ := decides_catalog.takes.spells h
  obtain ⟨y, ⟨s, hy, -⟩, e, he, hrecords⟩ := decides_records.takes.spells h
  obtain ⟨rfl, -⟩ := hx.unique hy
  refine ⟨x, ⟨r, hx, hr⟩, ?_, ?_⟩
  · rw [(ofDraft_payloads hd).1]
    exact orNull_of_outcome rfl hcatalog
  · rw [(ofDraft_payloads he).2]
    exact orNull_of_outcome rfl hrecords

end Trigger

/-- A request carries the payloads that the phrase in the body of a trigger gives: the catalog, and the
records one to a line. -/
structure Delivered (x : Phrase) (r : Request) : Prop where
  catalog : OrNull Arrives (Trigger.given x "catalog") r.catalog
  records : OrNull (fun y bytes => ∃ ys, y = .array ys ∧ List.Forall₂ Arrives ys (linesOf [] bytes))
    (Trigger.given x "messages") r.records

theorem orNull_map {α β : Type} {P : Phrase → α → Prop} {Q : Phrase → β → Prop} {f : α → β}
    (hPQ : ∀ x a, P x a → Q x (f a)) {x : Phrase} {o : Option α} (h : OrNull P x o) :
    OrNull Q x (o.map f) := by
  cases o with
  | none => exact h
  | some a => exact ⟨h.1, hPQ x a h.2⟩

theorem arrives_lines {ys : List Phrase} {vs : List Json.Value}
    (h : List.Forall₂ (fun y v => ReadAs y v depthLimit) ys vs) :
    List.Forall₂ Arrives ys (linesOf [] (encodeRecords vs)) := by
  rw [linesOf_encodeRecords, List.forall₂_map_right_iff]
  exact h.imp fun _ _ => Json.arrives_of_readAs

/-- The payloads of a request are those of the trigger that it is made of, written. -/
theorem Trigger.toRequest_payloads {t : Trigger} {r : Request} (h : t.toRequest = .ok r) :
    r.catalog = t.catalog.map (fun v => Text.utf8Chars v.write) ∧ r.records = t.records.map encodeRecords := by
  obtain ⟨connector, -, h⟩ := Staging.ok_of_bind h
  obtain ⟨image, -, h⟩ := Staging.ok_of_bind h
  obtain ⟨q, -, h⟩ := Staging.ok_of_bind h
  obtain ⟨q', -, h⟩ := Staging.ok_of_bind h
  obtain ⟨_, -, h⟩ := Staging.ok_of_bind h
  cases h
  exact ⟨rfl, rfl⟩

/-- **The payloads of an accepted trigger are delivered.** -/
theorem Trigger.delivered {body : String} {t : Trigger} {r : Request} (hparse : parse body = .ok t)
    (hrequest : t.toRequest = .ok r) : ∃ x, Spells body.toList x ∧ Delivered x r := by
  obtain ⟨x, hx, hcatalog, hrecords⟩ := parse_sound hparse
  obtain ⟨hc, hr⟩ := toRequest_payloads hrequest
  refine ⟨x, hx, ?_, ?_⟩
  · rw [hc]
    exact orNull_map (fun _ v (h : ReadAs _ v _) => Json.arrives_of_readAs h) hcatalog
  · rw [hr]
    refine orNull_map ?_ hrecords
    rintro _ vs ⟨ys, rfl, hall⟩
    exact ⟨ys, rfl, arrives_lines hall⟩

/-! ### Configurations -/

/-- **The configuration of a connector that is seen is read, and carries the text that it is stored as.** -/
theorem Store.Database.configuration_arrives {d : Store.Database} {owner : String} {id : Connector.Id}
    {row : Store.Row} {text : String} (hfind : d.find owner id = .ok (some row))
    (htext : Json.parseValue text = .ok row.configuration) :
    ∃ x bytes, Spells text.toList x ∧ d.readConfiguration owner id = .ok bytes ∧ Arrives x bytes := by
  obtain ⟨x, hx, hread⟩ := takes_readValue.spells htext
  refine ⟨x, Text.utf8Chars row.configuration.write, hx, ?_, Json.arrives_of_readAs hread⟩
  rw [readConfiguration, hfind]

/-- **Payloads arrive as far as their numbers are kept.** The catalog and the records of every trigger that is
accepted, and every configuration that is read, denote what the text that was given denotes, with every number
in it replaced by what is kept of it. So they denote the same value as the text exactly if every number that
counts in it is kept as it was written; and whole numbers of 64 bits and decimals of fifteen digits with a
power of ten within 22 are. -/
theorem payloads_arrive (body : String) (t : Trigger) (r : Request) (d : Store.Database) (owner : String)
    (id : Connector.Id) (row : Store.Row) (text : String) :
    (Trigger.parse body = .ok t → t.toRequest = .ok r → ∃ x, Spells body.toList x ∧ Delivered x r) ∧
      (d.find owner id = .ok (some row) → Json.parseValue text = .ok row.configuration →
        ∃ x bytes, Spells text.toList x ∧ d.readConfiguration owner id = .ok bytes ∧ Arrives x bytes) :=
  ⟨Trigger.delivered, Store.Database.configuration_arrives⟩

/-! ### Samples -/

def samplePayloads : String :=
  "[\"o\", \"6f1c2a8e-3b4d-4e5f-9a0b-1c2d3e4f5a6b\", \"i\", \"write\", null, " ++
    "\x7b\"n\": 18446744073709551615\x7d, [-9223372036854775808, null]]"

def sampleId : Connector.Id := ⟨List.replicate 32 ⟨3, by decide⟩, List.length_replicate⟩

def sampleRow (text : String) : Store.Row :=
  ⟨sampleId, "o", (Json.parseValue text).toOption.getD .null, 1, none, ⟨0⟩, ⟨0⟩⟩

def sampleStore (text : String) : Store.Database := ⟨[sampleRow text], [], none, none⟩

theorem sampleStore_find (text : String) :
    (sampleStore text).find "o" sampleId = .ok (some (sampleRow text)) := rfl

theorem ok_of_toOption {ε α : Type} {x : Except ε α} {a : α} (h : x.toOption = some a) : x = .ok a := by
  cases x with
  | error e => cases h
  | ok b =>
    cases h
    rfl

theorem sampleRow_configuration (text : String) (h : (Json.parseValue text).toOption.isSome) :
    Json.parseValue text = .ok (sampleRow text).configuration := by
  obtain ⟨v, hv⟩ := Option.isSome_iff_exists.mp h
  rw [ok_of_toOption hv, sampleRow, hv, Option.getD_some]

theorem sample_payloads_arrive :
    ∃ t r x y bytes, (Trigger.parse samplePayloads = .ok t ∧ t.toRequest = .ok r ∧
      Spells samplePayloads.toList x ∧ Delivered x r) ∧
    (Json.parseValue "[1e3]" = .ok (sampleRow "[1e3]").configuration ∧ Spells "[1e3]".toList y ∧
      (sampleStore "[1e3]").readConfiguration "o" sampleId = .ok bytes ∧ Arrives y bytes) := by
  have haccepted : ((Trigger.parse samplePayloads).toOption.bind fun t => t.toRequest.toOption).isSome := by
    decide +kernel
  obtain ⟨r, hr⟩ := Option.isSome_iff_exists.mp haccepted
  obtain ⟨t, ht, hr⟩ := Option.bind_eq_some_iff.mp hr
  have hparse := ok_of_toOption ht
  have hrequest := ok_of_toOption hr
  have hread := sampleRow_configuration "[1e3]" (by decide +kernel)
  obtain ⟨htrigger, hstore⟩ := payloads_arrive samplePayloads t r (sampleStore "[1e3]") "o" sampleId
    (sampleRow "[1e3]") "[1e3]"
  obtain ⟨x, hx, hdelivered⟩ := htrigger hparse hrequest
  obtain ⟨y, bytes, hy, hbytes, harrives⟩ := hstore (sampleStore_find "[1e3]") hread
  exact ⟨t, r, x, y, bytes, ⟨hparse, hrequest, hx, hdelivered⟩, hread, hy, hbytes, harrives⟩

def sampleConfiguration : String := "\x7b\"n\":18446744073709551616\x7d"

def sampleBeyond : Phrase := .object [([.char 'n'], .number (Json.wholeLiteral 18446744073709551616))]

theorem sampleConfiguration_spells : Spells sampleConfiguration.toList sampleBeyond := by
  have htext : sampleConfiguration.toList = '\x7b' :: '"' :: 'n' :: '"' :: ':' ::
      ((Json.wholeLiteral 18446744073709551616).written ++ ['\x7d']) := by decide +kernel
  have hlex : Json.Literal.lex? (Json.skipBlanks ((Json.wholeLiteral 18446744073709551616).written ++ ['\x7d'])) =
      some (Json.wholeLiteral 18446744073709551616, ['\x7d']) := by
    have hends : Json.NumberEnds ['\x7d'] :=
      Json.numberEnds_cons (by decide) (by decide) (by decide) (by decide) []
    have hskip : Json.skipBlanks ((Json.wholeLiteral 18446744073709551616).written ++ ['\x7d']) =
        (Json.wholeLiteral 18446744073709551616).written ++ ['\x7d'] := by decide +kernel
    rw [hskip, Json.Literal.lex?_written (Json.wholeLiteral_wellFormed _) hends]
  rw [htext]
  exact ⟨[], .object rfl (.first rfl (.char (by decide) (by decide) (by decide) .close) rfl (.number hlex)
    (.close rfl)), rfl⟩

theorem sampleBeyond_kept :
    (Json.wholeLiteral 18446744073709551616).kept = 18446744073709552000 := by
  have hnumber : (Json.wholeLiteral 18446744073709551616).number =
      .ok (.double ⟨false, ⟨4503599627370496, 12⟩⟩) := ok_of_toOption (by decide +kernel)
  have hdigits : (⟨4503599627370496, 12⟩ : Decimal.Magnitude).digits = ⟨18446744073709552, 19⟩ := by
    decide +kernel
  have hcount : Decimal.digitCount 18446744073709552 = 17 := by decide +kernel
  rw [Json.Literal.kept_of_number hnumber, Json.Number.shown, Json.doubleShown, hdigits, Decimal.Digits.value,
    hcount]
  norm_num [Decimal.Binary64.isZero]

/-- **A configuration that is stored and read, and that does not come as it was given.** -/
theorem sample_rounded : ∃ m bytes,
    (sampleStore sampleConfiguration).find "o" sampleId = .ok (some (sampleRow sampleConfiguration)) ∧
      Json.parseValue sampleConfiguration = .ok (sampleRow sampleConfiguration).configuration ∧
      Json.Denotes sampleConfiguration.toList m ∧
      (sampleStore sampleConfiguration).readConfiguration "o" sampleId = .ok bytes ∧
      ¬ Json.OctetsDenote bytes m := by
  have hread := sampleRow_configuration sampleConfiguration (by decide +kernel)
  obtain ⟨x, bytes, ⟨r, hx, -⟩, hbytes, harrives⟩ :=
    Store.Database.configuration_arrives (sampleStore_find sampleConfiguration) hread
  obtain ⟨s, hs, hend⟩ := sampleConfiguration_spells
  obtain ⟨rfl, -⟩ := hs.unique hx
  refine ⟨sampleBeyond.meaning Json.Literal.exact, bytes, rfl, hread,
    ⟨sampleBeyond, ⟨s, hs, hend⟩, harrives.paired, rfl⟩, hbytes, fun h => ?_⟩
  obtain ⟨hshadowed | hkept, -⟩ := harrives.unchanged.mp h
  · cases hshadowed
  · have hexact := sampleBeyond_kept.symm.trans (hkept.trans (Json.wholeLiteral_exact _))
    exact absurd hexact (by norm_num)

end RunDispatch
