/-
# Which triggers are accepted

A trigger is accepted if its connector and its image can be read, its owner is not blank, the container name
that it asks for, if any, follows the naming rules, and it has the payloads that its operation takes. These
conditions are looked at in this order, and the first that fails is the one that is reported.

A derived name always follows the naming rules, so a request that was accepted is complete.

Key definitions: `Container.WellNamed`, `Container.Misnamed`, `Trigger.WellFormed`, `Trigger.FirstFault`,
`Trigger.Asks`.
Key theorems: `Container.checkName_eq_ok_iff`, `Container.Misnamed.checkName_eq`,
`Container.wellNamed_nameFor`, `Trigger.accepted`.
-/
import Mathlib.Tactic.Tauto
import RunDispatch.Proofs.Text.Utf8
import RunDispatch.Proofs.Trigger

namespace RunDispatch

/-! ### The naming rules -/

namespace Container

/-- A character that a container name may hold: a letter or digit of ASCII, an underscore, a dot or a
hyphen. -/
def Admissible (c : Char) : Prop :=
  c.isAlphanum = true ∨ c = '_' ∨ c = '.' ∨ c = '-'

/-- The naming rules of containers. -/
structure WellNamed (name : String) : Prop where
  short : (Text.utf8 name).length ≤ 128
  start : ∃ c r, name.toList = c :: r ∧ c.isAlphanum = true
  all : ∀ c ∈ name.toList, Admissible c

/-- The first naming rule that a name breaks. -/
inductive Misnamed (name : String) : NameFault → Prop where
  | empty (h : name.toList = []) : Misnamed name .empty
  | tooLong (h : 128 < (Text.utf8 name).length) : Misnamed name .tooLong
  | start {c : Char} {r : List Char} (hs : (Text.utf8 name).length ≤ 128)
      (hn : name.toList = c :: r) (h : c.isAlphanum = false) : Misnamed name (.start name)
  | character {c d : Char} {r : List Char} (hs : (Text.utf8 name).length ≤ 128)
      (hn : name.toList = c :: r) (hc : c.isAlphanum = true) (hd : d ∈ name.toList)
      (h : ¬ Admissible d) : Misnamed name (.character name)

theorem isAlphanum_iff (c : Char) : c.isAlphanum = true ↔
    (('A'.val ≤ c.val ∧ c.val ≤ 'Z'.val) ∨ ('a'.val ≤ c.val ∧ c.val ≤ 'z'.val)) ∨
      ('0'.val ≤ c.val ∧ c.val ≤ '9'.val) := by
  change ((decide ('A'.val ≤ c.val ∧ c.val ≤ 'Z'.val) ||
    (decide ('a'.val ≤ c.val) && decide (c.val ≤ 'z'.val))) ||
      (decide ('0'.val ≤ c.val) && decide (c.val ≤ '9'.val))) = true ↔ _
  simp only [Bool.or_eq_true, Bool.and_eq_true, decide_eq_true_eq]

theorem isAlphanumeric_eq (c : Char) : isAlphanumeric c = c.isAlphanum := by
  rw [Bool.eq_iff_iff, isAlphanum_iff]
  simp only [isAlphanumeric, Char.le_def, Bool.or_eq_true, Bool.and_eq_true, decide_eq_true_eq]
  tauto

theorem isNameChar_iff (c : Char) : isNameChar c = true ↔ Admissible c := by
  simp [isNameChar, Admissible, isAlphanumeric_eq, or_assoc]

theorem Admissible.lt {c : Char} (h : Admissible c) : c.toNat < 0x80 := by
  rcases h with h | rfl | rfl | rfl
  · simp only [isAlphanum_iff, UInt32.le_iff_toNat_le] at h
    have hc : c.toNat = c.val.toNat := rfl
    have h9 : '9'.val.toNat = 57 := rfl
    have hz : 'z'.val.toNat = 122 := rfl
    have hZ : 'Z'.val.toNat = 90 := rfl
    omega
  all_goals decide

theorem utf8_of_toList_eq_nil {name : String} (h : name.toList = []) : Text.utf8 name = [] := by
  rw [Text.utf8, h]
  rfl

theorem Misnamed.not_wellNamed {name : String} {f : NameFault} (h : Misnamed name f) :
    ¬ WellNamed name := by
  intro hw
  obtain ⟨c, r, hn, hc⟩ := hw.start
  cases h with
  | empty h =>
    rw [h] at hn
    cases hn
  | tooLong h => exact absurd hw.short (Nat.not_le.mpr h)
  | start _ hn' h =>
    rw [hn] at hn'
    cases hn'
    rw [hc] at h
    cases h
  | character _ _ _ hd h => exact h (hw.all _ hd)

/-- What the check of a name comes to: the rules hold, or the first of them that is broken is told. -/
theorem checkName_cases (name : String) :
    (checkName name = .ok () ∧ WellNamed name) ∨
      ∃ f, checkName name = .error f ∧ Misnamed name f := by
  unfold checkName
  cases hn : name.toList with
  | nil => exact .inr ⟨_, rfl, .empty hn⟩
  | cons c r =>
    simp only
    by_cases hl : maxNameLength < (Text.utf8 name).length
    · rw [if_pos hl]
      exact .inr ⟨_, rfl, .tooLong hl⟩
    · have hs : (Text.utf8 name).length ≤ 128 := Nat.not_lt.mp hl
      rw [if_neg hl, isAlphanumeric_eq]
      cases hc : c.isAlphanum with
      | false => exact .inr ⟨_, rfl, .start hs hn hc⟩
      | true =>
        rw [Bool.not_true, if_neg Bool.false_ne_true]
        by_cases hall : ∀ d ∈ c :: r, Admissible d
        · have ha : (c :: r).all isNameChar = true :=
            List.all_eq_true.mpr fun d hd => (isNameChar_iff d).mpr (hall d hd)
          rw [if_pos ha]
          exact .inl ⟨rfl, hs, ⟨c, r, hn, hc⟩, fun d hd => hall d (hn ▸ hd)⟩
        · obtain ⟨d, hd⟩ := not_forall.mp hall
          obtain ⟨hd, hbad⟩ := Classical.not_imp.mp hd
          have ha : ¬ (c :: r).all isNameChar = true := fun ha =>
            hbad ((isNameChar_iff d).mp (List.all_eq_true.mp ha d hd))
          rw [if_neg ha]
          exact .inr ⟨_, rfl, .character hs hn hc (hn ▸ hd) hbad⟩

theorem checkName_eq_ok_iff (name : String) : checkName name = .ok () ↔ WellNamed name := by
  rcases checkName_cases name with ⟨hk, hw⟩ | ⟨f, hk, hm⟩
  · exact ⟨fun _ => hw, fun _ => hk⟩
  · refine ⟨fun h => ?_, fun hw => absurd hw hm.not_wellNamed⟩
    rw [hk] at h
    cases h

theorem Misnamed.checkName_eq {name : String} {f : NameFault} (h : Misnamed name f) :
    checkName name = .error f := by
  unfold checkName
  cases h with
  | empty h => rw [h]
  | tooLong h =>
    cases hn : name.toList with
    | nil =>
      rw [utf8_of_toList_eq_nil hn] at h
      exact absurd h (by decide)
    | cons c r =>
      simp only
      exact if_pos h
  | start hs hn h =>
    have hm : ¬ maxNameLength < (Text.utf8 name).length := Nat.not_lt.mpr hs
    rw [hn]
    simp only
    rw [if_neg hm, isAlphanumeric_eq, h]
    rfl
  | @character c d r hs hn hc hd h =>
    have ha : ¬ (c :: r).all isNameChar = true := fun ha =>
      h ((isNameChar_iff d).mp (List.all_eq_true.mp ha d (hn ▸ hd)))
    have hm : ¬ maxNameLength < (Text.utf8 name).length := Nat.not_lt.mpr hs
    rw [hn]
    simp only
    rw [if_neg hm, isAlphanumeric_eq, hc, Bool.not_true, if_neg Bool.false_ne_true, if_neg ha]

/-! ### Derived names -/

theorem isAlphanum_hexDigit (d : Fin 16) : (Text.hexDigit d.val).isAlphanum = true := by
  revert d
  decide

theorem admissible_displayChars {id : Connector.Id} {c : Char} (h : c ∈ id.displayChars) :
    Admissible c := by
  by_cases hc : c = '-'
  · exact .inr (.inr (.inr hc))
  · have hf : c ∈ id.displayChars.filter (· ≠ '-') := List.mem_filter.mpr ⟨h, by simpa using hc⟩
    rw [Connector.Id.filter_displayChars] at hf
    obtain ⟨d, -, rfl⟩ := List.mem_map.mp hf
    exact .inl (isAlphanum_hexDigit d)

/-- A displayed identifier begins with a digit. -/
theorem displayChars_eq_cons (id : Connector.Id) :
    ∃ c r, id.displayChars = c :: r ∧ c.isAlphanum = true := by
  cases hd : id.digits with
  | nil =>
    have hl := id.length_digits
    rw [hd] at hl
    cases hl
  | cons d ds =>
    have hd : ∃ r, id.displayChars = Text.hexDigit d.val :: r := by
      simp only [Connector.Id.displayChars, hd, List.map_cons, Connector.groupLengths,
        Connector.Id.cut, List.take_succ_cons, Connector.Id.hyphenated,
        List.intersperse_cons_cons, List.flatten_cons, List.cons_append]
      exact ⟨_, rfl⟩
    obtain ⟨r, hr⟩ := hd
    exact ⟨_, r, hr, isAlphanum_hexDigit d⟩

/-- **A derived name follows the naming rules.** -/
theorem wellNamed_nameFor (id : Connector.Id) (kind : Operation) : WellNamed (nameFor id kind) := by
  have hlist : (nameFor id kind).toList = id.displayChars ++ '.' :: kind.name.toList := by
    simp [nameFor, Connector.Id.display]
  have hkind : kind.name.toList.length ≤ 11 ∧ ∀ c ∈ kind.name.toList, Admissible c := by
    have hall : kind.name.toList.length ≤ 11 ∧ kind.name.toList.all isNameChar = true := by
      cases kind <;> decide
    exact ⟨hall.1, fun c hc => (isNameChar_iff c).mp (List.all_eq_true.mp hall.2 c hc)⟩
  have hall : ∀ c ∈ (nameFor id kind).toList, Admissible c := by
    intro c hc
    rw [hlist, List.mem_append, List.mem_cons] at hc
    rcases hc with hc | rfl | hc
    · exact admissible_displayChars hc
    · exact .inr (.inr (.inl rfl))
    · exact hkind.2 c hc
  refine ⟨?_, ?_, hall⟩
  · rw [Text.utf8, Text.length_utf8Chars fun c hc => (hall c hc).lt, hlist, List.length_append,
      Connector.Id.length_displayChars, List.length_cons]
    have := hkind.1
    omega
  · obtain ⟨c, r, hd, hc⟩ := displayChars_eq_cons id
    exact ⟨c, r ++ '.' :: kind.name.toList, by rw [hlist, hd, List.cons_append], hc⟩

end Container

/-! ### Triggers -/

namespace Trigger

/-- The connector can be read. -/
def HasConnector (t : Trigger) : Prop := ∃ id, Connector.Id.parse t.connector = .ok id

/-- The image can be read. -/
def HasImage (t : Trigger) : Prop := ∃ image, Image.parse t.image = .ok image

/-- The owner is not blank. -/
def HasOwner (t : Trigger) : Prop := ∃ c ∈ t.owner.toList, Text.isBlank c = false

/-- A container name that is asked for follows the naming rules. -/
def HasName (t : Trigger) : Prop := ∀ n, t.containerName = some n → Container.WellNamed n

/-- A write has a catalog, and no other operation has a catalog or records. -/
def HasPayloads (t : Trigger) : Prop :=
  if t.kind = .write then t.catalog.isSome = true
  else t.catalog.isSome = false ∧ t.records.isSome = false

/-- What a trigger has to be in order to be accepted. -/
structure WellFormed (t : Trigger) : Prop where
  connector : t.HasConnector
  image : t.HasImage
  owner : t.HasOwner
  name : t.HasName
  payloads : t.HasPayloads

/-- The first condition that a trigger fails, as it is reported: those before it hold. -/
inductive FirstFault (t : Trigger) : Violation → Prop where
  | connector {f : Connector.IdFault} (h : Connector.Id.parse t.connector = .error f) :
      FirstFault t (.id t.connector f)
  | image {f : ImageFault} (hc : t.HasConnector) (h : Image.parse t.image = .error f) :
      FirstFault t (.image f)
  | owner (hc : t.HasConnector) (hi : t.HasImage) (h : ∀ c ∈ t.owner.toList, Text.isBlank c = true) :
      FirstFault t .blankOwner
  | name {n : String} {f : Container.NameFault} (hc : t.HasConnector) (hi : t.HasImage)
      (ho : t.HasOwner) (hn : t.containerName = some n) (h : Container.Misnamed n f) :
      FirstFault t (.containerName f)
  | catalog (hc : t.HasConnector) (hi : t.HasImage) (ho : t.HasOwner) (hn : t.HasName)
      (hk : t.kind = .write) (h : t.catalog = none) : FirstFault t .catalogMissing
  | payload (hc : t.HasConnector) (hi : t.HasImage) (ho : t.HasOwner) (hn : t.HasName)
      (hk : t.kind ≠ .write) (h : t.catalog ≠ none ∨ t.records ≠ none) :
      FirstFault t (.payloadUnwanted t.kind)

/-- What the request of a trigger is. -/
structure Asks (t : Trigger) (q : Request) : Prop where
  /-- The owner is taken as it stands. -/
  owner : q.owner = t.owner
  connector : Connector.Id.parse t.connector = .ok q.connector
  image : Image.parse t.image = .ok q.image
  kind : q.kind = t.kind
  /-- The name that is asked for, or else the identifier and the operation with a dot between them. -/
  name : q.containerName = t.containerName.getD (q.connector.display ++ "." ++ t.kind.name)
  catalog : q.catalog = t.catalog.map fun v => Text.utf8 v.compact
  records : q.records = t.records.map encodeRecords

/-! ### The steps of the check -/

variable {t : Trigger}

theorem parseId_of_ok {raw : String} {id : Connector.Id} (h : Connector.Id.parse raw = .ok id) :
    parseId raw = .ok id := by
  rw [parseId, h]
  rfl

theorem parseImage_of_ok {reference : String} {i : Image} (h : Image.parse reference = .ok i) :
    parseImage reference = .ok i := by
  rw [parseImage, h]
  rfl

/-- The request before a name of its own and its payloads are put to it. -/
def bare (t : Trigger) (id : Connector.Id) (image : Image) : Request :=
  ⟨t.owner, id, image, Container.nameFor id t.kind, t.kind, none, none⟩

theorem hasOwner_iff : t.HasOwner ↔ Text.allBlank t.owner = false := by
  rw [HasOwner, Text.allBlank, List.all_eq_false]
  simp

theorem toRequest_eq {id : Connector.Id} {image : Image}
    (hid : Connector.Id.parse t.connector = .ok id) (himage : Image.parse t.image = .ok image)
    (ho : t.HasOwner) :
    t.toRequest = (named t.containerName (t.bare id image) >>= fun p =>
      (t.withPayloads p).validate >>= fun _ => .ok (t.withPayloads p)) := by
  have hnew : Request.new t.owner id image t.kind = .ok (t.bare id image) := by
    rw [Request.new, hasOwner_iff.mp ho, if_neg Bool.false_ne_true]
    rfl
  rw [toRequest, parseId_of_ok hid, parseImage_of_ok himage]
  show (Request.new t.owner id image t.kind >>= _) = _
  rw [hnew]
  rfl

/-- The request of a trigger that fails nothing but, perhaps, its payloads. -/
theorem toRequest_of_named {id : Connector.Id} {image : Image}
    (hid : Connector.Id.parse t.connector = .ok id) (himage : Image.parse t.image = .ok image)
    (ho : t.HasOwner) (hn : t.HasName) :
    ∃ q, t.Asks q ∧ q.validate = q.checkPayloads ∧
      t.toRequest = (q.checkPayloads >>= fun _ => .ok q) := by
  let p := { t.bare id image with
    containerName := t.containerName.getD (Container.nameFor id t.kind) }
  have hname : Container.WellNamed p.containerName := by
    show Container.WellNamed (t.containerName.getD (Container.nameFor id t.kind))
    cases hc : t.containerName with
    | none => exact Container.wellNamed_nameFor id t.kind
    | some n => exact hn n hc
  have hcheck : ∀ n, Container.WellNamed n → checkContainerName n = .ok () := by
    intro n hw
    rw [checkContainerName, (Container.checkName_eq_ok_iff n).mpr hw]
    rfl
  have hnamed : named t.containerName (t.bare id image) = .ok p := by
    cases hc : t.containerName with
    | none => simp only [named, p, hc, Option.getD_none]; rfl
    | some n =>
      simp only [named, Request.withContainerName, hcheck n (hn n hc), p, hc, Option.getD_some]
      rfl
  have hvalid : (t.withPayloads p).validate = (t.withPayloads p).checkPayloads := by
    rw [Request.validate]
    show (checkContainerName p.containerName >>= _) = _
    rw [hcheck _ hname]
    rfl
  refine ⟨t.withPayloads p, ⟨rfl, hid, himage, rfl, rfl, ?_, rfl⟩, hvalid, ?_⟩
  · show (t.catalog.map fun v => Text.utf8Chars v.write) = _
    simp only [Text.utf8, Json.Value.compact, String.toList_ofList]
  · rw [toRequest_eq hid himage ho, hnamed]
    show (Request.validate (t.withPayloads p) >>= _) = _
    rw [hvalid]

/-- What the check of the payloads comes to. -/
theorem checkPayloads_cases {q : Request} (h : t.Asks q) :
    (t.HasPayloads ∧ q.checkPayloads = .ok ()) ∨
      (t.kind = .write ∧ t.catalog = none ∧ q.checkPayloads = .error .catalogMissing) ∨
      (t.kind ≠ .write ∧ (t.catalog ≠ none ∨ t.records ≠ none) ∧
        q.checkPayloads = .error (.payloadUnwanted t.kind)) := by
  have hcatalog : q.catalog.isSome = t.catalog.isSome := by rw [h.catalog, Option.isSome_map]
  have hrecords : q.records.isSome = t.records.isSome := by rw [h.records, Option.isSome_map]
  rw [Request.checkPayloads, ← Option.not_isSome, hcatalog, hrecords, h.kind]
  by_cases hk : t.kind = .write
  · have hw : t.kind.isWrite = true := by rw [hk]; rfl
    rw [if_pos hw, HasPayloads, if_pos hk]
    cases hc : t.catalog with
    | none => exact .inr (.inl ⟨hk, rfl, rfl⟩)
    | some v => exact .inl ⟨rfl, rfl⟩
  · have hw : ¬ t.kind.isWrite = true := by
      revert hk
      cases t.kind <;> decide
    rw [if_neg hw, HasPayloads, if_neg hk]
    by_cases hp : t.catalog.isSome = true ∨ t.records.isSome = true
    · rw [if_pos hp]
      refine .inr (.inr ⟨hk, ?_, rfl⟩)
      rcases hp with hp | hp
      · exact .inl (Option.isSome_iff_ne_none.mp hp)
      · exact .inr (Option.isSome_iff_ne_none.mp hp)
    · rw [if_neg hp]
      rw [not_or, Bool.not_eq_true, Bool.not_eq_true] at hp
      exact .inl ⟨hp, rfl⟩

/-- A trigger is well formed or fails a condition first. -/
theorem wellFormed_or_firstFault (t : Trigger) : t.WellFormed ∨ ∃ v, t.FirstFault v := by
  cases hid : Connector.Id.parse t.connector with
  | error f => exact .inr ⟨_, .connector hid⟩
  | ok id =>
    have hc : t.HasConnector := ⟨id, hid⟩
    cases himage : Image.parse t.image with
    | error f => exact .inr ⟨_, .image hc himage⟩
    | ok image =>
      have hi : t.HasImage := ⟨image, himage⟩
      by_cases ho : t.HasOwner
      · by_cases hn : t.HasName
        · obtain ⟨q, hq, -, -⟩ := toRequest_of_named hid himage ho hn
          rcases checkPayloads_cases hq with ⟨hp, -⟩ | ⟨hk, hm, -⟩ | ⟨hk, hm, -⟩
          · exact .inl ⟨hc, hi, ho, hn, hp⟩
          · exact .inr ⟨_, .catalog hc hi ho hn hk hm⟩
          · exact .inr ⟨_, .payload hc hi ho hn hk hm⟩
        · obtain ⟨n, hn⟩ := not_forall.mp hn
          obtain ⟨hn, hbad⟩ := Classical.not_imp.mp hn
          rcases Container.checkName_cases n with ⟨-, hw⟩ | ⟨f, -, hm⟩
          · exact absurd hw hbad
          · exact .inr ⟨_, .name hc hi ho hn hm⟩
      · exact .inr ⟨_, .owner hc hi fun c hm => Bool.of_not_eq_false fun hb => ho ⟨c, hm, hb⟩⟩

theorem WellFormed.toRequest_eq (h : t.WellFormed) :
    ∃ q, t.Asks q ∧ q.validate = .ok () ∧ t.toRequest = .ok q := by
  obtain ⟨id, hid⟩ := h.connector
  obtain ⟨image, himage⟩ := h.image
  obtain ⟨q, hq, hvalid, hr⟩ := toRequest_of_named hid himage h.owner h.name
  have hpayloads := h.payloads
  rw [HasPayloads] at hpayloads
  rcases checkPayloads_cases hq with ⟨-, hcheck⟩ | ⟨hk, hm, -⟩ | ⟨hk, hm, -⟩
  · exact ⟨q, hq, by rw [hvalid, hcheck], by rw [hr, hcheck]; rfl⟩
  · rw [if_pos hk, hm] at hpayloads
    cases hpayloads
  · rw [if_neg hk, Option.isSome_eq_false_iff, Option.isSome_eq_false_iff, Option.isNone_iff_eq_none,
      Option.isNone_iff_eq_none] at hpayloads
    exact absurd hm (by simp [hpayloads])

/-- The condition that a trigger fails first is the one that is reported. -/
theorem FirstFault.toRequest_eq {v : Violation} (h : t.FirstFault v) : t.toRequest = .error v := by
  cases h with
  | connector h =>
    rw [toRequest, parseId, h]
    rfl
  | image hc h =>
    obtain ⟨id, hid⟩ := hc
    rw [toRequest, parseId_of_ok hid, parseImage, h]
    rfl
  | owner hc hi h =>
    obtain ⟨id, hid⟩ := hc
    obtain ⟨image, himage⟩ := hi
    rw [toRequest, parseId_of_ok hid, parseImage_of_ok himage]
    show (Request.new t.owner id image t.kind >>= _) = _
    rw [Request.new, Text.allBlank, List.all_eq_true.mpr h]
    rfl
  | name hc hi ho hn h =>
    obtain ⟨id, hid⟩ := hc
    obtain ⟨image, himage⟩ := hi
    rw [Trigger.toRequest_eq hid himage ho, hn]
    show ((checkContainerName _ >>= _) >>= _) = _
    rw [checkContainerName, h.checkName_eq]
    rfl
  | catalog hc hi ho hn hk h =>
    obtain ⟨id, hid⟩ := hc
    obtain ⟨image, himage⟩ := hi
    obtain ⟨q, hq, -, hr⟩ := toRequest_of_named hid himage ho hn
    rcases checkPayloads_cases hq with ⟨hp, -⟩ | ⟨-, -, hcheck⟩ | ⟨hk', -, -⟩
    · rw [HasPayloads, if_pos hk, h] at hp
      cases hp
    · rw [hr, hcheck]
      rfl
    · exact absurd hk hk'
  | payload hc hi ho hn hk h =>
    obtain ⟨id, hid⟩ := hc
    obtain ⟨image, himage⟩ := hi
    obtain ⟨q, hq, -, hr⟩ := toRequest_of_named hid himage ho hn
    rcases checkPayloads_cases hq with ⟨hp, -⟩ | ⟨hk', -, -⟩ | ⟨-, -, hcheck⟩
    · rw [HasPayloads, if_neg hk, Option.isSome_eq_false_iff, Option.isSome_eq_false_iff,
        Option.isNone_iff_eq_none, Option.isNone_iff_eq_none] at hp
      exact absurd h (by simp [hp])
    · exact absurd hk' hk
    · rw [hr, hcheck]
      rfl

theorem Asks.unique {p q : Request} (hp : t.Asks p) (hq : t.Asks q) : p = q := by
  have hconnector := hp.connector.symm.trans hq.connector
  have himage := hp.image.symm.trans hq.image
  obtain ⟨owner, connector, image, name, kind, catalog, records⟩ := p
  obtain ⟨owner', connector', image', name', kind', catalog', records'⟩ := q
  cases hconnector
  cases himage
  congr 1
  · exact hp.owner.trans hq.owner.symm
  · exact hp.name.trans hq.name.symm
  · exact hp.kind.trans hq.kind.symm
  · exact hp.catalog.trans hq.catalog.symm
  · exact hp.records.trans hq.records.symm

/-- **Exactly the well-formed triggers are accepted.** A trigger makes a request if it meets the conditions,
and otherwise the first that it fails is reported. The request has what the trigger gives, the container name
that it asks for or else the derived one, and is complete; a derived name always follows the naming rules. -/
theorem accepted (t : Trigger) :
    ((∃ q, t.toRequest = .ok q) ↔ t.WellFormed) ∧
      (∀ q, t.toRequest = .ok q ↔ t.WellFormed ∧ t.Asks q ∧ q.validate = .ok ()) ∧
      (∀ v, t.toRequest = .error v ↔ t.FirstFault v) ∧
      ∀ id kind, Container.WellNamed (Container.nameFor id kind) := by
  have hok : ∀ q, t.toRequest = .ok q → t.WellFormed ∧ t.Asks q ∧ q.validate = .ok () := by
    intro q hq
    rcases wellFormed_or_firstFault t with hw | ⟨v, hv⟩
    · obtain ⟨p, hp, hvalid, hr⟩ := hw.toRequest_eq
      rw [hr] at hq
      cases hq
      exact ⟨hw, hp, hvalid⟩
    · rw [hv.toRequest_eq] at hq
      cases hq
  refine ⟨⟨fun ⟨q, hq⟩ => (hok q hq).1, fun hw => ?_⟩, fun q => ⟨hok q, fun ⟨hw, hq, _⟩ => ?_⟩,
    fun v => ⟨fun h => ?_, FirstFault.toRequest_eq⟩, Container.wellNamed_nameFor⟩
  · obtain ⟨q, -, -, hr⟩ := hw.toRequest_eq
    exact ⟨q, hr⟩
  · obtain ⟨p, hp, -, hr⟩ := hw.toRequest_eq
    rw [hr, hp.unique hq]
  · rcases wellFormed_or_firstFault t with hw | ⟨u, hu⟩
    · obtain ⟨q, -, -, hr⟩ := hw.toRequest_eq
      rw [hr] at h
      cases h
    · rw [hu.toRequest_eq] at h
      cases h
      exact hu

end Trigger

end RunDispatch
