/-
# The name that a trigger gives its run

The name of a container tells its connector and its operation, if it was derived from them: a connector
is displayed with 36 characters, from which its digits can be read off, and the operation comes after a
dot. A trigger gives its run this name, unless it asks for another.

Key definitions: `Trigger.KeepsName`.
Key theorems: `Connector.Id.displayChars_injective`, `Container.nameFor_injective`,
`Trigger.toRequest_ok`, `Trigger.same_of_containerName`.
-/
import RunDispatch.Proofs.Staging.Frame
import RunDispatch.Trigger

namespace RunDispatch

open Staging (ok_of_bind)

/-! ### Derived names -/

namespace Connector.Id

theorem flatten_cut {α : Type} (ns : List Nat) (s : List α) :
    (cut ns s).flatten = s.take (ns.foldr (· + ·) 0) := by
  induction ns generalizing s with
  | nil => simp [cut]
  | cons n ns ih => rw [cut, List.flatten_cons, ih, List.foldr_cons, List.take_add]

/-- Hyphens between parts that have none can be told from them. -/
theorem filter_hyphenated (parts : List (List Char)) (h : ∀ c ∈ parts.flatten, c ≠ '-') :
    (hyphenated parts).filter (· ≠ '-') = parts.flatten := by
  unfold hyphenated
  induction parts with
  | nil => rfl
  | cons p rest ih =>
    rw [List.flatten_cons] at h
    have hp : p.filter (· ≠ '-') = p :=
      List.filter_eq_self.mpr fun c hc => by simpa using h c (List.mem_append_left _ hc)
    have ih := ih fun c hc => h c (List.mem_append_right _ hc)
    cases rest with
    | nil => simpa using hp
    | cons q rest =>
      rw [List.intersperse_cons_cons, List.flatten_cons, List.flatten_cons, List.filter_append, hp,
        List.filter_append, ih, List.flatten_cons]
      simp

theorem hexDigit_ne_hyphen (d : Fin 16) : Text.hexDigit d.val ≠ '-' := by
  revert d
  decide

theorem hexDigit_injective {a b : Fin 16} (h : Text.hexDigit a.val = Text.hexDigit b.val) : a = b := by
  have ha := Text.hexValue?_hexDigit a.isLt
  rw [h, Text.hexValue?_hexDigit b.isLt] at ha
  exact Fin.ext (Option.some.inj ha).symm

theorem flatten_groups (id : Id) :
    (cut groupLengths (id.digits.map fun d => Text.hexDigit d.val)).flatten =
      id.digits.map fun d => Text.hexDigit d.val := by
  rw [flatten_cut, List.take_of_length_le]
  rw [List.length_map, id.length_digits]
  decide

theorem filter_displayChars (id : Id) :
    id.displayChars.filter (· ≠ '-') = id.digits.map fun d => Text.hexDigit d.val := by
  rw [displayChars, filter_hyphenated _ ?_, flatten_groups]
  rw [flatten_groups]
  intro c hc
  obtain ⟨d, -, rfl⟩ := List.mem_map.mp hc
  exact hexDigit_ne_hyphen d

theorem displayChars_injective {a b : Id} (h : a.displayChars = b.displayChars) : a = b := by
  have hd := congrArg (List.filter (· ≠ '-')) h
  rw [filter_displayChars, filter_displayChars] at hd
  have hdigits : a.digits = b.digits :=
    (List.map_inj_right fun _ _ => hexDigit_injective).mp hd
  cases a
  cases b
  simpa using hdigits

theorem length_displayChars (id : Id) : id.displayChars.length = 36 := by
  simp [displayChars, hyphenated, cut, groupLengths, id.length_digits]

end Connector.Id

theorem Operation.name_injective {a b : Operation} (h : a.name = b.name) : a = b := by
  have ha := ofName?_name a
  rw [h, ofName?_name] at ha
  exact (Option.some.inj ha).symm

namespace Container

/-- **A derived name is that of one operation of one connector.** -/
theorem nameFor_injective {a b : Connector.Id} {k l : Operation} (h : nameFor a k = nameFor b l) :
    a = b ∧ k = l := by
  have hc := congrArg String.toList h
  simp only [nameFor, Connector.Id.display, String.toList_append, String.toList_ofList,
    List.append_assoc] at hc
  obtain ⟨hid, hrest⟩ := List.append_inj hc (by simp only [Connector.Id.length_displayChars])
  exact ⟨Connector.Id.displayChars_injective hid,
    Operation.name_injective (String.toList_injective (List.append_cancel_left hrest))⟩

end Container

/-! ### Triggers -/

namespace Trigger

/-- Whether a trigger leaves its run the derived name: it asks for no other. -/
def KeepsName (t : Trigger) : Prop :=
  ∀ name id, t.containerName = some name → parseId t.connector = .ok id →
    name = Container.nameFor id t.kind

theorem checkName_ok {name : String} (h : checkContainerName name = .ok ()) :
    Container.checkName name = .ok () := by
  unfold checkContainerName at h
  cases hc : Container.checkName name with
  | ok => rfl
  | error f =>
    rw [hc] at h
    cases h

/-- A request gets the name that is asked for, and is otherwise as it was. -/
theorem named_ok {name : Option String} {p q : Request} (h : named name p = .ok q) :
    q = { p with containerName := name.getD p.containerName } := by
  cases name with
  | none =>
    cases h
    rfl
  | some n =>
    obtain ⟨_, -, hq⟩ := ok_of_bind h
    cases hq
    rfl

/-- **What an accepted trigger asks for**: its own connector and operation, under the name it asks for,
or else under the derived one. -/
theorem toRequest_ok {t : Trigger} {q : Request} (h : t.toRequest = .ok q) :
    parseId t.connector = .ok q.connector ∧ q.owner = t.owner ∧ q.kind = t.kind ∧
      q.containerName = t.containerName.getD (Container.nameFor q.connector q.kind) ∧
      Container.checkName q.containerName = .ok () := by
  obtain ⟨id, hid, h⟩ := ok_of_bind h
  obtain ⟨image, -, h⟩ := ok_of_bind h
  obtain ⟨p, hp, h⟩ := ok_of_bind h
  obtain ⟨p', hp', h⟩ := ok_of_bind h
  obtain ⟨_, hv, h⟩ := ok_of_bind h
  cases h
  have hnew : p = ⟨t.owner, id, image, Container.nameFor id t.kind, t.kind, none, none⟩ := by
    unfold Request.new at hp
    split at hp <;> cases hp
    rfl
  rw [named_ok hp', hnew] at hv ⊢
  obtain ⟨_, hname, -⟩ := ok_of_bind hv
  exact ⟨hid, rfl, rfl, rfl, checkName_ok hname⟩

/-- A run has its derived name exactly if its trigger leaves it that. -/
theorem keepsName_iff {t : Trigger} {q : Request} (h : t.toRequest = .ok q) :
    t.KeepsName ↔ q.containerName = Container.nameFor q.connector q.kind := by
  obtain ⟨hid, -, hk, hn, -⟩ := toRequest_ok h
  rw [hn]
  constructor
  · intro hkeep
    cases hc : t.containerName with
    | none => rfl
    | some name =>
      rw [Option.getD_some, hk]
      exact hkeep name _ hc hid
  · intro hname name id hc hid'
    rw [hc, Option.getD_some] at hname
    rw [hid] at hid'
    cases hid'
    rw [hname, hk]

/-- **Derived names tell operations apart**: two runs of one name that both have the derived one are of
the same connector and the same operation. -/
theorem same_of_containerName {t u : Trigger} {p q : Request} (ht : t.toRequest = .ok p)
    (hu : u.toRequest = .ok q) (hn : p.containerName = q.containerName) (hkt : t.KeepsName)
    (hku : u.KeepsName) : p.connector = q.connector ∧ p.kind = q.kind := by
  rw [(keepsName_iff ht).mp hkt, (keepsName_iff hu).mp hku] at hn
  exact Container.nameFor_injective hn

end Trigger

end RunDispatch
