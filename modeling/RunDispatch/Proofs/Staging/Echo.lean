/-
# Staging beside others

A tree in which others stage as well echoes one in which nobody else does, for the payloads of one
name: these lie there as here, and the ways above them hold at least the directories they hold here
(`Echo`). Whatever others do, the echo stays; and an operation on a payload of the name, met by the
same fault, comes to the same in both trees and leaves an echo again. Only a payload that is written
needs the way above it to be there.

Key definitions: `Echo`, `Disk.Echo`.
Key theorems: `Echo.others`, `Echo.entryAt`, `Disk.Echo.holds`, `Disk.Echo.makeParents`, `Disk.Echo.write`,
`Disk.Echo.remove`, `Disk.Echo.release`.
-/
import RunDispatch.Proofs.Staging.Tending

namespace RunDispatch.Staging

open RunDispatch.Staging.Tree (namesOf)

/-! ### Echoes -/

section Echo

variable {root : String} (site : Site root) (name : String)

/-- Whether a tree `u` in which others stage as well echoes a tree `t` in which nobody else does, for the
payloads of a name. -/
structure Echo (t u : Tree) : Prop where
  alone : site.Stands t
  beside : site.Stands u
  ways : ∀ p, site.OnWay p → Widened (t.find? p) (u.find? p)
  payloads : ∀ kind, u.find? (site.place kind name) = t.find? (site.place kind name)

variable {site name} {t u v : Tree} {kind : PayloadKind}

theorem Echo.refl (h : site.Stands t) : Echo site name t t :=
  ⟨h, h, fun _ _ => .refl _, fun _ => rfl⟩

/-- **An echo stays, whatever others do** to payloads of other names. -/
theorem Echo.others (h : Echo site name t u) {other : String} (ho : name ≠ other)
    (hu : Tended site other u v) : Echo site name t v where
  alone := h.alone
  beside := hu.stands
  ways p hp := (h.ways p hp).trans (hu.ways p hp)
  payloads kind := (hu.others kind name ho).trans (h.payloads kind)

theorem Echo.entryAt (h : Echo site name t u) (hn : Proper name) (kind : PayloadKind) :
    u.entryAt (pathFor root kind name) = t.entryAt (pathFor root kind name) := by
  refine Option.ext fun e => ?_
  rw [h.alone.entryAt_eq_some hn, h.beside.entryAt_eq_some hn, h.payloads kind]

theorem Echo.walk_way (h : Echo site name t u)
    (hw : t.walk site.top (site.way kind) = .ok (site.top ++ site.way kind)) :
    u.walk site.top (site.way kind) = .ok (site.top ++ site.way kind) := by
  obtain ⟨hs, hd⟩ := h.alone.walk_way.mp hw
  refine h.beside.walk_way.mpr ⟨hs, ?_⟩
  rcases h.ways _ ⟨kind, List.prefix_refl _⟩ with he | ⟨hne, -⟩
  · rw [he, hd]
  · rw [hd] at hne
    cases hne

/-- A directory that is missing on a way is added, unless others did. -/
theorem Echo.directory (h : Echo site name t u) {p : Place} {c : String}
    (hw : site.OnWay (p ++ [c])) (hp : t.find? p = some .directory) (hf : t.find? (p ++ [c]) = none) :
    (u.find? (p ++ [c]) = none → u.find? p = some .directory →
      Echo site name (t.put (p ++ [c]) .directory) (u.put (p ++ [c]) .directory)) ∧
    (u.find? (p ++ [c]) = some .directory → Echo site name (t.put (p ++ [c]) .directory) u) := by
  have ht : Tended site name t (t.put (p ++ [c]) .directory) := tended_directory h.alone hw hp hf
  have hne : ∀ kind, site.place kind name ≠ p ++ [c] := by
    rintro kind hc
    rw [← hc] at hw
    exact site.not_onWay_place kind name hw
  have hadded : u.find? (p ++ [c]) = none → u.find? p = some .directory →
      Tended site name u (u.put (p ++ [c]) .directory) :=
    fun hu hpu => tended_directory h.beside hw hpu hu
  refine ⟨fun hu hpu => ⟨ht.stands, (hadded hu hpu).stands, ?_, ?_⟩,
    fun hu => ⟨ht.stands, h.beside, ?_, ?_⟩⟩
  · intro q hq
    rw [Tree.find?_put, Tree.find?_put]
    split
    · exact .refl _
    · exact h.ways q hq
  · intro kind
    rw [Tree.find?_put, Tree.find?_put, if_neg fun hc => hne kind hc.1, if_neg fun hc => hne kind hc.1]
    exact h.payloads kind
  · intro q hq
    rw [Tree.find?_put]
    split
    · rename_i hc
      rw [hc.1, hu]
      exact .refl _
    · exact h.ways q hq
  · intro kind
    rw [Tree.find?_put, if_neg fun hc => hne kind hc.1]
    exact h.payloads kind

/-- **Directories that are made on a way** leave an echo, and the same error if any. -/
theorem Echo.pave (h : Echo site name t u) {p : Place} {names : List String}
    (hw : site.OnWay (p ++ names)) (hp : t.find? p = some .directory)
    (hu : u.find? p = some .directory) :
    (u.pave p names).2 = (t.pave p names).2 ∧
      Echo site name (t.pave p names).1 (u.pave p names).1 := by
  induction names generalizing t u p with
  | nil => exact ⟨rfl, h⟩
  | cons c rest ih =>
    have hc : site.OnWay (p ++ [c]) := hw.of_append (a := [c])
    have hw : site.OnWay (p ++ [c] ++ rest) := by simpa using hw
    have hput : ∀ t : Tree, (t.put (p ++ [c]) .directory).find? (p ++ [c]) = some .directory := by
      intro t
      rw [Tree.find?_put, if_pos ⟨rfl, by simp⟩]
    rw [Tree.pave, Tree.pave]
    split
    · exact ⟨rfl, h⟩
    · cases hf : t.find? (p ++ [c]) with
      | none =>
        obtain ⟨hboth, hone⟩ := h.directory hc hp hf
        have hway := h.ways _ hc
        rw [hf] at hway
        rcases hway with hfu | ⟨-, hfu⟩ <;> rw [hfu]
        · exact ih (hboth hfu hu) hw (hput t) (hput u)
        · exact ih (hone hfu) hw (hput t) hfu
      | some e =>
        have hfu : u.find? (p ++ [c]) = some e := by
          have hway := h.ways _ hc
          rw [hf] at hway
          rcases hway with hfu | ⟨hn, -⟩
          · exact hfu
          · cases hn
        rw [hfu]
        cases e with
        | directory => exact ih h hw hf hfu
        | file => exact ⟨rfl, h⟩

/-- What is done at a payload's place in both trees leaves an echo. -/
theorem Echo.place {t' u' : Tree} (h : Echo site name t u) (kind : PayloadKind)
    (ht : Tended site name t t') (hu : Tended site name u u')
    (hp : u'.find? (site.place kind name) = t'.find? (site.place kind name))
    (het : ∀ q, q ≠ site.place kind name → t'.find? q = t.find? q)
    (heu : ∀ q, q ≠ site.place kind name → u'.find? q = u.find? q) : Echo site name t' u' where
  alone := ht.stands
  beside := hu.stands
  ways q hq := by
    have hne : q ≠ site.place kind name := by
      rintro rfl
      exact site.not_onWay_place kind name hq
    rw [het q hne, heu q hne]
    exact h.ways q hq
  payloads other := by
    by_cases hk : site.place other name = site.place kind name
    · rw [hk]
      exact hp
    · rw [het _ hk, heu _ hk]
      exact h.payloads other

theorem Echo.erase (h : Echo site name t u) {content : Bytes}
    (hf : t.find? (site.place kind name) = some (.file content)) :
    Echo site name (t.erase (site.place kind name)) (u.erase (site.place kind name)) := by
  have hfu : u.find? (site.place kind name) = some (.file content) := (h.payloads kind).trans hf
  refine h.place kind (tended_erase h.alone hf) (tended_erase h.beside hfu) ?_ (fun q hq => ?_)
    fun q hq => ?_
  · rw [Tree.find?_erase, Tree.find?_erase, if_pos ⟨rfl, site.place_ne_nil kind name⟩]
    rw [if_pos ⟨rfl, site.place_ne_nil kind name⟩]
  · rw [Tree.find?_erase, if_neg fun hc => hq hc.1]
  · rw [Tree.find?_erase, if_neg fun hc => hq hc.1]

/-- A payload that is written is written beside others, once the way to it is there. -/
theorem Echo.written (h : Echo site name t u)
    (hw : t.walk site.top (site.way kind) = .ok (site.top ++ site.way kind))
    (hf : t.find? (site.place kind name) ≠ some .directory) (content : Bytes) :
    Echo site name
      ((t.put (site.place kind name) (.file [])).put (site.place kind name) (.file content))
      ((u.put (site.place kind name) (.file [])).put (site.place kind name) (.file content)) := by
  have hwu := h.walk_way hw
  have hfu : u.find? (site.place kind name) ≠ some .directory := by
    rw [h.payloads kind]
    exact hf
  have hput : ∀ (v : Tree) (q : Place), q ≠ site.place kind name →
      ((v.put (site.place kind name) (.file [])).put (site.place kind name) (.file content)).find? q =
        v.find? q := by
    intro v q hq
    rw [Tree.find?_put, if_neg fun hc => hq hc.1, Tree.find?_put, if_neg fun hc => hq hc.1]
  refine h.place kind (tended_written h.alone (h.alone.walk_way.mp hw).2 hf content)
    (tended_written h.beside (h.beside.walk_way.mp hwu).2 hfu content) ?_ (hput t) (hput u)
  have hself : ∀ v : Tree, (v.put (site.place kind name) (.file content)).find? (site.place kind name) =
      some (.file content) := by
    intro v
    rw [Tree.find?_put, if_pos ⟨rfl, site.place_ne_nil kind name⟩]
  rw [hself, hself]

end Echo

namespace Disk

/-- Whether a disk echoes another, and the same faults are to come. -/
structure Echo {root : String} (site : Site root) (name : String) (d d' : Disk) : Prop where
  tree : Staging.Echo site name d.tree d'.tree
  faults : d'.faults = d.faults

namespace Echo

variable {root : String} {site : Site root} {name : String} {d d' : Disk}

theorem fault_eq (h : Disk.Echo site name d d') : d'.fault = d.fault := by
  rw [fault, fault, h.faults]

theorem after (h : Disk.Echo site name d d') {t u : Tree} (ht : Staging.Echo site name t u) :
    Disk.Echo site name (d.after t) (d'.after u) :=
  ⟨ht, congrArg List.tail h.faults⟩

theorem holds (h : Disk.Echo site name d d') (hn : Proper name) (kind : PayloadKind) :
    (d'.holds (pathFor root kind name)).1 = (d.holds (pathFor root kind name)).1 ∧
      Disk.Echo site name (d.holds (pathFor root kind name)).2 (d'.holds (pathFor root kind name)).2 := by
  rw [holds_eq, holds_eq, h.fault_eq, h.tree.entryAt hn]
  exact ⟨rfl, h.after h.tree⟩

theorem makeParents (h : Disk.Echo site name d d') (hn : Proper name) (kind : PayloadKind) :
    (d'.makeParents (pathFor root kind name)).2 = (d.makeParents (pathFor root kind name)).2 ∧
      Disk.Echo site name (d.makeParents (pathFor root kind name)).1
        (d'.makeParents (pathFor root kind name)).1 := by
  rw [makeParents_eq h.tree.alone hn, makeParents_eq h.tree.beside hn, h.fault_eq]
  cases d.fault with
  | some f => exact ⟨rfl, h.after h.tree⟩
  | none =>
    dsimp only
    split
    · exact ⟨rfl, h.after h.tree⟩
    · obtain ⟨he, ht⟩ := h.tree.pave ⟨kind, List.prefix_refl _⟩ h.tree.alone.find?_top
        h.tree.beside.find?_top
      exact ⟨he, h.after ht⟩

theorem write (h : Disk.Echo site name d d') (hn : Proper name) {kind : PayloadKind}
    (hw : d.tree.walk site.top (site.way kind) = .ok (site.top ++ site.way kind)) (content : Bytes) :
    (d'.write (pathFor root kind name) content).2 = (d.write (pathFor root kind name) content).2 ∧
      Disk.Echo site name (d.write (pathFor root kind name) content).1
        (d'.write (pathFor root kind name) content).1 := by
  have hwu := h.tree.walk_way hw
  have hopen : ∀ content : Bytes,
      (∃ e, (namesOf (pathFor root kind name) >>= d.tree.openFile) = .error e ∧
        (namesOf (pathFor root kind name) >>= d'.tree.openFile) = .error e) ∨
      ∃ p t u, (namesOf (pathFor root kind name) >>= d.tree.openFile) = .ok (p, t) ∧
        (namesOf (pathFor root kind name) >>= d'.tree.openFile) = .ok (p, u) ∧
        Staging.Echo site name (t.put p (.file content)) (u.put p (.file content)) := by
    intro content
    rw [openFile_eq h.tree.alone hn hw, openFile_eq h.tree.beside hn hwu, h.tree.payloads kind]
    cases namesOf (pathFor root kind name) with
    | error e => exact .inl ⟨e, rfl, rfl⟩
    | ok names =>
      simp only [Except.bind]
      split
      · exact .inl ⟨_, rfl, rfl⟩
      · rename_i hf
        exact .inr ⟨_, _, _, rfl, rfl, h.tree.written hw hf content⟩
  rw [write_eq, write_eq, h.fault_eq]
  split
  · exact ⟨rfl, h.after h.tree⟩
  · rename_i error n _
    rcases hopen (content.take n) with ⟨e, hd, hd'⟩ | ⟨p, t, u, hd, hd', ht⟩
    · rw [hd, hd']
      exact ⟨rfl, h.after h.tree⟩
    · rw [hd, hd']
      exact ⟨rfl, h.after ht⟩
  · rcases hopen content with ⟨e, hd, hd'⟩ | ⟨p, t, u, hd, hd', ht⟩
    · rw [hd, hd']
      exact ⟨rfl, h.after h.tree⟩
    · rw [hd, hd']
      exact ⟨rfl, h.after ht⟩

theorem remove (h : Disk.Echo site name d d') (hn : Proper name) (kind : PayloadKind) :
    Disk.Echo site name (d.remove (pathFor root kind name)).1
      (d'.remove (pathFor root kind name)).1 := by
  rw [remove_eq h.tree.alone hn, remove_eq h.tree.beside hn, h.fault_eq, h.tree.entryAt hn]
  refine h.after ?_
  split
  · rename_i he
    exact h.tree.erase ((h.tree.alone.entryAt_eq_some hn).mp he).2.2
  · exact h.tree

theorem release (h : Disk.Echo site name d d') (hn : Proper name) {files : List StagedFile}
    (hf : ∀ f ∈ files, f.path = pathFor root f.kind name) :
    Disk.Echo site name (Staging.release d files).1 (Staging.release d' files).1 := by
  induction files generalizing d d' with
  | nil => exact h
  | cons f rest ih =>
    rw [release_cons, release_cons, hf f List.mem_cons_self]
    exact ih (h.remove hn f.kind) fun g hg => hf g (List.mem_cons_of_mem _ hg)

end Echo

/-- The way to a payload is there when the directories above it were made. -/
theorem walk_of_makeParents {root : String} {site : Site root} {name : String} {d : Disk}
    (h : site.Stands d.tree) (hn : Proper name) (kind : PayloadKind)
    (hm : (d.makeParents (pathFor root kind name)).2 = none) :
    (d.makeParents (pathFor root kind name)).1.tree.walk site.top (site.way kind) =
      .ok (site.top ++ site.way kind) := by
  rw [makeParents_eq h hn] at hm ⊢
  split at hm
  · cases hm
  · split at hm
    · cases hm
    · rename_i hany
      rw [if_neg hany]
      exact Tree.walk_of_pave (site.way_down kind) hm

end Disk

end RunDispatch.Staging
