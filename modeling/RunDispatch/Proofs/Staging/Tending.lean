/-
# What staging tends

An operation on a payload's path tends the place of the payload and the ways above it: it adds
directories on the ways where there are none, and leaves the places of all other names alone
(`Tended`). To say so, each operation of the disk is told by what lies at the payload's place and which
fault it meets.

Key definitions: `Widened`, `Tended`, `Disk.fault`, `Disk.after`.
Key theorems: `tended_pave`, `Disk.makeParents_eq`, `Disk.write_eq`, `Disk.remove_eq`,
`Disk.makeParents_tended`, `Disk.write_tended`, `Disk.remove_tended`, `release_tended`.
-/
import RunDispatch.Proofs.Staging.Site

namespace RunDispatch.Staging

open RunDispatch.Staging.Tree (namesOf)

/-- Whether a directory was added, if anything was done. -/
def Widened (a b : Option Entry) : Prop := b = a ∨ a = none ∧ b = some .directory

theorem Widened.refl (a : Option Entry) : Widened a a := .inl rfl

theorem Widened.trans {a b c : Option Entry} (h : Widened a b) (h' : Widened b c) : Widened a c := by
  rcases h with rfl | ⟨rfl, rfl⟩
  · exact h'
  · rcases h' with rfl | ⟨h, -⟩
    · exact .inr ⟨rfl, rfl⟩
    · cases h

/-! ### What an operation on a payload tends -/

section Tended

variable {root : String} (site : Site root) (name : String)

/-- What becomes of a tree by operations on the payloads of a name. -/
structure Tended (t u : Tree) : Prop where
  stands : site.Stands u
  keeps : ∀ p, t.find? p = some .directory → u.find? p = some .directory
  ways : ∀ p, site.OnWay p → Widened (t.find? p) (u.find? p)
  others : ∀ kind other, other ≠ name → u.find? (site.place kind other) = t.find? (site.place kind other)

variable {site name} {t u v : Tree} {kind : PayloadKind}

theorem Tended.refl (h : site.Stands t) : Tended site name t t :=
  ⟨h, fun _ hp => hp, fun _ _ => .refl _, fun _ _ _ => rfl⟩

theorem Tended.trans (h : Tended site name t u) (h' : Tended site name u v) : Tended site name t v where
  stands := h'.stands
  keeps p hp := h'.keeps p (h.keeps p hp)
  ways p hp := (h.ways p hp).trans (h'.ways p hp)
  others kind other ho := (h'.others kind other ho).trans (h.others kind other ho)

/-- A directory is added on a way. -/
theorem tended_directory (h : site.Stands t) {p : Place} {c : String} (hw : site.OnWay (p ++ [c]))
    (hp : t.find? p = some .directory) (hf : t.find? (p ++ [c]) = none) :
    Tended site name t (t.put (p ++ [c]) .directory) := by
  have hkeeps : ∀ q, t.find? q = some .directory →
      (t.put (p ++ [c]) .directory).find? q = some .directory := by
    intro q hq
    rw [Tree.find?_put]
    split
    · rfl
    · exact hq
  refine ⟨h.mono (h.grounded.put hp (.inl rfl)) hkeeps, hkeeps, fun q _ => ?_, fun kind other _ => ?_⟩
  · rw [Tree.find?_put]
    split
    · rename_i hq
      rw [hq.1, hf]
      exact .inr ⟨rfl, rfl⟩
    · exact .refl _
  · rw [Tree.find?_put, if_neg]
    rintro ⟨he, -⟩
    rw [← he] at hw
    exact site.not_onWay_place kind other hw

theorem tended_of_place (kind : PayloadKind) (hs : site.Stands u)
    (hk : ∀ p, t.find? p = some .directory → u.find? p = some .directory)
    (he : ∀ q, q ≠ site.place kind name → u.find? q = t.find? q) : Tended site name t u := by
  refine ⟨hs, hk, fun q hq => .inl (he q ?_), fun other n hn => he _ fun hp => ?_⟩
  · rintro rfl
    exact site.not_onWay_place kind name hq
  · exact hn (site.place_injective hp).2

theorem tended_file (h : site.Stands t) (hw : t.find? (site.top ++ site.way kind) = some .directory)
    (hf : t.find? (site.place kind name) ≠ some .directory) (content : Bytes) :
    Tended site name t (t.put (site.place kind name) (.file content)) := by
  have hkeeps : ∀ q, t.find? q = some .directory →
      (t.put (site.place kind name) (.file content)).find? q = some .directory := by
    intro q hq
    rw [Tree.find?_put, if_neg]
    · exact hq
    · rintro ⟨rfl, -⟩
      exact hf hq
  refine tended_of_place kind (h.mono (h.grounded.put hw (.inr hf)) hkeeps) hkeeps fun q hq => ?_
  rw [Tree.find?_put, if_neg fun hc => hq hc.1]

theorem tended_written (h : site.Stands t)
    (hw : t.find? (site.top ++ site.way kind) = some .directory)
    (hf : t.find? (site.place kind name) ≠ some .directory) (content : Bytes) :
    Tended site name t
      ((t.put (site.place kind name) (.file [])).put (site.place kind name) (.file content)) := by
  have h1 : Tended site name t (t.put (site.place kind name) (.file [])) := tended_file h hw hf []
  refine h1.trans (tended_file h1.stands (h1.keeps _ hw) ?_ content)
  rw [Tree.find?_put, if_pos ⟨rfl, site.place_ne_nil kind name⟩]
  simp

theorem tended_erase (h : site.Stands t) {content : Bytes}
    (hf : t.find? (site.place kind name) = some (.file content)) :
    Tended site name t (t.erase (site.place kind name)) := by
  have hkeeps := fun q => (Tree.find?_erase_directory hf q).mpr
  refine tended_of_place kind (h.mono (h.grounded.erase hf) hkeeps) hkeeps fun q hq => ?_
  rw [Tree.find?_erase, if_neg fun hc => hq hc.1]

theorem Site.OnWay.of_append {p : Place} {a b : List String} (h : site.OnWay (p ++ (a ++ b))) :
    site.OnWay (p ++ a) := by
  obtain ⟨kind, hk⟩ := h
  rw [← List.append_assoc] at hk
  exact ⟨kind, (List.prefix_append _ _).trans hk⟩

/-- Directories are made on a way. -/
theorem tended_pave {names : List String} (h : site.Stands t) {p : Place}
    (hp : t.find? p = some .directory) (hw : site.OnWay (p ++ names)) :
    Tended site name t (t.pave p names).1 := by
  induction names generalizing t p with
  | nil => exact .refl h
  | cons c rest ih =>
    have hc : site.OnWay (p ++ [c]) := hw.of_append (a := [c])
    have hw : site.OnWay (p ++ [c] ++ rest) := by simpa using hw
    rw [Tree.pave]
    split
    · exact .refl h
    · split
      · rename_i hf
        have hd : Tended site name t (t.put (p ++ [c]) .directory) := tended_directory h hc hp hf
        refine hd.trans (ih hd.stands ?_ hw)
        rw [Tree.find?_put, if_pos ⟨rfl, by simp⟩]
      · exact .refl h
      · rename_i hf
        exact ih h hf hw

end Tended

/-! ### Operations on a disk, one fault at a time -/

namespace Disk

def fault (d : Disk) : Option Fault := d.faults.head?.join

def after (d : Disk) (t : Tree) : Disk := ⟨t, d.faults.tail⟩

theorem turn_eq (d : Disk) : d.turn = (d.fault, d.after d.tree) := by
  obtain ⟨t, faults⟩ := d
  cases faults <;> rfl

theorem holds_eq (d : Disk) (path : String) :
    d.holds path = (d.fault.isNone && (d.tree.entryAt path).isSome, d.after d.tree) := by
  unfold holds
  rw [turn_eq]
  cases d.fault with
  | some f => rfl
  | none =>
    simp only [Tree.entryAt, after]
    cases namesOf path >>= d.tree.stat <;> rfl

section Site

variable {root : String} {site : Site root} {name : String} {kind : PayloadKind} {d : Disk}

theorem makeParents_eq (h : site.Stands d.tree) (hn : Proper name) :
    d.makeParents (pathFor root kind name) =
      match d.fault with
      | some f => (d.after d.tree, some f.error)
      | none =>
        if (site.before ++ site.way kind).any fun c => c.toList.contains (Char.ofNat 0) then
          (d.after d.tree, some .nulInName)
        else
          (d.after (d.tree.pave site.top (site.way kind)).1, (d.tree.pave site.top (site.way kind)).2) := by
  have hc : (components (pathFor root kind name)).dropLast = site.before ++ site.way kind := by
    have happ : components (pathFor root kind name) =
        site.before ++ site.way kind ++ [fileName name] := by
      rw [components_pathFor root kind hn.slash, site.split, Site.way]
      simp
    rw [happ, List.dropLast_concat]
  unfold makeParents
  rw [turn_eq, hc]
  cases d.fault with
  | some f => rfl
  | none =>
    dsimp only
    split
    · rfl
    · have hm : d.tree.makeDirectories (site.before ++ site.way kind) =
          d.tree.pave site.top (site.way kind) :=
        h.grounded.makeDirectoriesFrom_eq h.top (site.way_down kind) (by simp)
      simp only [after, hm]

theorem makeParents_tended (h : site.Stands d.tree) (hn : Proper name) :
    Tended site name d.tree (d.makeParents (pathFor root kind name)).1.tree := by
  rw [makeParents_eq h hn]
  split
  · exact .refl h
  · split
    · exact .refl h
    · exact tended_pave h h.find?_top ⟨kind, List.prefix_refl _⟩

theorem openFile_eq {t : Tree} (h : site.Stands t) (hn : Proper name)
    (hw : t.walk site.top (site.way kind) = .ok (site.top ++ site.way kind)) :
    (namesOf (pathFor root kind name) >>= t.openFile) =
      (namesOf (pathFor root kind name)).bind fun _ =>
        if t.find? (site.place kind name) = some .directory then .error .isDirectory
        else .ok (site.place kind name, t.put (site.place kind name) (.file [])) := by
  cases hnames : namesOf (pathFor root kind name) with
  | error e => rfl
  | ok names =>
    obtain rfl := eq_of_namesOf hnames
    simp only [bind, Except.bind, Tree.openFile, (h.locate_eq_ok hn).mpr ⟨rfl, hw⟩]
    cases t.find? (site.place kind name) with
    | none => rfl
    | some e => cases e <;> rfl

theorem eq_of_openPayload {t u : Tree} {p : Place} (h : site.Stands t) (hn : Proper name)
    (ho : (namesOf (pathFor root kind name) >>= t.openFile) = .ok (p, u)) :
    p = site.place kind name ∧ u = t.put p (.file []) ∧ t.find? p ≠ some .directory ∧
      t.find? (site.top ++ site.way kind) = some .directory := by
  obtain ⟨names, hnames, hopen⟩ := ok_of_bind ho
  obtain rfl := eq_of_namesOf hnames
  obtain ⟨rfl, hw⟩ := (h.locate_eq_ok hn).mp (Tree.eq_of_openFile hopen).1
  rw [openFile_eq h hn hw, hnames] at ho
  simp only [Except.bind] at ho
  split at ho
  · cases ho
  · rename_i hf
    cases ho
    exact ⟨rfl, rfl, hf, (h.walk_way.mp hw).2⟩

theorem write_eq (d : Disk) (path : String) (content : Bytes) :
    d.write path content =
      match d.fault with
      | some ⟨error, none⟩ => (d.after d.tree, some error)
      | some ⟨error, some n⟩ =>
        match namesOf path >>= d.tree.openFile with
        | .error e => (d.after d.tree, some e)
        | .ok (p, t) => (d.after (t.put p (.file (content.take n))), some error)
      | none =>
        match namesOf path >>= d.tree.openFile with
        | .error e => (d.after d.tree, some e)
        | .ok (p, t) => (d.after (t.put p (.file content)), none) := by
  unfold write
  rw [turn_eq]
  simp only [after]
  cases d.fault with
  | none => rfl
  | some f =>
    obtain ⟨error, _ | n⟩ := f <;> rfl

theorem write_tended (h : site.Stands d.tree) (hn : Proper name) (content : Bytes) :
    Tended site name d.tree (d.write (pathFor root kind name) content).1.tree := by
  rw [write_eq]
  split
  · exact .refl h
  · split
    · exact .refl h
    · rename_i ho
      obtain ⟨rfl, rfl, hf, hw⟩ := eq_of_openPayload h hn ho
      exact tended_written h hw hf _
  · split
    · exact .refl h
    · rename_i ho
      obtain ⟨rfl, rfl, hf, hw⟩ := eq_of_openPayload h hn ho
      exact tended_written h hw hf _

theorem remove_eq (h : site.Stands d.tree) (hn : Proper name) :
    (d.remove (pathFor root kind name)).1 =
      d.after (match d.fault, d.tree.entryAt (pathFor root kind name) with
        | none, some (.file _) => d.tree.erase (site.place kind name)
        | _, _ => d.tree) := by
  unfold remove
  rw [turn_eq]
  cases d.fault with
  | some f => rfl
  | none =>
    dsimp only
    cases hr : namesOf (pathFor root kind name) >>= (d.after d.tree).tree.remove with
    | error e =>
      cases he : d.tree.entryAt (pathFor root kind name) with
      | none => rfl
      | some entry =>
        cases entry with
        | directory => rfl
        | file content =>
          obtain ⟨names, p, hnames, hp, hf⟩ := Tree.entryAt_eq_some.mp he
          simp only [hnames, bind, Except.bind, after, Tree.remove, hp, hf] at hr
          cases hr
    | ok t =>
      obtain ⟨names, hnames, hr⟩ := ok_of_bind hr
      obtain rfl := eq_of_namesOf hnames
      obtain ⟨p, hp, hr⟩ := ok_of_bind hr
      obtain ⟨rfl, -⟩ := (h.locate_eq_ok hn).mp hp
      have hent : ∀ e, d.tree.find? (site.place kind name) = some e →
          d.tree.entryAt (pathFor root kind name) = some e :=
        fun e he => Tree.entryAt_eq_some.mpr ⟨_, _, hnames, hp, he⟩
      split at hr
      · cases hr
      · cases hr
      · rename_i content hf
        cases hr
        rw [hent _ hf]
        rfl

theorem remove_tended (h : site.Stands d.tree) (hn : Proper name) :
    Tended site name d.tree (d.remove (pathFor root kind name)).1.tree := by
  rw [remove_eq h hn]
  simp only [after]
  split
  · rename_i he
    exact tended_erase h ((h.entryAt_eq_some hn).mp he).2.2
  · exact .refl h

end Site

end Disk

theorem release_tended {root : String} {site : Site root} {name : String} (hn : Proper name)
    {files : List StagedFile} (hf : ∀ f ∈ files, f.path = pathFor root f.kind name) {d : Disk}
    (h : site.Stands d.tree) : Tended site name d.tree (release d files).1.tree := by
  induction files generalizing d with
  | nil => exact .refl h
  | cons f rest ih =>
    have hr : Tended site name d.tree (d.remove f.path).1.tree := by
      rw [hf f List.mem_cons_self]
      exact Disk.remove_tended h hn
    rw [release_cons]
    exact hr.trans (ih (fun g hg => hf g (List.mem_cons_of_mem _ hg)) hr.stands)

end RunDispatch.Staging
