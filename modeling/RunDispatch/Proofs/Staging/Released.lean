/-
# What releasing staged files leaves

Files that were staged are removed when they are released, whether they were reused or not and once for each
kind, and nothing else is. What is left of the name are the payloads of the other kinds, and removing the
payloads of the name counts these.

A removal succeeds exactly where a file is, and takes that file only. So both counts are counts of the kinds
at whose paths a file is: of those that are released, each counts when it comes first.

Key definitions: `holding`, `Removable`, `Released`.
Key theorems: `holding_remove`, `release_count`, `unstageKinds_eq`, `Stages.there`, `released`,
`staged_then_released`.
-/
import Mathlib.Data.List.Dedup
import RunDispatch.Proofs.Staging.Modes

namespace RunDispatch.Staging

open RunDispatch.Staging.Tree (namesOf)

/-! ### One removal -/

theorem remove_sound_eq (t : Tree) (path : String) :
    (Disk.sound t).remove path =
      match namesOf path >>= t.remove with
      | .error e => (.sound t, some e)
      | .ok u => (.sound u, none) := rfl

/-- Whether a file is at the path of a payload. -/
def holding (root name : String) (t : Tree) (kind : PayloadKind) : Bool :=
  (t.contentAt (pathFor root kind name)).isSome

section Remove

variable {t : Tree} {path : String} {p : Place}

theorem remove_file {c : Bytes} (h : t.LeadsTo path p) (hc : t.find? p = some (.file c)) :
    (Disk.sound t).remove path = (.sound (t.erase p), none) := by
  obtain ⟨names, hn, hp⟩ := h
  rw [remove_sound_eq]
  simp only [hn, bind, Except.bind, Tree.remove, hp, hc]
  rfl

theorem remove_nothing (h : t.LeadsTo path p) (hc : t.find? p = none) :
    ((Disk.sound t).remove path).2 = some .notFound := by
  obtain ⟨names, hn, hp⟩ := h
  rw [remove_sound_eq]
  simp only [hn, bind, Except.bind, Tree.remove, hp, hc]

/-- **A removal succeeds exactly where a file is.** -/
theorem remove_eq_none_iff :
    ((Disk.sound t).remove path).2 = none ↔ (t.contentAt path).isSome = true := by
  constructor
  · intro h
    rw [remove_sound_eq] at h
    split at h
    · cases h
    · rename_i u hu
      obtain ⟨names, hn, hu⟩ := ok_of_bind hu
      obtain ⟨p, hp, hu⟩ := ok_of_bind hu
      split at hu
      · cases hu
      · cases hu
      · rename_i c hc
        exact Option.isSome_iff_exists.mpr ⟨c, Tree.contentAt_of_leadsTo ⟨names, hn, hp⟩ hc⟩
  · intro h
    obtain ⟨c, hc⟩ := Option.isSome_iff_exists.mp h
    obtain ⟨p, hleads, hfile⟩ := Tree.leadsTo_of_contentAt hc
    rw [remove_file hleads hfile]

/-- After the removal of a payload, files are at the paths of the other payloads that were there. -/
theorem holding_remove {root name : String} (hn : '/' ∉ name.toList) (t : Tree) (kind other : PayloadKind) :
    holding root name ((Disk.sound t).remove (pathFor root kind name)).1.tree other =
      (decide (other ≠ kind) && holding root name t other) := by
  by_cases ho : other = kind
  · subst ho
    have hgone : ∀ c, ((Disk.sound t).remove (pathFor root other name)).1.tree.entryAt
        (pathFor root other name) ≠ some (.file c) := fun c hc => by
      have hbefore : t.entryAt (pathFor root other name) = some (.file c) :=
        (remove_shrinks rfl [⟨other, _, false⟩] _).entries _ List.mem_cons_self _ hc
      rw [entryAt_remove rfl (hbefore ▸ nofun)] at hc
      cases hc
    rw [holding, Option.isSome_eq_false_iff.mpr, decide_eq_false (not_not_intro rfl), Bool.false_and]
    refine Option.isNone_iff_eq_none.mpr (Option.eq_none_iff_forall_ne_some.mpr fun c hc => ?_)
    exact hgone c (Tree.contentAt_eq_some.mp hc)
  · have hsame : ((Disk.sound t).remove (pathFor root kind name)).1.tree.entryAt (pathFor root other name) =
        t.entryAt (pathFor root other name) := entryAt_remove_pathFor rfl hn (Ne.symm ho)
    rw [holding, holding, Tree.contentAt, hsame, decide_eq_true ho, Bool.true_and]
    rfl

end Remove

/-! ### Counting the kinds -/

theorem countP_kinds {P Q : PayloadKind → Bool} (kind : PayloadKind) (hP : P kind = true)
    (hQ : Q kind = false) (h : ∀ other, other ≠ kind → P other = Q other) :
    PayloadKind.all.countP P = PayloadKind.all.countP Q + 1 := by
  have hmem : kind ∈ PayloadKind.all := by cases kind <;> decide
  have hperm := List.perm_cons_erase hmem
  have hrest : (PayloadKind.all.erase kind).countP P = (PayloadKind.all.erase kind).countP Q := by
    refine List.countP_congr fun other ho => ?_
    rw [h other ((List.Nodup.mem_erase_iff (by decide)).mp ho).1]
  rw [hperm.countP_eq, hperm.countP_eq, List.countP_cons_of_pos hP,
    List.countP_cons_of_neg (by rw [hQ]; decide), hrest]

theorem countP_mem_kinds (kinds : List PayloadKind) :
    PayloadKind.all.countP (fun kind => decide (kind ∈ kinds)) = kinds.dedup.length := by
  rw [List.countP_eq_length_filter]
  refine List.Perm.length_eq ((List.perm_ext_iff_of_nodup ?_ kinds.nodup_dedup).mpr fun kind => ?_)
  · exact List.Nodup.filter _ (by decide)
  · have hmem : kind ∈ PayloadKind.all := by cases kind <;> decide
    rw [List.mem_filter, List.mem_dedup, decide_eq_true_iff]
    exact and_iff_right hmem

/-! ### The files of a name -/

section Names

variable {root name : String} {t : Tree} {files : List StagedFile} {kinds : List PayloadKind}

theorem release_cons_count (t : Tree) (f : StagedFile) (rest : List StagedFile) :
    (release (.sound t) (f :: rest)).2 =
      (release (.sound ((Disk.sound t).remove f.path).1.tree) rest).2 +
        if (t.contentAt f.path).isSome = true then 1 else 0 := by
  rw [← Disk.remove_sound, release]
  split
  · rename_i d e hr
    have hnone : ¬ (t.contentAt f.path).isSome = true := fun h => by
      rw [← remove_eq_none_iff, hr] at h
      cases h
    rw [if_neg hnone, Nat.add_zero, hr]
  · rename_i d hr
    rw [if_pos (remove_eq_none_iff.mp (congrArg Prod.snd hr)), hr]

/-- **Releasing files of a name counts each kind once**, of those at whose paths a file is. -/
theorem release_count (hn : '/' ∉ name.toList) (hf : ∀ f ∈ files, f.path = pathFor root f.kind name)
    (t : Tree) :
    (release (.sound t) files).2 = PayloadKind.all.countP fun kind =>
      decide (kind ∈ files.map (·.kind)) && holding root name t kind := by
  induction files generalizing t with
  | nil => rfl
  | cons f rest ih =>
    have hpath : (t.contentAt f.path).isSome = holding root name t f.kind := by
      rw [hf f List.mem_cons_self]
      rfl
    -- After the removal the kind of the file counts no more, and the other kinds as before.
    rw [release_cons_count, ih (fun g hg => hf g (List.mem_cons_of_mem f hg)), hpath,
      hf f List.mem_cons_self]
    simp only [holding_remove hn]
    by_cases hheld : holding root name t f.kind = true
    · rw [if_pos hheld]
      refine (countP_kinds f.kind ?_ ?_ fun kind hk => ?_).symm
      · simp [hheld]
      · simp
      · simp [hk]
    · rw [if_neg hheld, Nat.add_zero]
      refine List.countP_congr fun kind _ => ?_
      by_cases hk : kind = f.kind
      · subst hk
        simp [hheld]
      · simp [hk]

end Names

/-! ### Removals that find a file or nothing -/

/-- Whether the removal of a file succeeds or finds nothing to remove. -/
def Removable (t : Tree) (path : String) : Prop :=
  ((Disk.sound t).remove path).2 = none ∨ ((Disk.sound t).remove path).2 = some .notFound

section Removable

variable {t : Tree} {path : String}

/-- A removal finds a file or nothing where the path leads to no directory, or a directory on it is
missing. -/
theorem removable_iff :
    Removable t path ↔ ∃ names, namesOf path = .ok names ∧
      (t.locate names = .error .notFound ∨ ∃ p, t.locate names = .ok p ∧ t.find? p ≠ some .directory) := by
  unfold Removable
  rw [remove_sound_eq]
  constructor
  · intro h
    cases hn : namesOf path with
    | error e =>
      have he : e = .nulInName := by
        unfold namesOf at hn
        split at hn <;> cases hn
        rfl
      simp [hn, he, bind, Except.bind] at h
    | ok names =>
      refine ⟨names, rfl, ?_⟩
      cases hp : t.locate names with
      | error e =>
        simp only [hn, bind, Except.bind, Tree.remove, hp] at h
        simpa using h
      | ok p =>
        refine .inr ⟨p, rfl, fun hd => ?_⟩
        simp [hn, bind, Except.bind, Tree.remove, hp, hd] at h
  · rintro ⟨names, hn, hp | ⟨p, hp, hd⟩⟩
    · simp [hn, bind, Except.bind, Tree.remove, hp]
    · simp only [hn, bind, Except.bind, Tree.remove, hp]
      cases hc : t.find? p with
      | none => simp
      | some e =>
        cases e with
        | directory => exact absurd hc hd
        | file c => exact .inl rfl

/-- A way that is missing stays so when a file is erased. -/
theorem walk_erase_notFound {p : Place} {c : Bytes} (hf : t.find? p = some (.file c)) {names : List String}
    {start : Place} (h : t.walk start names = .error .notFound) :
    (t.erase p).walk start names = .error .notFound := by
  induction names generalizing start with
  | nil => cases h
  | cons name rest ih =>
    unfold Tree.walk at h ⊢
    split
    · rename_i hup
      rw [if_pos hup] at h
      exact ih h
    · rename_i hup
      rw [if_neg hup] at h
      split at h
      · cases h
      · rename_i hshort
        rw [if_neg hshort]
        cases hd : t.find? (start ++ [name]) with
        | none =>
          have hnone : (t.erase p).find? (start ++ [name]) = none := by
            rw [Tree.find?_erase, hd, ite_self]
          rw [hnone]
        | some e =>
          rw [hd] at h
          cases e with
          | file c => cases h
          | directory =>
            rw [(Tree.find?_erase_directory hf _).mpr hd]
            exact ih h

theorem locate_erase_notFound {p : Place} {c : Bytes} (hf : t.find? p = some (.file c))
    {names : List String} (h : t.locate names = .error .notFound) :
    (t.erase p).locate names = .error .notFound := by
  unfold Tree.locate at h ⊢
  split at h
  · cases h
  · cases hw : t.walk [] names.dropLast with
    | error e =>
      rw [hw] at h
      cases h
      rw [walk_erase_notFound hf hw]
      rfl
    | ok dir =>
      rw [(Tree.walk_congr (Tree.find?_erase_directory hf) _ _ _).mpr hw]
      rw [hw] at h
      exact h

theorem Removable.remove (h : Removable t path) (other : String) :
    Removable ((Disk.sound t).remove other).1.tree path := by
  rcases Disk.remove_cases (d := .sound t) rfl other with ⟨hr, -⟩ | ⟨p, c, -, hc, -, hr⟩ <;> rw [hr]
  · exact h
  · rw [removable_iff] at h ⊢
    obtain ⟨names, hn, hp⟩ := h
    refine ⟨names, hn, hp.imp (locate_erase_notFound hc) fun ⟨q, hq, hd⟩ => ⟨q, ?_, ?_⟩⟩
    · exact (Tree.locate_congr (Tree.find?_erase_directory hc) names q).mpr hq
    · exact fun hd' => hd ((Tree.find?_erase_directory hc q).mp hd')

/-- **Removing the payloads of a name counts those that are there**, if each removal finds a file or
nothing. -/
theorem unstageKinds_eq {root name : String} (hn : '/' ∉ name.toList) {kinds : List PayloadKind}
    (hnodup : kinds.Nodup) (hr : ∀ kind ∈ kinds, Removable t (pathFor root kind name)) (removed : Nat) :
    (unstageKinds root name (.sound t) removed kinds).2 =
      .ok (removed + kinds.countP (holding root name t)) := by
  induction kinds generalizing t removed with
  | nil => rfl
  | cons kind rest ih =>
    obtain ⟨hnew, hnodup⟩ := List.nodup_cons.mp hnodup
    have hafter := ih hnodup (t := ((Disk.sound t).remove (pathFor root kind name)).1.tree)
      fun other ho => (hr other (List.mem_cons_of_mem kind ho)).remove _
    have hrest : rest.countP (holding root name ((Disk.sound t).remove (pathFor root kind name)).1.tree) =
        rest.countP (holding root name t) := by
      refine List.countP_congr fun other ho => ?_
      have hne : other ≠ kind := ne_of_mem_of_not_mem ho hnew
      rw [holding_remove hn, decide_eq_true hne, Bool.true_and]
    rw [hrest, ← Disk.remove_sound] at hafter
    rw [unstageKinds]
    rcases hr kind List.mem_cons_self with hgone | hnone
    · have hheld : holding root name t kind = true := remove_eq_none_iff.mp hgone
      rw [List.countP_cons_of_pos hheld, ← Prod.eta ((Disk.sound t).remove _), hgone]
      dsimp only
      rw [hafter, Nat.add_assoc, Nat.add_comm 1]
    · have hheld : ¬ holding root name t kind = true := fun h => by
        rw [remove_eq_none_iff.mpr h] at hnone
        cases hnone
      rw [List.countP_cons_of_neg hheld, ← Prod.eta ((Disk.sound t).remove _), hnone]
      exact hafter removed

end Removable

/-! ### What is released and what is left -/

section Released

variable {root name : String} {mode : StagingMode} {t : Tree} {payloads : List Payload}

/-- Where a file is at the path of a payload there is one after staging. -/
theorem Stages.holds {flags : List Bool} (h : Stages root name mode t payloads flags)
    (hn : '/' ∉ name.toList) {kind : PayloadKind} (hheld : holding root name t kind = true) :
    holding root name (treeAfter root name mode t payloads) kind = true := by
  refine h.along (P := fun t => holding root name t kind = true) ?_ hheld
  intro payload _ t u reused head hheld
  by_cases hk : kind = payload.1
  · rw [hk, holding, head.there]
    rfl
  · obtain ⟨c, hc⟩ := Option.isSome_iff_exists.mp hheld
    rw [holding, head.stays_kind hn hk hc]
    rfl

/-- **A file is at the path of each payload** that was staged. -/
theorem Stages.there {flags : List Bool} (h : Stages root name mode t payloads flags)
    (hn : '/' ∉ name.toList) {kind : PayloadKind} (hk : kind ∈ payloads.map Prod.fst) :
    holding root name (treeAfter root name mode t payloads) kind = true := by
  induction h with
  | nil => cases hk
  | @cons t payload rest reused flags head tail ih =>
    rcases List.mem_cons.mp hk with rfl | hk
    · refine tail.holds hn ?_
      rw [holding, head.there]
      rfl
    · exact ih hk

/-- What became of a tree, and what was counted, when files of the kinds given were released. -/
structure Released (root name : String) (kinds : List PayloadKind) (t u : Tree) (count : Nat) : Prop where
  /-- Each kind counts once. -/
  counted : count = kinds.dedup.length
  /-- Nothing is left at the paths of these kinds. -/
  gone : ∀ kind ∈ kinds, u.entryAt (pathFor root kind name) = none
  /-- No other place changes. -/
  others : ∀ p, (∀ kind ∈ kinds, ¬ t.LeadsTo (pathFor root kind name) p) → u.find? p = t.find? p
  /-- What is at the paths of the other kinds stays. -/
  kept : ∀ kind, kind ∉ kinds → u.entryAt (pathFor root kind name) = t.entryAt (pathFor root kind name)
  /-- Removing the payloads of the name then counts the files of the other kinds, if each of these removals
  finds a file or nothing. -/
  rest : (∀ kind, kind ∉ kinds → Removable u (pathFor root kind name)) →
    (unstage root name (.sound u)).2 =
      .ok (PayloadKind.all.countP fun kind => decide (kind ∉ kinds) && holding root name u kind)

theorem release_sound (t : Tree) (files : List StagedFile) :
    (release (.sound t) files).1 = .sound (release (.sound t) files).1.tree := by
  have hfaultless := (release_shrinks (d := .sound t) rfl [] files).faultless
  generalize (release (.sound t) files).1 = d at hfaultless
  obtain ⟨u, faults⟩ := d
  cases hfaultless
  rfl

/-- **Releasing files that are there.** -/
theorem released {files : List StagedFile} (hn : '/' ∉ name.toList)
    (hf : ∀ f ∈ files, f.path = pathFor root f.kind name)
    (hheld : ∀ f ∈ files, holding root name t f.kind = true) :
    Released root name (files.map (·.kind)) t (release (.sound t) files).1.tree
      (release (.sound t) files).2 := by
  obtain ⟨hdirs, hplaces⟩ := find?_release_of_faultless (d := .sound t) rfl files
  have hgone : ∀ kind ∈ files.map (·.kind),
      (release (.sound t) files).1.tree.entryAt (pathFor root kind name) = none := by
    intro kind hk
    obtain ⟨f, hmem, rfl⟩ := List.mem_map.mp hk
    obtain ⟨c, hc⟩ := Option.isSome_iff_exists.mp (hheld f hmem)
    rw [← hf f hmem] at hc ⊢
    refine entryAt_release (d := .sound t) rfl hmem ?_
    show t.entryAt f.path ≠ some .directory
    rw [Tree.contentAt_eq_some.mp hc]
    nofun
  refine ⟨?_, hgone, fun p hp => (hplaces p).resolve_right fun ⟨_, f, hmem, hleads⟩ => ?_,
    fun kind hk => ?_, fun hr => ?_⟩
  · rw [release_count hn hf, ← countP_mem_kinds]
    refine List.countP_congr fun kind _ => ?_
    rw [Bool.and_eq_true, and_iff_left_of_imp fun hk => ?_]
    obtain ⟨f, hmem, rfl⟩ := List.mem_map.mp (of_decide_eq_true hk)
    exact hheld f hmem
  · rw [hf f hmem] at hleads
    exact hp f.kind (List.mem_map_of_mem hmem) hleads
  · refine entryAt_release_of_kind (d := .sound t) (f := ⟨kind, pathFor root kind name, false⟩) rfl hn
      (fun g hg => ⟨hf g hg, ?_⟩) rfl
    rintro rfl
    exact hk (List.mem_map_of_mem hg)
  · have hremovable : ∀ kind ∈ PayloadKind.all,
        Removable (release (.sound t) files).1.tree (pathFor root kind name) := by
      intro kind _
      by_cases hk : kind ∈ files.map (·.kind)
      · -- The path leads where it led, and nothing is there now.
        obtain ⟨f, hmem, rfl⟩ := List.mem_map.mp hk
        obtain ⟨c, hc⟩ := Option.isSome_iff_exists.mp (hheld f hmem)
        obtain ⟨p, hleads, -⟩ := Tree.leadsTo_of_contentAt hc
        have hleads := (Tree.leadsTo_congr hdirs (pathFor root f.kind name) p).mpr hleads
        have hnone := (Tree.entryAt_of_leadsTo hleads).symm.trans (hgone f.kind hk)
        exact .inr (remove_nothing hleads hnone)
      · exact hr kind hk
    rw [unstage, unstageKinds_eq hn (by decide) hremovable, Nat.zero_add]
    refine congrArg Except.ok (List.countP_congr fun kind _ => ?_)
    by_cases hk : kind ∈ files.map (·.kind)
    · rw [holding, Tree.contentAt, hgone kind hk]
      simp
    · rw [decide_eq_true hk, Bool.true_and]

end Released

/-- **Staging and releasing by the modes.** Staging that succeeds where no directory is at the path of a
payload when it is staged leaves files by its mode. Releasing them then removes these files and no others,
counts each kind once, and leaves the payloads of the other kinds to be counted when the payloads of the name
are removed. -/
theorem staged_then_released {root name : String} {mode : StagingMode} {t : Tree} {payloads : List Payload}
    {d : Disk} {staged : List StagedFile} (hn : Container.checkName name = .ok ())
    (hfree : Free root name mode t payloads)
    (h : stage root name mode (.sound t) payloads = (d, .ok staged)) :
    d = .sound (treeAfter root name mode t payloads) ∧
    StagedByMode root name mode t payloads staged ∧
    ∃ u count, release d staged = (.sound u, count) ∧
      Released root name (payloads.map Prod.fst) (treeAfter root name mode t payloads) u count := by
  have hproper := proper_of_checkName hn
  obtain ⟨flags, hstages, rfl, hfiles⟩ := stages_of_stage h hfree
  rw [List.nil_append] at hfiles
  subst hfiles
  have hmode := hstages.byMode hproper
  have hkinds : (stagedFiles root name payloads flags).map (·.kind) = payloads.map Prod.fst := by
    have := congrArg (List.map Prod.fst) hmode.files
    simpa [List.map_map, Function.comp_def] using this
  have hpaths : ∀ f ∈ stagedFiles root name payloads flags, f.path = pathFor root f.kind name := by
    intro f hf
    have hmem : (f.kind, f.path) ∈ payloads.map fun p => (p.1, pathFor root p.1 name) :=
      hmode.files ▸ List.mem_map_of_mem hf
    obtain ⟨p, -, hp⟩ := List.mem_map.mp hmem
    obtain ⟨hkind, hpath⟩ := Prod.mk.inj hp
    rw [← hpath, hkind]
  have hheld : ∀ f ∈ stagedFiles root name payloads flags,
      holding root name (treeAfter root name mode t payloads) f.kind = true := fun f hf =>
    hstages.there hproper.slash (hkinds ▸ List.mem_map_of_mem hf)
  refine ⟨rfl, hmode, _, _, Prod.ext (release_sound _ _) rfl, ?_⟩
  rw [← hkinds]
  exact released hproper.slash hpaths hheld

def catalogTree : Tree :=
  ⟨(["r", "connector-data", "catalog", "c.json"], .file [0x7a]) ::
    (["r", "connector-data", "catalog"], .directory) :: sampleFolders⟩

def repeatedPayloads : List Payload := [(.catalog, [0x61]), (.config, [0x62]), (.config, [0x63])]

/-- The files of these payloads where files are kept: the catalog was there, and the first configuration
when the second was staged. -/
def repeatedFiles : List StagedFile :=
  [⟨.catalog, "r/connector-data/catalog/c.json", true⟩, ⟨.config, "r/connector-data/config/c.json", false⟩,
    ⟨.config, "r/connector-data/config/c.json", true⟩]

/-- Three payloads of two kinds are staged over a catalog that is kept, and two files are released. -/
theorem sample_staged_released :
    (Container.checkName "c" = .ok () ∧ Free "r" "c" .keep catalogTree repeatedPayloads ∧
      stage "r" "c" .keep (.sound catalogTree) repeatedPayloads =
        (.sound (treeAfter "r" "c" .keep catalogTree repeatedPayloads), .ok repeatedFiles)) ∧
    StagedByMode "r" "c" .keep catalogTree repeatedPayloads repeatedFiles ∧
    ∃ u, release (.sound (treeAfter "r" "c" .keep catalogTree repeatedPayloads)) repeatedFiles =
        (.sound u, 2) ∧
      Released "r" "c" [.catalog, .config, .config]
        (treeAfter "r" "c" .keep catalogTree repeatedPayloads) u 2 := by
  have hn : Container.checkName "c" = .ok () := by decide
  have hfree : Free "r" "c" .keep catalogTree repeatedPayloads :=
    ⟨by decide +kernel, by decide +kernel, by decide +kernel, trivial⟩
  have h : stage "r" "c" .keep (.sound catalogTree) repeatedPayloads =
      (.sound (treeAfter "r" "c" .keep catalogTree repeatedPayloads), .ok repeatedFiles) := by
    decide +kernel
  obtain ⟨-, hmode, u, count, hrelease, hreleased⟩ := staged_then_released hn hfree h
  obtain rfl : count = 2 := hreleased.counted
  exact ⟨⟨hn, hfree, h⟩, hmode, u, hrelease, hreleased⟩

end RunDispatch.Staging
