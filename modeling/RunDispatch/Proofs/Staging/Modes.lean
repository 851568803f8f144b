/-
# What staging does by its modes

Payloads are staged one after another, and each leaves a file at its path: with its own content, or, if files
are kept and one was there at that moment, with the content of that one. So of several payloads of a kind the
last one counts where files are replaced, and what was there before the first, or else the first, where they
are kept. No other place changes, but for the directories that are made.

Key definitions: `Tree.contentAt`, `afterPayload`, `treeAfter`, `Free`, `Laid`, `Stages`, `StagedByMode`.
Key theorems: `laid`, `stages_of_stage`, `Stages.overwritten`, `Stages.kept`, `Stages.others`,
`free_of_stands`, `Stages.byMode`.
-/
import RunDispatch.Proofs.Staging.Failing

namespace RunDispatch.Staging

/-! ### Files at the end of paths -/

namespace Tree

/-- The content of the file at the end of a path, if a file is there. -/
def contentAt (t : Tree) (path : String) : Option Bytes :=
  match t.entryAt path with
  | some (.file content) => some content
  | _ => none

theorem contentAt_eq_some {t : Tree} {path : String} {c : Bytes} :
    t.contentAt path = some c ↔ t.entryAt path = some (.file c) := by
  unfold contentAt
  cases t.entryAt path with
  | none => simp
  | some e => cases e <;> simp

theorem leadsTo_of_contentAt {t : Tree} {path : String} {c : Bytes} (h : t.contentAt path = some c) :
    ∃ p, t.LeadsTo path p ∧ t.find? p = some (.file c) :=
  leadsTo_of_entryAt (contentAt_eq_some.mp h)

theorem contentAt_of_leadsTo {t : Tree} {path : String} {p : Place} {c : Bytes} (h : t.LeadsTo path p)
    (hc : t.find? p = some (.file c)) : t.contentAt path = some c :=
  contentAt_eq_some.mpr ((entryAt_of_leadsTo h).trans hc)

end Tree

theorem not_leadsTo_both {t : Tree} {root name : String} (hn : '/' ∉ name.toList) {a b : PayloadKind}
    (hab : a ≠ b) {p : Place} (ha : t.LeadsTo (pathFor root a name) p) :
    ¬ t.LeadsTo (pathFor root b name) p := by
  rintro ⟨names', hn', hp'⟩
  obtain ⟨names, hn₁, hp⟩ := ha
  rw [Disk.eq_of_namesOf hn₁] at hp
  rw [Disk.eq_of_namesOf hn'] at hp'
  exact hab (kind_eq_of_place hn hp hp')

/-! ### One payload -/

/-- What becomes of a tree by a payload that is staged at a path: a file is there, no other place changes
but for directories that are made, and the payload tells whether a file was there that it kept. -/
structure Laid (t u : Tree) (path : String) (content : Bytes) (mode : StagingMode) (reused : Bool) :
    Prop where
  keeps : ∀ p, t.find? p = some .directory → u.find? p = some .directory
  reused_iff : reused = true ↔ mode = .keep ∧ (t.contentAt path).isSome = true
  there : u.contentAt path =
    some (if mode = .keep then (t.contentAt path).getD content else content)
  others : ∀ p, ¬ u.LeadsTo path p → Widened (t.find? p) (u.find? p)

theorem holds_sound (t : Tree) (path : String) :
    (Disk.sound t).holds path = ((t.entryAt path).isSome, .sound t) :=
  Disk.holds_eq (.sound t) path

theorem laid_of_kept {t : Tree} {path : String} {c : Bytes} (hc : t.contentAt path = some c)
    (content : Bytes) : Laid t t path content .keep true where
  keeps _ hp := hp
  reused_iff := by simp [hc]
  there := by rw [if_pos rfl, hc, Option.getD_some]
  others _ _ := .refl _

/-- A payload that is written leaves its content where its path leads. -/
theorem laid_of_wrote {t v u : Tree} {path : String} {p : Place} {content : Bytes} (hv : Widens t v)
    (hw : Disk.Wrote v u path p content) {mode : StagingMode}
    (hm : mode = .keep → t.contentAt path = none) : Laid t u path content mode false where
  keeps q hq := hw.keeps q (hv.keeps q hq)
  reused_iff := by
    refine ⟨nofun, fun ⟨hk, hs⟩ => ?_⟩
    rw [hm hk] at hs
    cases hs
  there := by
    rw [Tree.contentAt_of_leadsTo (hw.leads.mono hw.keeps) hw.there]
    split
    · rename_i hk
      rw [hm hk, Option.getD_none]
    · rfl
  others q hq := by
    have hne : q ≠ p := by
      rintro rfl
      exact hq (hw.leads.mono hw.keeps)
    rw [hw.others q hne]
    exact hv q

/-- **One payload that is staged**, with no fault, where nothing or a file is. -/
theorem laid {t : Tree} {path : String} {content : Bytes} {mode : StagingMode} {d : Disk} {reused : Bool}
    (h : stagePayload (.sound t) path content mode = (d, .ok reused))
    (hfree : t.entryAt path ≠ some .directory) :
    d = .sound d.tree ∧ Laid t d.tree path content mode reused := by
  unfold stagePayload at h
  rw [holds_sound] at h
  by_cases hkept : mode = .keep ∧ (t.entryAt path).isSome = true
  · obtain ⟨rfl, hsome⟩ := hkept
    obtain ⟨c, hc⟩ : ∃ c, t.contentAt path = some c := by
      obtain ⟨e, he⟩ := Option.isSome_iff_exists.mp hsome
      cases e with
      | directory => exact absurd he hfree
      | file c => exact ⟨c, Tree.contentAt_eq_some.mpr he⟩
    rw [if_pos rfl, hsome] at h
    cases h
    exact ⟨rfl, laid_of_kept hc content⟩
  · have hlook : (if mode = .keep then ((t.entryAt path).isSome, Disk.sound t) else (false, .sound t)) =
        (false, .sound t) := by
      split
      · rename_i hm
        rw [Bool.eq_false_iff.mpr fun hs => hkept ⟨hm, hs⟩]
      · rfl
    have hnone : mode = .keep → t.contentAt path = none := fun hm => by
      have hs : t.entryAt path = none := Option.not_isSome_iff_eq_none.mp fun hs => hkept ⟨hm, hs⟩
      rw [Tree.contentAt, hs]
    obtain ⟨v, failure, hparents, hv⟩ := (Disk.sound t).makeParents_widens path
    rw [hlook] at h
    dsimp only at h
    rw [if_neg (by decide), hparents] at h
    cases failure with
    | some e => cases h
    | none =>
      dsimp only at h
      rcases ((Disk.sound t).after v).write_cases path content with ⟨e, hw⟩ | ⟨p, u, hw, hwrote⟩ |
        ⟨p, u, e, n, hw, -, -⟩ <;> rw [hw] at h <;> cases h
      exact ⟨rfl, laid_of_wrote hv hwrote hnone⟩

theorem Laid.stays {t u : Tree} {path : String} {content : Bytes} {mode : StagingMode} {reused : Bool}
    (h : Laid t u path content mode reused) {other : String} {c : Bytes} (hc : t.contentAt other = some c)
    (hne : ∀ p, u.LeadsTo other p → ¬ u.LeadsTo path p) : u.contentAt other = some c := by
  obtain ⟨p, hleads, hfile⟩ := Tree.leadsTo_of_contentAt hc
  have hleads := hleads.mono h.keeps
  exact Tree.contentAt_of_leadsTo hleads ((h.others p (hne p hleads)).keeps hfile)

theorem Laid.stays_kind {t u : Tree} {root name : String} {staged : PayloadKind} {content : Bytes}
    {mode : StagingMode} {reused : Bool} (h : Laid t u (pathFor root staged name) content mode reused)
    (hn : '/' ∉ name.toList) {kind : PayloadKind} (hk : kind ≠ staged) {c : Bytes}
    (hc : t.contentAt (pathFor root kind name) = some c) :
    u.contentAt (pathFor root kind name) = some c :=
  h.stays hc fun _ hp => not_leadsTo_both hn hk hp

/-! ### Payloads one after another -/

section Payloads

variable (root name : String) (mode : StagingMode)

def afterPayload (t : Tree) (payload : Payload) : Tree :=
  (stagePayload (.sound t) (pathFor root payload.1 name) payload.2 mode).1.tree

def treeAfter (t : Tree) (payloads : List Payload) : Tree :=
  payloads.foldl (afterPayload root name mode) t

/-- Whether, whenever a payload is staged, nothing or a file is at its path. Below a root that stands it is
so if it is so at first (`free_of_stands`). -/
def Free : Tree → List Payload → Prop
  | _, [] => True
  | t, payload :: rest =>
    t.entryAt (pathFor root payload.1 name) ≠ some .directory ∧
      Free (afterPayload root name mode t payload) rest

/-- Payloads that are laid one after another, each telling whether a file was kept. -/
inductive Stages : Tree → List Payload → List Bool → Prop
  | nil (t : Tree) : Stages t [] []
  | cons {t : Tree} {payload : Payload} {rest : List Payload} {reused : Bool} {flags : List Bool}
    (head : Laid t (afterPayload root name mode t payload) (pathFor root payload.1 name) payload.2 mode
      reused)
    (tail : Stages (afterPayload root name mode t payload) rest flags) :
    Stages t (payload :: rest) (reused :: flags)

def stagedFiles (payloads : List Payload) (flags : List Bool) : List StagedFile :=
  payloads.zipWith (fun payload reused => ⟨payload.1, pathFor root payload.1 name, reused⟩) flags

variable {root name mode} {t : Tree} {payloads before after : List Payload} {flags : List Bool}

/-- **Staging that succeeds** lays its payloads one after another. -/
theorem stages_of_stage {staged files : List StagedFile} {d : Disk}
    (h : stageAfter root name mode (.sound t) staged payloads = (d, .ok files))
    (hfree : Free root name mode t payloads) :
    ∃ flags, Stages root name mode t payloads flags ∧ d = .sound (treeAfter root name mode t payloads) ∧
      files = staged ++ stagedFiles root name payloads flags := by
  induction payloads generalizing t staged with
  | nil =>
    cases h
    exact ⟨[], .nil t, rfl, (List.append_nil _).symm⟩
  | cons payload rest ih =>
    obtain ⟨kind, content⟩ := payload
    unfold stageAfter at h
    dsimp only at h
    split at h
    · rename_i d' reused hs
      obtain ⟨hd, hlaid⟩ := laid hs hfree.1
      have htree : d'.tree = afterPayload root name mode t (kind, content) := by
        rw [afterPayload, hs]
      rw [hd, htree] at h
      rw [htree] at hlaid
      obtain ⟨flags, hstages, hend, hfiles⟩ := ih h hfree.2
      refine ⟨reused :: flags, .cons hlaid hstages, hend, ?_⟩
      rw [hfiles, List.append_assoc]
      rfl
    · cases h

theorem treeAfter_cons (payload : Payload) : treeAfter root name mode t (payload :: payloads) =
    treeAfter root name mode (afterPayload root name mode t payload) payloads := rfl

theorem treeAfter_append : treeAfter root name mode t (before ++ after) =
    treeAfter root name mode (treeAfter root name mode t before) after := List.foldl_append

theorem Stages.split (h : Stages root name mode t (before ++ after) flags) :
    ∃ f g, flags = f ++ g ∧ f.length = before.length ∧ Stages root name mode t before f ∧
      Stages root name mode (treeAfter root name mode t before) after g := by
  induction before generalizing t flags with
  | nil => exact ⟨[], flags, rfl, rfl, .nil t, h⟩
  | cons payload rest ih =>
    cases h with
    | cons head tail =>
      obtain ⟨f, g, rfl, hf, hfirst, hthen⟩ := ih tail
      exact ⟨_ :: f, g, rfl, congrArg (· + 1) hf, .cons head hfirst, hthen⟩

/-- What each payload that is laid leaves true of a tree is true after all of them. -/
theorem Stages.along {P : Tree → Prop} (h : Stages root name mode t payloads flags)
    (step : ∀ payload ∈ payloads, ∀ t u reused,
      Laid t u (pathFor root payload.1 name) payload.2 mode reused → P t → P u)
    (ht : P t) : P (treeAfter root name mode t payloads) := by
  induction h with
  | nil => exact ht
  | cons head _ ih =>
    exact ih (fun payload hp => step payload (List.mem_cons_of_mem _ hp))
      (step _ List.mem_cons_self _ _ _ head ht)

theorem Stages.keeps (h : Stages root name mode t payloads flags) {p : Place}
    (hp : t.find? p = some .directory) : (treeAfter root name mode t payloads).find? p = some .directory :=
  h.along (fun _ _ _ _ _ head => head.keeps p) hp

/-- **No other place changes**, but for directories that are made. -/
theorem Stages.others (h : Stages root name mode t payloads flags) {p : Place}
    (hp : ∀ kind ∈ payloads.map Prod.fst,
      ¬ (treeAfter root name mode t payloads).LeadsTo (pathFor root kind name) p) :
    Widened (t.find? p) ((treeAfter root name mode t payloads).find? p) := by
  induction h with
  | nil t => exact .refl _
  | @cons t payload rest reused flags head tail ih =>
    refine (head.others p fun hleads => hp _ List.mem_cons_self ?_).trans
      (ih fun kind hk => hp kind (List.mem_cons_of_mem _ hk))
    exact hleads.mono fun q hq => tail.keeps hq

theorem Stages.stays (h : Stages root name mode t payloads flags) (hn : '/' ∉ name.toList)
    {kind : PayloadKind} (hk : kind ∉ payloads.map Prod.fst) {c : Bytes}
    (hc : t.contentAt (pathFor root kind name) = some c) :
    (treeAfter root name mode t payloads).contentAt (pathFor root kind name) = some c := by
  refine h.along (P := fun t => t.contentAt (pathFor root kind name) = some c) ?_ hc
  intro payload hmem t u reused head hc
  refine head.stays_kind hn ?_ hc
  rintro rfl
  exact hk (List.mem_map_of_mem hmem)

theorem Stages.stays_kept (h : Stages root name .keep t payloads flags) (hn : '/' ∉ name.toList)
    {kind : PayloadKind} {c : Bytes} (hc : t.contentAt (pathFor root kind name) = some c) :
    (treeAfter root name .keep t payloads).contentAt (pathFor root kind name) = some c := by
  refine h.along (P := fun t => t.contentAt (pathFor root kind name) = some c) ?_ hc
  intro payload _ t u reused head hc
  by_cases hk : kind = payload.1
  · have hthere := head.there
    rw [← hk, if_pos rfl, hc, Option.getD_some] at hthere
    exact hthere
  · exact head.stays_kind hn hk hc

/-- **Where files are replaced the last payload of a kind counts.** -/
theorem Stages.overwritten {kind : PayloadKind} {content : Bytes}
    (h : Stages root name .overwrite t (before ++ (kind, content) :: after) flags)
    (hn : '/' ∉ name.toList) (hk : kind ∉ after.map Prod.fst) :
    (treeAfter root name .overwrite t (before ++ (kind, content) :: after)).contentAt
      (pathFor root kind name) = some content := by
  obtain ⟨f, g, -, -, -, hthen⟩ := h.split
  rw [treeAfter_append, treeAfter_cons]
  cases hthen with
  | cons head tail =>
    have hthere := head.there
    rw [if_neg (by decide)] at hthere
    exact tail.stays hn hk hthere

/-- **Where files are kept the first payload of a kind counts**, unless a file was there before it. -/
theorem Stages.kept {kind : PayloadKind} {content : Bytes}
    (h : Stages root name .keep t (before ++ (kind, content) :: after) flags) (hn : '/' ∉ name.toList) :
    (treeAfter root name .keep t (before ++ (kind, content) :: after)).contentAt
      (pathFor root kind name) =
        some (((treeAfter root name .keep t before).contentAt (pathFor root kind name)).getD content) := by
  obtain ⟨f, g, -, -, -, hthen⟩ := h.split
  rw [treeAfter_append, treeAfter_cons]
  cases hthen with
  | cons head tail =>
    have hthere := head.there
    rw [if_pos rfl] at hthere
    exact tail.stays_kept hn hthere

/-- A payload tells that it was kept exactly if files are kept and one was there at that moment. -/
theorem Stages.reused {payload : Payload}
    (h : Stages root name mode t (before ++ payload :: after) flags) :
    ∃ flag, flags[before.length]? = some flag ∧ (flag = true ↔ mode = .keep ∧
      ((treeAfter root name mode t before).contentAt (pathFor root payload.1 name)).isSome = true) := by
  obtain ⟨f, g, rfl, hlength, -, hthen⟩ := h.split
  cases hthen with
  | @cons _ _ _ reused flags head tail =>
    refine ⟨reused, ?_, head.reused_iff⟩
    rw [← hlength, List.getElem?_append_right (Nat.le_refl _), Nat.sub_self]
    rfl

theorem Stages.length_eq (h : Stages root name mode t payloads flags) : flags.length = payloads.length := by
  induction h with
  | nil => rfl
  | cons _ _ ih => exact congrArg (· + 1) ih

end Payloads

/-! ### Below a root that stands -/

section Site

variable {root : String} {site : Site root} {name : String} {mode : StagingMode} {t : Tree}
  {payloads : List Payload} {flags : List Bool}

/-- A payload tends the place of its name only. -/
theorem stagePayload_tended {d : Disk} (h : site.Stands d.tree) (hn : Proper name) (kind : PayloadKind)
    (content : Bytes) :
    Tended site name d.tree (stagePayload d (pathFor root kind name) content mode).1.tree := by
  obtain ⟨there, d₁, hlook, htree⟩ := looked d (pathFor root kind name) mode
  have hmade : Tended site name d₁.tree (d₁.makeParents (pathFor root kind name)).1.tree :=
    Disk.makeParents_tended (htree ▸ h) hn
  rw [htree] at hmade
  unfold stagePayload
  rw [hlook]
  dsimp only
  split
  · show Tended site name d.tree d₁.tree
    rw [htree]
    exact .refl h
  · split
    · rename_i d₂ e hd
      rw [hd] at hmade
      exact hmade
    · rename_i d₂ hd
      rw [hd] at hmade
      have hwritten : Tended site name d₂.tree (d₂.write (pathFor root kind name) content).1.tree :=
        Disk.write_tended hmade.stands hn content
      split
      · rename_i d₃ e hw
        rw [hw] at hwritten
        exact hmade.trans hwritten
      · rename_i d₃ hw
        rw [hw] at hwritten
        exact hmade.trans hwritten

/-- Making the directories above a payload leaves the places of all payloads alone. -/
theorem find?_place_makeParents {d : Disk} (h : site.Stands d.tree) (hn : Proper name)
    (kind other : PayloadKind) :
    (d.makeParents (pathFor root kind name)).1.tree.find? (site.place other name) =
      d.tree.find? (site.place other name) := by
  -- What is made is on the ways to the folders, whichever name is tended.
  have hpave : Tended site (fileName name) d.tree (d.tree.pave site.top (site.way kind)).1 :=
    tended_pave h h.find?_top ⟨kind, List.prefix_refl _⟩
  have hne : name ≠ fileName name := fun he => by
    have hlength := length_fileName name
    rw [← he] at hlength
    omega
  rw [Disk.makeParents_eq h hn]
  split
  · rfl
  · split
    · rfl
    · exact hpave.others other name hne

/-- Staging a payload makes no directory at the place of one. -/
theorem directory_of_stagePayload {d : Disk} (h : site.Stands d.tree) (hn : Proper name)
    (kind other : PayloadKind) (content : Bytes)
    (hd : (stagePayload d (pathFor root kind name) content mode).1.tree.find? (site.place other name) =
      some .directory) : d.tree.find? (site.place other name) = some .directory := by
  obtain ⟨there, d₁, hlook, htree⟩ := looked d (pathFor root kind name) mode
  have hmade := find?_place_makeParents (htree ▸ h) hn kind other
  rw [htree] at hmade
  rw [← hmade]
  unfold stagePayload at hd
  rw [hlook] at hd
  dsimp only at hd
  split at hd
  · rw [hmade, ← htree]
    exact hd
  · split at hd
    · rename_i d₂ e hmake
      rw [hmake]
      exact hd
    · rename_i d₂ hmake
      rw [hmake]
      rcases d₂.write_cases (pathFor root kind name) content with ⟨e, hw⟩ | ⟨p, u, hw, hwrote⟩ |
        ⟨p, u, e, n, hw, -, hwrote⟩ <;> rw [hw] at hd
      · exact hd
      all_goals
        by_cases hp : site.place other name = p
        · rw [hp] at hd
          exact absurd (hwrote.there.symm.trans hd) nofun
        · exact (hwrote.others _ hp).symm.trans hd

/-- **Where no directory is at the paths of payloads**, none is there when they are staged. -/
theorem free_of_stands (h : site.Stands t) (hn : Proper name)
    (hfree : ∀ kind ∈ payloads.map Prod.fst, t.entryAt (pathFor root kind name) ≠ some .directory) :
    Free root name mode t payloads := by
  induction payloads generalizing t with
  | nil => trivial
  | cons payload rest ih =>
    have hstands : site.Stands (afterPayload root name mode t payload) :=
      (stagePayload_tended (d := .sound t) h hn payload.1 payload.2).stands
    refine ⟨hfree _ List.mem_cons_self, ih hstands fun kind hk hd => ?_⟩
    obtain ⟨hnames, hshort, hplace⟩ := (hstands.entryAt_eq_some hn).mp hd
    refine hfree kind (List.mem_cons_of_mem _ hk) ((h.entryAt_eq_some hn).mpr ⟨hnames, hshort, ?_⟩)
    exact directory_of_stagePayload (d := .sound t) h hn payload.1 kind payload.2 hplace

theorem stands_treeAfter (h : site.Stands t) (hn : Proper name) (payloads : List Payload) :
    site.Stands (treeAfter root name mode t payloads) := by
  induction payloads generalizing t with
  | nil => exact h
  | cons payload rest ih => exact ih (stagePayload_tended (d := .sound t) h hn payload.1 payload.2).stands

theorem eq_place_of_leadsTo (h : site.Stands t) (hn : Proper name) {kind : PayloadKind} {p : Place}
    (hp : t.LeadsTo (pathFor root kind name) p) : p = site.place kind name := by
  obtain ⟨names, hnames, hloc⟩ := hp
  rw [Disk.eq_of_namesOf hnames] at hloc
  exact ((h.locate_eq_ok hn).mp hloc).1

/-- Until a payload of a kind is staged its file is as it was. -/
theorem Stages.untouched (h : Stages root name mode t payloads flags) (hs : site.Stands t) (hn : Proper name)
    {kind : PayloadKind} (hk : kind ∉ payloads.map Prod.fst) :
    (treeAfter root name mode t payloads).contentAt (pathFor root kind name) =
      t.contentAt (pathFor root kind name) := by
  have hstands : site.Stands (treeAfter root name mode t payloads) := stands_treeAfter hs hn payloads
  have hplace : Widened (t.find? (site.place kind name))
      ((treeAfter root name mode t payloads).find? (site.place kind name)) := by
    refine h.others fun other ho hleads => hk ?_
    have hp := eq_place_of_leadsTo hstands hn hleads
    rw [(site.place_injective hp).1]
    exact ho
  refine Option.ext fun c => ?_
  rw [Tree.contentAt_eq_some, Tree.contentAt_eq_some, hstands.entryAt_eq_some hn, hs.entryAt_eq_some hn]
  exact and_congr_right fun _ => and_congr_right fun _ => ⟨hplace.file, hplace.keeps⟩

end Site

/-! ### What staging comes to -/

/-- What staging that succeeds comes to by its mode. -/
structure StagedByMode (root name : String) (mode : StagingMode) (t : Tree) (payloads : List Payload)
    (staged : List StagedFile) : Prop where
  /-- There is a file for each payload, at the path of its kind. -/
  files : staged.map (fun f => (f.kind, f.path)) = payloads.map fun p => (p.1, pathFor root p.1 name)
  /-- It is reused exactly if files are kept and one was there just before the payload. -/
  reused : ∀ before kind content after, payloads = before ++ (kind, content) :: after →
    ∃ f, staged[before.length]? = some f ∧ (f.reused = true ↔ mode = .keep ∧
      ((treeAfter root name mode t before).contentAt (pathFor root kind name)).isSome = true)
  /-- Where files are replaced, the last payload of a kind is at its path. -/
  overwritten : mode = .overwrite → ∀ before kind content after,
    payloads = before ++ (kind, content) :: after → kind ∉ after.map Prod.fst →
    (treeAfter root name mode t payloads).contentAt (pathFor root kind name) = some content
  /-- Where files are kept, what was at the path before the first payload of a kind is there, or else
  that payload. -/
  kept : mode = .keep → ∀ before kind content after,
    payloads = before ++ (kind, content) :: after → kind ∉ before.map Prod.fst →
    (treeAfter root name mode t payloads).contentAt (pathFor root kind name) =
      some (((treeAfter root name mode t before).contentAt (pathFor root kind name)).getD content)
  /-- No other place changes, but for directories that are made where nothing was. -/
  others : ∀ p, (∀ kind ∈ payloads.map Prod.fst,
      ¬ (treeAfter root name mode t payloads).LeadsTo (pathFor root kind name) p) →
    Widened (t.find? p) ((treeAfter root name mode t payloads).find? p)
  /-- What was there before the first payload of a kind was there before all of them, if the root, as far
  as its last `..`, leads to a directory. -/
  untouched : ∀ site : Site root, site.Stands t → ∀ before kind after, payloads = before ++ after →
    kind ∉ before.map Prod.fst →
    (treeAfter root name mode t before).contentAt (pathFor root kind name) =
      t.contentAt (pathFor root kind name)

theorem map_stagedFiles (root name : String) {payloads : List Payload} {flags : List Bool}
    (h : flags.length = payloads.length) :
    (stagedFiles root name payloads flags).map (fun f => (f.kind, f.path)) =
      payloads.map fun p => (p.1, pathFor root p.1 name) := by
  induction payloads generalizing flags with
  | nil => rfl
  | cons payload rest ih =>
    cases flags with
    | nil => cases h
    | cons flag flags => exact congrArg _ (ih (Nat.succ.inj h))

/-- Payloads that are laid one after another are staged by their mode. -/
theorem Stages.byMode {root name : String} {mode : StagingMode} {t : Tree} {payloads : List Payload}
    {flags : List Bool} (h : Stages root name mode t payloads flags) (hn : Proper name) :
    StagedByMode root name mode t payloads (stagedFiles root name payloads flags) where
  files := map_stagedFiles root name h.length_eq
  reused before kind content after hp := by
    subst hp
    obtain ⟨flag, hflag, hiff⟩ := h.reused
    refine ⟨⟨kind, pathFor root kind name, flag⟩, ?_, hiff⟩
    simp [stagedFiles, List.getElem?_zipWith, hflag]
  overwritten hm before kind content after hp hk := by
    subst hm hp
    exact h.overwritten hn.slash hk
  kept hm before kind content after hp _ := by
    subst hm hp
    exact h.kept hn.slash
  others p hp := h.others hp
  untouched site hs before kind after hp hk := by
    subst hp
    obtain ⟨f, g, -, -, hfirst, -⟩ := h.split
    exact hfirst.untouched hs hn hk

end RunDispatch.Staging
