/-
# Staging that fails

Staging that fails removes the payloads that it had staged by then, those included that were there before
and reused. It changes no other file and makes no new one, unless the write at which it failed had already
opened its file: that file is guarded only once it is written. The directories that were made stay.

What is at a place after each payload is told by what was there before (`Progress`), so that after the
removals every place is as it was, has a directory where nothing was, or is the emptied place of a payload
(`Spared`).

Key definitions: `Tree.LeadsTo`, `Widens`, `isCut`, `Attempt`, `Halted`, `halt?`, `Reached`, `Progress`,
`Clear`, `Spared`, `Abandoned`.
Key theorems: `Disk.makeParents_widens`, `Disk.write_cases`, `attempt`, `Progress.next`, `find?_release`,
`Reached.spared`, `stage_failed`.
-/
import RunDispatch.Proofs.Staging.Tending

namespace RunDispatch.Staging

open RunDispatch.Staging.Tree (namesOf)

/-! ### Places to which paths lead -/

namespace Tree

/-- Whether a path leads to a place. -/
def LeadsTo (t : Tree) (path : String) (p : Place) : Prop :=
  ∃ names, namesOf path = .ok names ∧ t.locate names = .ok p

theorem entryAt_of_leadsTo {t : Tree} {path : String} {p : Place} (h : t.LeadsTo path p) :
    t.entryAt path = t.find? p := by
  obtain ⟨names, hn, hp⟩ := h
  cases he : t.find? p with
  | some e => exact entryAt_eq_some.mpr ⟨names, p, hn, hp, he⟩
  | none =>
    refine Option.eq_none_iff_forall_ne_some.mpr fun e hs => ?_
    obtain ⟨names', p', hn', hp', he'⟩ := entryAt_eq_some.mp hs
    rw [hn] at hn'
    cases hn'
    rw [hp] at hp'
    cases hp'
    rw [he] at he'
    cases he'

theorem leadsTo_of_entryAt {t : Tree} {path : String} {e : Entry} (h : t.entryAt path = some e) :
    ∃ p, t.LeadsTo path p ∧ t.find? p = some e := by
  obtain ⟨names, p, hn, hp, he⟩ := entryAt_eq_some.mp h
  exact ⟨p, ⟨names, hn, hp⟩, he⟩

theorem LeadsTo.mono {t u : Tree} {path : String} {p : Place} (h : t.LeadsTo path p)
    (hk : ∀ q, t.find? q = some .directory → u.find? q = some .directory) : u.LeadsTo path p := by
  obtain ⟨names, hn, hp⟩ := h
  refine ⟨names, hn, ?_⟩
  unfold locate at hp ⊢
  split at hp
  · exact hp
  · obtain ⟨dir, hdir, hp⟩ := ok_of_bind hp
    rw [walk_mono hk hdir]
    exact hp

theorem leadsTo_congr {t u : Tree} (h : ∀ q, u.find? q = some .directory ↔ t.find? q = some .directory)
    (path : String) (p : Place) : u.LeadsTo path p ↔ t.LeadsTo path p := by
  unfold LeadsTo
  exact exists_congr fun names => and_congr_right fun _ => locate_congr h names p

end Tree

/-! ### Directories that are made -/

/-- Whether directories were added, if anything was done. -/
def Widens (t u : Tree) : Prop := ∀ p, Widened (t.find? p) (u.find? p)

theorem Widens.refl (t : Tree) : Widens t t := fun p => .refl (t.find? p)

theorem Widens.trans {t u v : Tree} (h : Widens t u) (h' : Widens u v) : Widens t v := fun p =>
  (h p).trans (h' p)

theorem Widened.keeps {a b : Option Entry} {e : Entry} (h : Widened a b) (ha : a = some e) : b = some e := by
  rcases h with rfl | ⟨rfl, -⟩
  · exact ha
  · cases ha

theorem Widened.file {a b : Option Entry} {c : Bytes} (h : Widened a b) (hb : b = some (.file c)) :
    a = some (.file c) := by
  rcases h with rfl | ⟨-, rfl⟩
  · exact hb
  · cases hb

theorem Widens.keeps {t u : Tree} (h : Widens t u) (p : Place) (hp : t.find? p = some .directory) :
    u.find? p = some .directory := (h p).keeps hp

namespace Tree

theorem makeDirectory_widens {t u : Tree} {names : List String} (h : t.makeDirectory names = .ok u) :
    Widens t u := by
  obtain ⟨q, -, h⟩ := ok_of_bind h
  by_cases hq : (t.find? q).isSome = true
  · rw [if_pos hq] at h
    cases h
  · rw [if_neg hq] at h
    cases h
    intro p
    rw [find?_put]
    by_cases hp : p = q ∧ p ≠ []
    · rw [if_pos hp, hp.1]
      exact .inr ⟨Option.not_isSome_iff_eq_none.mp hq, rfl⟩
    · rw [if_neg hp]
      exact .refl _

/-- Making directories, wherever it stopped, adds directories. -/
theorem makeDirectoriesFrom_widens (t : Tree) (names : List String) (above : Nat) :
    Widens t (t.makeDirectoriesFrom names above).1 := by
  induction above generalizing names with
  | zero => exact .refl t
  | succ above ih =>
    have hup := ih names.dropLast
    unfold makeDirectoriesFrom
    split
    · rename_i u hu
      exact makeDirectory_widens hu
    · split
      · rename_i u e hu
        rwa [hu] at hup
      · rename_i u hu
        rw [hu] at hup
        split
        · rename_i v hv
          exact hup.trans (makeDirectory_widens hv)
        · exact hup
    · exact .refl t

end Tree

/-! ### The operations of staging -/

namespace Disk

/-- Whether the next operation is cut if it writes a file: it fails after it opened the file. -/
def cuts (d : Disk) (path : String) : Bool :=
  (d.fault.any fun f => f.written.isSome) && (namesOf path >>= d.tree.openFile).isOk

/-- Making the directories above a path, wherever it stopped, adds directories. -/
theorem makeParents_widens (d : Disk) (path : String) :
    ∃ t failure, d.makeParents path = (d.after t, failure) ∧ Widens d.tree t := by
  unfold makeParents
  rw [turn_eq]
  cases d.fault with
  | some f => exact ⟨d.tree, _, rfl, .refl _⟩
  | none =>
    dsimp only
    split
    · exact ⟨d.tree, _, rfl, .refl _⟩
    · exact ⟨_, _, rfl, Tree.makeDirectoriesFrom_widens d.tree _ _⟩

theorem leadsTo_of_openFile {t u : Tree} {path : String} {p : Place}
    (h : (namesOf path >>= t.openFile) = .ok (p, u)) :
    t.LeadsTo path p ∧ t.find? p ≠ some .directory ∧ u = t.put p (.file []) := by
  obtain ⟨names, hn, h⟩ := ok_of_bind h
  obtain ⟨hp, rfl⟩ := Tree.eq_of_openFile h
  refine ⟨⟨names, hn, hp⟩, fun hd => ?_, rfl⟩
  simp only [Tree.openFile, hp, bind, Except.bind, hd] at h
  cases h

/-- What became of a tree by writing a file at a place. -/
structure Wrote (t u : Tree) (path : String) (p : Place) (content : Bytes) : Prop where
  leads : t.LeadsTo path p
  file : t.find? p ≠ some .directory
  there : u.find? p = some (.file content)
  others : ∀ q, q ≠ p → u.find? q = t.find? q

theorem Wrote.keeps {t u : Tree} {path : String} {p : Place} {content : Bytes}
    (h : Wrote t u path p content) (q : Place) (hq : t.find? q = some .directory) :
    u.find? q = some .directory := by
  have hne : q ≠ p := by
    rintro rfl
    exact h.file hq
  rw [h.others q hne, hq]

theorem wrote_of_openFile {t u : Tree} {path : String} {p : Place}
    (h : (namesOf path >>= t.openFile) = .ok (p, u)) (content : Bytes) :
    Wrote t (u.put p (.file content)) path p content := by
  obtain ⟨hleads, hfile, rfl⟩ := leadsTo_of_openFile h
  have hp : p ≠ [] := by
    rintro rfl
    exact hfile t.find?_top
  refine ⟨hleads, hfile, ?_, fun q hq => ?_⟩
  · rw [Tree.find?_put, if_pos ⟨rfl, hp⟩]
  · rw [Tree.find?_put, if_neg fun h => hq h.1, Tree.find?_put, if_neg fun h => hq h.1]

/-- **What a write does.** It fails and changes nothing, it puts the content where the path leads, or it
fails after it opened the file and leaves a part of the content there. -/
theorem write_cases (d : Disk) (path : String) (content : Bytes) :
    (∃ e, d.write path content = (d.after d.tree, some e)) ∨
    (∃ p t, d.write path content = (d.after t, none) ∧ Wrote d.tree t path p content) ∨
    ∃ p t e n, d.write path content = (d.after t, some e) ∧ d.cuts path = true ∧
      Wrote d.tree t path p (content.take n) := by
  rw [write_eq]
  cases hf : d.fault with
  | none =>
    dsimp only
    cases ho : namesOf path >>= d.tree.openFile with
    | error e => exact .inl ⟨e, rfl⟩
    | ok opened => exact .inr (.inl ⟨_, _, rfl, wrote_of_openFile ho content⟩)
  | some f =>
    obtain ⟨error, _ | n⟩ := f
    · exact .inl ⟨error, rfl⟩
    · dsimp only
      cases ho : namesOf path >>= d.tree.openFile with
      | error e => exact .inl ⟨e, rfl⟩
      | ok opened =>
        have hcut : d.cuts path = true := by
          rw [cuts, hf, ho]
          rfl
        exact .inr (.inr ⟨_, _, error, n, rfl, hcut, wrote_of_openFile ho _⟩)

end Disk

/-- Whether the staging of a payload fails because its write is cut. -/
def isCut (d : Disk) (path : String) (mode : StagingMode) : Bool :=
  let (there, d) := if mode = .keep then d.holds path else (false, d)
  !there &&
    match d.makeParents path with
    | (_, some _) => false
    | (d, none) => d.cuts path

/-- What is at a place after a payload was to be staged at a path: what was there, a directory where nothing
was, or the file at the end of the path. -/
def Touched (t u : Tree) (path : String) (p : Place) : Prop :=
  Widened (t.find? p) (u.find? p) ∨ u.LeadsTo path p ∧ ∃ c, u.find? p = some (.file c)

/-- What became of a disk when a payload was to be staged at a path. -/
structure Attempt (d d' : Disk) (path : String) (mode : StagingMode)
    (result : Except StagingError Bool) : Prop where
  keeps : ∀ p, d.tree.find? p = some .directory → d'.tree.find? p = some .directory
  touched : ∀ p, Touched d.tree d'.tree path p
  /-- If it failed, nothing was written, unless the write was cut. -/
  failed : isCut d path mode = false → (∃ e, result = .error e) → Widens d.tree d'.tree

theorem attempt_of_widens {d d' : Disk} {path : String} {mode : StagingMode}
    {result : Except StagingError Bool} (h : Widens d.tree d'.tree) : Attempt d d' path mode result :=
  ⟨h.keeps, fun p => .inl (h p), fun _ _ => h⟩

theorem touched_of_wrote {t u v : Tree} {path : String} {q : Place} {content : Bytes} (h : Widens t u)
    (hw : Disk.Wrote u v path q content) (p : Place) : Touched t v path p := by
  by_cases hp : p = q
  · subst hp
    exact .inr ⟨hw.leads.mono hw.keeps, content, hw.there⟩
  · refine .inl ?_
    rw [hw.others p hp]
    exact h p

theorem looked (d : Disk) (path : String) (mode : StagingMode) :
    ∃ there d₁, (if mode = .keep then d.holds path else (false, d)) = (there, d₁) ∧ d₁.tree = d.tree := by
  by_cases hm : mode = .keep
  · rw [if_pos hm, Disk.holds_eq]
    exact ⟨_, _, rfl, rfl⟩
  · rw [if_neg hm]
    exact ⟨_, _, rfl, rfl⟩

/-- **One payload.** -/
theorem attempt (d : Disk) (path : String) (content : Bytes) (mode : StagingMode) :
    Attempt d (stagePayload d path content mode).1 path mode (stagePayload d path content mode).2 := by
  obtain ⟨there, d₁, hlook, htree⟩ := looked d path mode
  unfold stagePayload
  rw [hlook]
  dsimp only
  by_cases hthere : there = true
  · rw [if_pos hthere]
    exact attempt_of_widens (htree ▸ .refl d.tree)
  · rw [if_neg hthere]
    obtain ⟨t, failure, hparents, hwiden⟩ := d₁.makeParents_widens path
    rw [htree] at hwiden
    rw [hparents]
    cases failure with
    | some e => exact attempt_of_widens hwiden
    | none =>
      dsimp only
      rcases (d₁.after t).write_cases path content with ⟨e, hw⟩ | ⟨p, u, hw, hwrote⟩ |
        ⟨p, u, e, n, hw, hcut, hwrote⟩
      · rw [hw]
        exact attempt_of_widens hwiden
      · rw [hw]
        refine ⟨fun q hq => hwrote.keeps q (hwiden.keeps q hq), touched_of_wrote hwiden hwrote,
          fun _ he => ?_⟩
        obtain ⟨e, he⟩ := he
        cases he
      · rw [hw]
        refine ⟨fun q hq => hwrote.keeps q (hwiden.keeps q hq), touched_of_wrote hwiden hwrote,
          fun hnot _ => ?_⟩
        unfold isCut at hnot
        rw [hlook] at hnot
        dsimp only at hnot
        rw [hparents, Bool.eq_false_iff.mpr hthere, Bool.not_false, Bool.true_and] at hnot
        dsimp only at hnot
        rw [hcut] at hnot
        cases hnot

/-! ### Staging up to where it halts -/

/-- Where staging halted: at which payload, with which files staged, the disk before that payload and after
it, with none of the files removed, and why. -/
structure Halted where
  kind : PayloadKind
  staged : List StagedFile
  reached : Disk
  left : Disk
  error : StagingError
  deriving DecidableEq

/-- Where the staging of payloads halts, after those that are staged already, if it does. -/
def halt? (root name : String) (mode : StagingMode) (d : Disk) (staged : List StagedFile) :
    List Payload → Option Halted
  | [] => none
  | (kind, content) :: rest =>
    let path := pathFor root kind name
    match stagePayload d path content mode with
    | (d', .ok reused) => halt? root name mode d' (staged ++ [⟨kind, path, reused⟩]) rest
    | (d', .error e) => some ⟨kind, staged, d, d', e⟩

/-- Whether the write failed, at which staging halted, after it had opened its file. -/
def Halted.isCut (x : Halted) (root name : String) (mode : StagingMode) : Bool :=
  Staging.isCut x.reached (pathFor root x.kind name) mode

section Halting

variable {root name : String} {mode : StagingMode}

/-- Staging fails where it halts, and removes what was staged by then. -/
theorem stageAfter_eq (payloads : List Payload) (d : Disk) (staged : List StagedFile) :
    ∀ x, halt? root name mode d staged payloads = some x →
      stageAfter root name mode d staged payloads = ((release x.left x.staged).1, .error x.error) := by
  induction payloads generalizing d staged with
  | nil => nofun
  | cons payload rest ih =>
    obtain ⟨kind, content⟩ := payload
    intro x hx
    unfold halt? at hx
    unfold stageAfter
    dsimp only at hx ⊢
    split
    · rename_i d' reused hs
      rw [hs] at hx
      exact ih d' _ x hx
    · rename_i d' e hs
      rw [hs] at hx
      cases hx
      rfl

/-- Staging that fails has halted. -/
theorem halts_of_failed (payloads : List Payload) (d : Disk) (staged : List StagedFile) {d' : Disk}
    {e : StagingError} (h : stageAfter root name mode d staged payloads = (d', .error e)) :
    ∃ x, halt? root name mode d staged payloads = some x := by
  induction payloads generalizing d staged with
  | nil => cases h
  | cons payload rest ih =>
    obtain ⟨kind, content⟩ := payload
    unfold stageAfter at h
    unfold halt?
    dsimp only at h ⊢
    split
    · rename_i d₁ reused hs
      rw [hs] at h
      exact ih d₁ _ h
    · exact ⟨_, rfl⟩

/-- The files that were staged are those of the payloads before the one at which staging halted. -/
theorem staged_of_halt (payloads : List Payload) {d : Disk} {staged : List StagedFile} {x : Halted}
    (hx : halt? root name mode d staged payloads = some x) :
    ∃ before content rest files, payloads = before ++ (x.kind, content) :: rest ∧
      x.staged = staged ++ files ∧ files.map (·.kind) = before.map Prod.fst ∧
      ∀ f ∈ files, f.path = pathFor root f.kind name := by
  induction payloads generalizing d staged with
  | nil => cases hx
  | cons payload rest ih =>
    obtain ⟨kind, content⟩ := payload
    unfold halt? at hx
    dsimp only at hx
    split at hx
    · rename_i d' reused hs
      obtain ⟨before, content', rest', files, rfl, hstaged, hkinds, hpaths⟩ := ih hx
      refine ⟨(kind, content) :: before, content', rest', ⟨kind, pathFor root kind name, reused⟩ :: files,
        rfl, ?_, ?_, ?_⟩
      · rw [hstaged, List.append_assoc, List.singleton_append]
      · rw [List.map_cons, List.map_cons, hkinds]
      · exact List.forall_mem_cons.mpr ⟨rfl, hpaths⟩
    · cases hx
      exact ⟨[], content, rest, [], rfl, (List.append_nil _).symm, rfl, nofun⟩

/-- Whether a place is as it was, has a directory where nothing was, or has a file to which the path of a
staged one leads. -/
def Reached (t u : Tree) (staged : List StagedFile) (p : Place) : Prop :=
  Widened (t.find? p) (u.find? p) ∨ ∃ f ∈ staged, u.LeadsTo f.path p ∧ ∃ c, u.find? p = some (.file c)

/-- What is at each place when files have been staged. -/
structure Progress (t : Tree) (d : Disk) (staged : List StagedFile) : Prop where
  keeps : ∀ p, t.find? p = some .directory → d.tree.find? p = some .directory
  places : ∀ p, Reached t d.tree staged p

theorem Progress.refl (d : Disk) : Progress d.tree d [] :=
  ⟨fun _ hp => hp, fun _ => .inl (.refl _)⟩

/-- A place that a payload has not touched is as it was before it. -/
theorem Progress.step {t : Tree} {d d' : Disk} {staged : List StagedFile} (h : Progress t d staged)
    (hk : ∀ p, d.tree.find? p = some .directory → d'.tree.find? p = some .directory) {p : Place}
    (hp : Widened (d.tree.find? p) (d'.tree.find? p)) : Reached t d'.tree staged p := by
  rcases h.places p with hw | ⟨f, hf, hleads, c, hc⟩
  · exact .inl (hw.trans hp)
  · exact .inr ⟨f, hf, hleads.mono hk, c, hp.keeps hc⟩

/-- **One more payload.** -/
theorem Progress.next {t : Tree} {d d' : Disk} {staged : List StagedFile} (h : Progress t d staged)
    {path : String} {result : Except StagingError Bool} (ha : Attempt d d' path mode result)
    (kind : PayloadKind) (reused : Bool) : Progress t d' (staged ++ [⟨kind, path, reused⟩]) := by
  refine ⟨fun p hp => ha.keeps p (h.keeps p hp), fun p => ?_⟩
  rcases ha.touched p with hp | ⟨hleads, hc⟩
  · refine (h.step ha.keeps hp).imp_right fun ⟨f, hf, hrest⟩ => ?_
    exact ⟨f, List.mem_append_left _ hf, hrest⟩
  · exact .inr ⟨_, List.mem_append_right _ List.mem_cons_self, hleads, hc⟩

/-- What is at each place when staging halted. -/
structure Halting (root name : String) (mode : StagingMode) (d : Disk) (x : Halted) : Prop where
  keeps : ∀ p, d.tree.find? p = some .directory → x.left.tree.find? p = some .directory
  /-- Wherever the path of the payload does not lead at which it halted. -/
  elsewhere : ∀ p, ¬ x.left.tree.LeadsTo (pathFor root x.kind name) p →
    Reached d.tree x.left.tree x.staged p
  /-- And there too, unless its write failed after it had opened its file. -/
  everywhere : x.isCut root name mode = false → ∀ p, Reached d.tree x.left.tree x.staged p

/-- **Every payload up to where staging halts.** -/
theorem halting_of_progress (payloads : List Payload) {d₀ d : Disk} {staged : List StagedFile}
    {x : Halted} (h : Progress d₀.tree d staged)
    (hx : halt? root name mode d staged payloads = some x) : Halting root name mode d₀ x := by
  induction payloads generalizing d staged with
  | nil => cases hx
  | cons payload rest ih =>
    obtain ⟨kind, content⟩ := payload
    have ha := attempt d (pathFor root kind name) content mode
    unfold halt? at hx
    dsimp only at hx
    split at hx
    · rename_i d' reused hs
      rw [hs] at ha
      exact ih (h.next ha kind reused) hx
    · rename_i d' e hs
      rw [hs] at ha
      cases hx
      refine ⟨fun p hp => ha.keeps p (h.keeps p hp), fun p hp => ?_, fun hc p => ?_⟩
      · rcases ha.touched p with hw | ⟨hleads, -⟩
        · exact h.step ha.keeps hw
        · exact absurd hleads hp
      · exact h.step ha.keeps (ha.failed hc ⟨e, rfl⟩ p)

end Halting

/-! ### The removals -/

/-- Whether none of the next operations meets a fault. -/
def Disk.Clear (d : Disk) (count : Nat) : Prop := ∀ f, some f ∉ d.faults.take count

theorem Disk.Clear.fault {d : Disk} {count : Nat} (h : d.Clear (count + 1)) : d.fault = none := by
  obtain ⟨t, faults⟩ := d
  cases faults with
  | nil => rfl
  | cons g rest =>
    cases g with
    | none => rfl
    | some f => exact absurd List.mem_cons_self (h f)

theorem Disk.Clear.after {d : Disk} {count : Nat} (h : d.Clear (count + 1)) (t : Tree) :
    (d.after t).Clear count := by
  intro f hf
  refine h f ?_
  obtain ⟨u, faults⟩ := d
  cases faults with
  | nil => exact absurd (List.mem_of_mem_take hf) List.not_mem_nil
  | cons g rest => exact List.mem_cons_of_mem g hf

theorem Disk.remove_of_clear {d : Disk} (h : d.fault = none) (path : String) :
    (d.remove path).1 = d.after ((sound d.tree).remove path).1.tree := by
  have hsound : (sound d.tree).turn = (none, sound d.tree) := rfl
  have hafter : (d.after d.tree).tree = d.tree := rfl
  have htree : (sound d.tree).tree = d.tree := rfl
  unfold remove
  rw [turn_eq, h, hsound]
  dsimp only
  rw [hafter, htree]
  cases namesOf path >>= d.tree.remove with
  | error e => rfl
  | ok t => rfl

theorem Disk.remove_sound (t : Tree) (path : String) :
    ((sound t).remove path).1 = sound ((sound t).remove path).1.tree := remove_of_clear rfl path

theorem release_of_clear {d : Disk} (files : List StagedFile) (h : d.Clear files.length) :
    (release d files).1.tree = (release (.sound d.tree) files).1.tree := by
  induction files generalizing d with
  | nil => rfl
  | cons f rest ih =>
    rw [List.length_cons] at h
    rw [release_cons, release_cons, Disk.remove_of_clear h.fault, ih (h.after _), Disk.remove_sound d.tree]
    rfl

theorem find?_release_of_faultless {d : Disk} (hd : d.faults = []) (files : List StagedFile) :
    (∀ p, (release d files).1.tree.find? p = some .directory ↔ d.tree.find? p = some .directory) ∧
    ∀ p, (release d files).1.tree.find? p = d.tree.find? p ∨
      ((release d files).1.tree.find? p = none ∧ ∃ f ∈ files, d.tree.LeadsTo f.path p) := by
  induction files generalizing d with
  | nil => exact ⟨fun _ => Iff.rfl, fun _ => .inl rfl⟩
  | cons f rest ih =>
    rw [release_cons]
    rcases Disk.remove_cases hd f.path with ⟨hr, -⟩ | ⟨q, c, hloc, hc, ⟨names, hn⟩, hr⟩
    · rw [hr]
      obtain ⟨hdirs, hplaces⟩ := ih hd
      refine ⟨hdirs, fun p => (hplaces p).imp_right fun ⟨hnone, g, hg, hleads⟩ => ?_⟩
      exact ⟨hnone, g, List.mem_cons_of_mem f hg, hleads⟩
    · rw [hr]
      have herased := Tree.find?_erase_directory hc
      obtain ⟨hdirs, hplaces⟩ := ih (d := { d with tree := d.tree.erase q }) hd
      refine ⟨fun p => (hdirs p).trans (herased p), fun p => ?_⟩
      rcases hplaces p with hsame | ⟨hnone, g, hg, hleads⟩
      · rw [hsame]
        dsimp only
        rw [Tree.find?_erase]
        by_cases hp : p = q ∧ p ≠ []
        · rw [if_pos hp]
          have hleads : d.tree.LeadsTo f.path q := ⟨names, hn, by rw [Disk.eq_of_namesOf hn]; exact hloc⟩
          exact .inr ⟨rfl, f, List.mem_cons_self, hp.1 ▸ hleads⟩
        · rw [if_neg hp]
          exact .inl rfl
      · exact .inr ⟨hnone, g, List.mem_cons_of_mem f hg, (Tree.leadsTo_congr herased g.path p).mp hleads⟩

/-- **What removals that meet no fault leave at a place**: what was there, or nothing where the path of a
removed file leads. Directories stay as they are. -/
theorem find?_release {d : Disk} {files : List StagedFile} (hd : d.Clear files.length) :
    (∀ p, (release d files).1.tree.find? p = some .directory ↔ d.tree.find? p = some .directory) ∧
    ∀ p, (release d files).1.tree.find? p = d.tree.find? p ∨
      ((release d files).1.tree.find? p = none ∧ ∃ f ∈ files, d.tree.LeadsTo f.path p) := by
  rw [release_of_clear files hd]
  exact find?_release_of_faultless (d := .sound d.tree) rfl files

theorem file_not_left {d : Disk} {files : List StagedFile} (hd : d.Clear files.length) {f : StagedFile}
    (hf : f ∈ files) (c : Bytes) : (release d files).1.tree.entryAt f.path ≠ some (.file c) := by
  rw [release_of_clear files hd]
  intro hc
  have hsound : (Disk.sound d.tree).faults = [] := rfl
  have hbefore := (release_shrinks hsound files files).entries f hf _ hc
  rw [entryAt_release hsound hf (by rw [hbefore]; nofun)] at hc
  cases hc

/-! ### What is left -/

/-- Whether a place is as it was, has a directory where nothing was, or has lost a file to whose place the
path of a removed payload leads. -/
def Spared (t u : Tree) (removed : List StagedFile) (p : Place) : Prop :=
  Widened (t.find? p) (u.find? p) ∨ (u.find? p = none ∧ ∃ f ∈ removed, u.LeadsTo f.path p)

theorem Spared.file {t u : Tree} {removed : List StagedFile} {p : Place} {c : Bytes}
    (h : Spared t u removed p) (hc : u.find? p = some (.file c)) : t.find? p = some (.file c) := by
  rcases h with hw | ⟨hnone, -⟩
  · exact hw.file hc
  · rw [hnone] at hc
    cases hc

/-- A place that staging has reached is spared once what was staged is removed. -/
theorem Reached.spared {t : Tree} {d : Disk} {files : List StagedFile} (hd : d.Clear files.length)
    {p : Place} (h : Reached t d.tree files p) : Spared t (release d files).1.tree files p := by
  obtain ⟨hdirs, hplaces⟩ := find?_release hd
  have hleads : ∀ path, (release d files).1.tree.LeadsTo path p ↔ d.tree.LeadsTo path p := fun path =>
    Tree.leadsTo_congr hdirs path p
  rcases hplaces p with hsame | ⟨hnone, f, hf, hl⟩
  · rcases h with hw | ⟨f, hf, hl, c, hc⟩
    · refine .inl ?_
      rw [hsame]
      exact hw
    · have hentry := Tree.entryAt_of_leadsTo ((hleads f.path).mpr hl)
      rw [hsame, hc] at hentry
      exact absurd hentry (file_not_left hd hf c)
  · exact .inr ⟨hnone, f, hf, (hleads f.path).mpr hl⟩

/-- What is left of staging that halted. -/
structure Abandoned (root name : String) (mode : StagingMode) (payloads : List Payload) (d : Disk)
    (x : Halted) (d' : Disk) : Prop where
  /-- The files that were staged are those of the payloads before the one at which staging halted. -/
  own : ∃ before content rest, payloads = before ++ (x.kind, content) :: rest ∧
    x.staged.map (·.kind) = before.map Prod.fst ∧ ∀ f ∈ x.staged, f.path = pathFor root f.kind name
  /-- No file is left at the path of a payload that was staged. -/
  gone : ∀ f ∈ x.staged, ∀ c, d'.tree.entryAt f.path ≠ some (.file c)
  /-- Directories stay. -/
  keeps : ∀ p, d.tree.find? p = some .directory → d'.tree.find? p = some .directory
  /-- Every place is spared to which the path of the payload does not lead at which staging halted. -/
  elsewhere : ∀ p, ¬ d'.tree.LeadsTo (pathFor root x.kind name) p → Spared d.tree d'.tree x.staged p
  /-- That one is too, unless its write failed after it had opened the file. -/
  everywhere : x.isCut root name mode = false → ∀ p, Spared d.tree d'.tree x.staged p
  /-- A later staging that keeps what is there then reuses no file but one that was there before. -/
  reuses : x.isCut root name mode = false → ∀ faults path content d'',
    stagePayload ⟨d'.tree, faults⟩ path content .keep = (d'', .ok true) →
    ∃ p, d'.tree.LeadsTo path p ∧
      (d'.tree.find? p = some .directory ∨
        ∃ c, d'.tree.find? p = some (.file c) ∧ d.tree.find? p = some (.file c))

theorem entryAt_of_reused {d d' : Disk} {path : String} {content : Bytes}
    (h : stagePayload d path content .keep = (d', .ok true)) : ∃ e, d.tree.entryAt path = some e := by
  unfold stagePayload at h
  rw [if_pos rfl, Disk.holds_eq] at h
  dsimp only at h
  cases he : d.tree.entryAt path with
  | some e => exact ⟨e, rfl⟩
  | none =>
    rw [he, Option.isSome_none, Bool.and_false, if_neg (by decide)] at h
    split at h
    · cases h
    · split at h
      · cases h
      · cases h

/-- **Staging that fails leaves no file that was not there, and none at the path of a payload that it had
staged**, unless its last write failed after it had opened its file; then this holds of all other places. -/
theorem stage_failed {root name : String} {mode : StagingMode} {d d' : Disk} {payloads : List Payload}
    {e : StagingError} (h : stage root name mode d payloads = (d', .error e))
    (hr : ∀ x, halt? root name mode d [] payloads = some x → x.left.Clear x.staged.length) :
    ∃ x, halt? root name mode d [] payloads = some x ∧ x.error = e ∧
      Abandoned root name mode payloads d x d' := by
  obtain ⟨x, hx⟩ := halts_of_failed payloads d [] h
  have hend := stageAfter_eq payloads d [] x hx
  rw [stage, hend] at h
  cases h
  refine ⟨x, hx, rfl, ?_⟩
  have hclear := hr x hx
  have hhalting := halting_of_progress payloads (.refl d) hx
  have hdirs := (find?_release hclear).1
  have heverywhere : x.isCut root name mode = false →
      ∀ p, Spared d.tree (release x.left x.staged).1.tree x.staged p :=
    fun hu p => (hhalting.everywhere hu p).spared hclear
  obtain ⟨before, content, rest, files, hpayloads, hstaged, hkinds, hpaths⟩ := staged_of_halt payloads hx
  rw [List.nil_append] at hstaged
  subst hstaged
  exact
    { own := ⟨before, content, rest, hpayloads, hkinds, hpaths⟩
      gone := fun f hf c => file_not_left hclear hf c
      keeps := fun p hp => (hdirs p).mpr (hhalting.keeps p hp)
      elsewhere := fun p hp => by
        have hleft : ¬ x.left.tree.LeadsTo (pathFor root x.kind name) p := fun hl =>
          hp ((Tree.leadsTo_congr hdirs _ p).mpr hl)
        exact (hhalting.elsewhere p hleft).spared hclear
      everywhere := heverywhere
      reuses := fun hu faults path content d'' hkeep => by
        obtain ⟨entry, he⟩ := entryAt_of_reused hkeep
        obtain ⟨p, hl, hp⟩ := Tree.leadsTo_of_entryAt he
        refine ⟨p, hl, ?_⟩
        cases entry with
        | directory => exact .inl hp
        | file c => exact .inr ⟨c, hp, (heverywhere hu p).file hp⟩ }

/-! ### A folder that is blocked, and a write that is cut -/

def sampleFolders : List (Place × Entry) := [(["r", "connector-data"], .directory), (["r"], .directory)]

/-- A tree with a file where the catalogs should be. -/
def blocked : Tree := ⟨(["r", "connector-data", "catalog"], .file []) :: sampleFolders⟩

def samplePayloads : List Payload := [(.config, [0x61, 0x62]), (.catalog, [0x63])]

/-- Where the staging of both halts if the catalogs are blocked. -/
def blockedHalt : Halted where
  kind := .catalog
  staged := [⟨.config, "r/connector-data/config/c.json", false⟩]
  reached := .sound
    ⟨(["r", "connector-data", "config", "c.json"], .file [0x61, 0x62]) ::
      (["r", "connector-data", "config"], .directory) :: blocked.entries⟩
  left := .sound
    ⟨(["r", "connector-data", "config", "c.json"], .file [0x61, 0x62]) ::
      (["r", "connector-data", "config"], .directory) :: blocked.entries⟩
  error := ⟨.createFolders, "r/connector-data/catalog/c.json", "File exists (os error 17)"⟩

theorem halt_blocked :
    halt? "r" "c" .overwrite (.sound blocked) [] samplePayloads = some blockedHalt := by
  decide +kernel

theorem stage_blocked :
    stage "r" "c" .overwrite (.sound blocked) samplePayloads =
      (.sound ⟨(["r", "connector-data", "config"], .directory) :: blocked.entries⟩,
        .error blockedHalt.error) := by
  have hreleased : (release blockedHalt.left blockedHalt.staged).1 =
      .sound ⟨(["r", "connector-data", "config"], .directory) :: blocked.entries⟩ := by
    decide +kernel
  rw [stage, stageAfter_eq samplePayloads _ _ _ halt_blocked, hreleased]

theorem sample_stage_failed :
    (stage "r" "c" .overwrite (.sound blocked) samplePayloads =
        (.sound ⟨(["r", "connector-data", "config"], .directory) :: blocked.entries⟩,
          .error blockedHalt.error) ∧
      ∀ x, halt? "r" "c" .overwrite (.sound blocked) [] samplePayloads = some x →
        x.left.Clear x.staged.length) ∧
    ∃ x, halt? "r" "c" .overwrite (.sound blocked) [] samplePayloads = some x ∧
      x.error = blockedHalt.error ∧ Abandoned "r" "c" .overwrite samplePayloads (.sound blocked) x
        (.sound ⟨(["r", "connector-data", "config"], .directory) :: blocked.entries⟩) := by
  have hr : ∀ x, halt? "r" "c" .overwrite (.sound blocked) [] samplePayloads = some x →
      x.left.Clear x.staged.length := by
    intro x hx f hf
    rw [halt_blocked] at hx
    cases hx
    cases hf
  exact ⟨⟨stage_blocked, hr⟩, stage_failed stage_blocked hr⟩

/-- **What staging that failed leaves**: a directory that was not there, if the folder of a later payload is
blocked; and a part of the content, which a later staging reuses, if its write was cut. -/
theorem sample_left_behind :
    (stage "r" "c" .overwrite (.sound blocked) samplePayloads =
        (.sound ⟨(["r", "connector-data", "config"], .directory) :: blocked.entries⟩,
          .error blockedHalt.error) ∧
      blocked.find? ["r", "connector-data", "config"] = none) ∧
    ((stage "r" "c" .keep ⟨⟨sampleFolders⟩, [none, none, some ⟨.noSpace, some 1⟩]⟩
          [(.config, [0x61, 0x62])]).2.toOption = none ∧
      (stage "r" "c" .keep ⟨⟨sampleFolders⟩, [none, none, some ⟨.noSpace, some 1⟩]⟩
          [(.config, [0x61, 0x62])]).1 =
        .sound ⟨(["r", "connector-data", "config", "c.json"], .file [0x61]) ::
          (["r", "connector-data", "config"], .directory) :: sampleFolders⟩ ∧
      (stage "r" "c" .keep
          (.sound ⟨(["r", "connector-data", "config", "c.json"], .file [0x61]) ::
            (["r", "connector-data", "config"], .directory) :: sampleFolders⟩)
          [(.config, [0x61, 0x62])]).2.toOption =
        some [⟨.config, "r/connector-data/config/c.json", true⟩]) := by
  refine ⟨⟨stage_blocked, rfl⟩, ?_⟩
  decide +kernel

end RunDispatch.Staging
