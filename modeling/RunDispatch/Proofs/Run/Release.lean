/-
# The staged files of a run that is over

A run guards the files that it staged, and removes all of them at once when it leaves its slot early. When
its container has ended it removes them one by one, and guards none of them any more: what it was about to
remove after the file whose removal is under way is stranded if the run is interrupted then.

So nothing is left of what a run staged, but for one case: a run with a catalog that is told to stop, or
whose time is up, while its configuration is being removed leaves its catalog behind. No other run has a
second file.

Key definitions: `Stocked`, `pending`, `strands`, `Releases`, `Onward`, `Accounted`, `Released`.
Key theorems: `Course.stocked`, `Move.removes`, `Onward.accounted`, `Onward.kept`, `Course.releases`.
-/
import RunDispatch.Proofs.Run.Course
import RunDispatch.Proofs.Run.Files
import RunDispatch.Proofs.Staging.Removal

namespace RunDispatch
namespace Run

open Staging (StagedFile PayloadKind Shrinks)

/-! ### What a run has staged -/

def payloadKinds (q : Request) : List PayloadKind :=
  .config :: (q.catalog.map fun _ => .catalog).toList

theorem nodup_payloadKinds (q : Request) : (payloadKinds q).Nodup := by
  unfold payloadKinds
  cases q.catalog <;> simp

/-- The payloads of a request cannot be parted but between the configuration and the catalog. -/
theorem catalog_of_parted {q : Request} {first rest : List StagedFile}
    (h : (first ++ rest).map (·.kind) = payloadKinds q) (hf : first ≠ []) (hr : rest ≠ []) :
    ∃ config catalog, first = [config] ∧ rest = [catalog] ∧ config.kind = .config ∧
      catalog.kind = .catalog ∧ q.catalog.isSome = true := by
  cases first with
  | nil => exact absurd rfl hf
  | cons config more =>
    obtain ⟨hconfig, hrest⟩ := List.cons.inj h
    cases hc : q.catalog with
    | none =>
      rw [hc] at hrest
      exact absurd (List.append_eq_nil_iff.mp (List.map_eq_nil_iff.mp hrest)).2 hr
    | some c =>
      rw [hc] at hrest
      cases more with
      | nil =>
        obtain ⟨catalog, hl, hk⟩ := List.map_eq_singleton_iff.mp hrest
        exact ⟨config, catalog, rfl, hl, hconfig, hk, rfl⟩
      | cons f more =>
        exact absurd (List.append_eq_nil_iff.mp (List.map_eq_nil_iff.mp (List.cons.inj hrest).2)).2 hr

theorem map_payloads (r : Run) (configuration : Bytes) :
    (r.payloads configuration).map (·.1) = payloadKinds r.request := by
  unfold payloads payloadKinds
  cases r.request.catalog <;> rfl

/-- What a run guards until its container has ended: its payloads up to the one that is staged next. -/
def Stocked (r : Run) : Prop :=
  match r.phase with
  | .reading | .queued _ => r.guarded = []
  | .staging _ left => r.guarded.map (·.kind) ++ left.map (·.1) = payloadKinds r.request
  | .living _ => r.guarded.map (·.kind) = payloadKinds r.request
  | _ => True

section Moves

variable {setup : Setup} {now : Nat} {s s' : Shared} {r r' : Run} {e : Event}

theorem Move.stocked (h : Move setup now s r e s' r') (hr : r.Stocked) : r'.Stocked := by
  unfold Stocked at hr
  cases h with
  | stays => exact hr
  | notes => exact hr
  | waits h => simpa [Stocked, h] using hr
  | claims e b slots ha =>
    have hg : r.guarded = [] := by
      rcases ha with ⟨h, -⟩ | ⟨h, -⟩ <;> simpa only [h] using hr
    simp only [Stocked, hg, List.map_nil, List.nil_append]
    exact map_payloads r b
  | prepares place next left h => simpa [Stocked, h] using hr
  | stages place next kind content rest h => simpa [Stocked, h] using hr
  | launches place kind content h => simpa [Stocked, h] using hr
  | lives stage next h => simpa [Stocked, h] using hr
  | records finding h result => cases result <;> trivial
  | breaksWaiting e phase he => rcases eq_of_fatal he with rfl | rfl <;> trivial
  | breaksInSlot e phase he => rcases eq_of_fatal he with rfl | rfl <;> trivial
  | breaks e phase he => rcases eq_of_fatal he with rfl | rfl <;> trivial
  | unread | stopsEarly | stopsWaiting | finds | cannotStage | fails | lacksImage | exits | releases
  | retries | finishes | retried | clears | stops | timesOut => trivial

/-! ### What a step removes -/

/-- The files that a run has still to remove once its payloads are staged. -/
def pending (r : Run) : List StagedFile :=
  match r.phase with
  | .living _ => r.guarded
  | .releasing left _ => left
  | _ => []

/-- The files that a run forgets when it leaves its slot: those it was about to remove after the one whose
removal is under way. -/
def strands (r r' : Run) : List StagedFile :=
  match r.phase with
  | .releasing (_ :: rest) _ => if r'.holdsSlot then [] else rest
  | _ => []

/-- Whether a run has staged its payloads; it guards no file that it is about to remove. -/
def PastStaging (r : Run) : Prop :=
  match r.phase with
  | .reading | .queued _ | .staging _ _ => False
  | .releasing _ _ => r.guarded = []
  | _ => True

theorem pending_of_not_holdsSlot (h : r.holdsSlot = false) : r.pending = [] := by
  unfold holdsSlot at h
  unfold pending
  split at h <;> simp_all

theorem strands_of_not_holdsSlot (h : r.holdsSlot = false) : r.strands r' = [] := by
  unfold holdsSlot at h
  unfold strands
  split at h <;> simp_all

theorem strands_of_holdsSlot (h : r'.holdsSlot = true) : r.strands r' = [] := by
  unfold strands
  split
  · rw [if_pos h]
  · rfl

/-- What a step of a run removes: the first of the files that it has still to remove. It has the others
still to remove, or forgets them. -/
structure Releases (r r' : Run) (s s' : Shared) (removed : List StagedFile) : Prop where
  past : r'.PastStaging
  /-- A run does not take a slot again. -/
  slot : r'.holdsSlot = true → r.holdsSlot = true
  split : r.pending = removed ++ (r'.pending ++ r.strands r')
  disk : s'.disk = (Staging.release s.disk removed).1
  /-- What is forgotten comes after a file that is removed. -/
  first : r.strands r' ≠ [] → removed ≠ []

theorem Releases.nothing (hpast : r'.PastStaging) (hslot : r'.holdsSlot = r.holdsSlot)
    (hpending : r'.pending = r.pending) (hdisk : s'.disk = s.disk) : Releases r r' s s' [] := by
  have hstrands : r.strands r' = [] := by
    cases h : r.holdsSlot with
    | true => exact strands_of_holdsSlot (hslot.trans h)
    | false => exact strands_of_not_holdsSlot h
  refine ⟨hpast, fun h => hslot ▸ h, ?_, hdisk, fun h => absurd hstrands h⟩
  rw [hstrands, hpending, List.append_nil, List.nil_append]

/-- The first file goes whose removal the run waits for, and the others stay to be removed or are
forgotten. -/
theorem Releases.file {file : StagedFile} {rest : List StagedFile} {exit : Container.Exit}
    (h : r.phase = .releasing (file :: rest) exit) (hpast : r'.PastStaging)
    (hrest : r'.pending = if r'.holdsSlot then rest else [])
    (hdisk : s'.disk = (s.disk.remove file.path).1) : Releases r r' s s' [file] := by
  refine ⟨hpast, fun _ => by simp [holdsSlot, h], ?_, ?_, fun _ => by simp⟩
  · have hp : r.pending = file :: rest := by simp only [pending, h]
    have hs : r.strands r' = if r'.holdsSlot then [] else rest := by simp only [strands, h]
    rw [hp, hs, hrest]
    cases r'.holdsSlot <;> simp
  · rw [hdisk, Staging.release_cons]
    rfl

theorem Releases.guarded {stage : Container.Stage} (h : r.phase = .living stage)
    (hpast : r'.PastStaging) (hslot : r'.holdsSlot = false)
    (hdisk : s'.disk = (Staging.release s.disk r.guarded).1) : Releases r r' s s' r.guarded := by
  have hs : r.strands r' = [] := by simp only [strands, h]
  refine ⟨hpast, fun hc => ?_, ?_, hdisk, fun hc => absurd hs hc⟩
  · rw [hslot] at hc
    cases hc
  · rw [hs, pending_of_not_holdsSlot hslot, List.append_nil, List.append_nil]
    simp only [pending, h]

/-- A run that leaves its slot early removes what it guards, and the file whose removal is under way. -/
theorem interrupt_releases (hr : r.PastStaging) (hs : r.Sound setup) (h : r.holdsSlot = true)
    (hpast : r'.PastStaging) (hslot : r'.holdsSlot = false) :
    ∃ removed, Releases r r' s (interrupt setup s r).1 removed := by
  have hp := hs.place
  unfold InPlace at hp
  unfold PastStaging at hr
  unfold holdsSlot at h
  split at h
  · rename_i hph
    simp only [hph] at hr
  · rename_i stage hph
    refine ⟨_, .guarded hph hpast hslot ?_⟩
    simp only [interrupt, dropGuard, leaveSlot, finishFile, hph]
  · rename_i left exit hph
    simp only [hph] at hp hr
    cases left with
    | nil => exact absurd rfl hp.2.1
    | cons file rest =>
      refine ⟨_, .file hph hpast ?_ ?_⟩
      · rw [pending_of_not_holdsSlot hslot, hslot]
        rfl
      · simp only [interrupt, dropGuard, leaveSlot, finishFile, hph, hr, Staging.release]
  · cases h

/-- **What a move removes**, once the payloads are staged. -/
theorem Move.removes (h : Move setup now s r e s' r') (hr : r.PastStaging) (hs : r.Sound setup) :
    ∃ removed, Releases r r' s s' removed := by
  have hpast := hr
  unfold PastStaging at hr
  cases h with
  | stays => exact ⟨_, .nothing hpast rfl rfl rfl⟩
  | notes => exact ⟨_, .nothing hpast rfl rfl rfl⟩
  | unread h | stopsEarly h | waits h | prepares _ _ _ h | stages _ _ _ _ _ h | launches _ _ _ h
  | cannotStage _ _ h => simp only [h] at hr
  | stopsWaiting _ h => simp only [h] at hr
  | breaksWaiting _ _ _ _ h => simp only [h] at hr
  | finds e b slots ha | claims e b slots ha =>
    rcases ha with ⟨h, -⟩ | ⟨h, -⟩ <;> simp only [h] at hr
  | lives stage next h =>
    exact ⟨_, .nothing trivial (by simp [holdsSlot, h]) (by simp [pending, h]) rfl⟩
  | fails stage h => exact ⟨_, .guarded h trivial rfl rfl⟩
  | lacksImage stage h => exact ⟨_, .guarded h trivial rfl dropMarker_disk⟩
  | exits stage h =>
    exact ⟨_, .nothing rfl (by simp [holdsSlot, h]) (by simp [pending, h]) rfl⟩
  | releases file rest exit h =>
    simp only [h] at hr
    exact ⟨_, .file h hr rfl (by simp only [finishFile, h])⟩
  | retries file exit h => exact ⟨_, .file h trivial rfl (by simp only [leaveSlot, finishFile, h])⟩
  | finishes file exit h => exact ⟨_, .file h trivial rfl (by simp only [leaveSlot, finishFile, h])⟩
  | retried exit h =>
    exact ⟨_, .nothing trivial (by simp [holdsSlot, h]) (by simp [pending, h]) rfl⟩
  | records finding h result =>
    cases result <;>
      exact ⟨_, .nothing trivial (by simp [holdsSlot, recorded, finish, h])
        (by simp [pending, recorded, finish, h]) dropMarker_disk⟩
  | clears f h =>
    exact ⟨_, .nothing trivial (by simp [holdsSlot, finish, h]) (by simp [pending, finish, h])
      dropMarker_disk⟩
  | stops h => exact interrupt_releases hpast hs h trivial rfl
  | timesOut h => exact interrupt_releases hpast hs h trivial rfl
  | breaksInSlot e phase he h =>
    rcases eq_of_fatal he with rfl | rfl <;> exact interrupt_releases hpast hs h trivial rfl
  | breaks e phase he ho hh =>
    have hp := pending_of_not_holdsSlot hh
    rcases eq_of_fatal he with rfl | rfl <;>
      exact ⟨_, .nothing trivial hh.symm hp.symm rfl⟩

end Moves

/-! ### The course of a run after staging -/

/-- The course of a run from a moment on at which its payloads are staged: the files that it forgot, what
is shared, and the run. The steps of `others` come in between. -/
inductive Onward (setup : Setup) (others : Shared → Shared → Prop) (s₁ : Shared) (r₁ : Run) :
    List StagedFile → Shared → Run → Prop
  | staged : Onward setup others s₁ r₁ [] s₁ r₁
  | told {lost : List StagedFile} {s : Shared} {r : Run} (h : Onward setup others s₁ r₁ lost s r) :
      Onward setup others s₁ r₁ lost s { r with cancelled := true }
  | step {lost : List StagedFile} {s : Shared} {r : Run} (h : Onward setup others s₁ r₁ lost s r)
      (now : Nat) (e : Event) :
      Onward setup others s₁ r₁ (lost ++ r.strands (r.step setup now s e).1.2)
        (r.step setup now s e).1.1 (r.step setup now s e).1.2
  | meanwhile {lost : List StagedFile} {s s' : Shared} {r : Run}
      (h : Onward setup others s₁ r₁ lost s r) (ho : others s s') :
      Onward setup others s₁ r₁ lost s' r

section Onward

variable {setup : Setup} {others : Shared → Shared → Prop} {s₁ s : Shared} {r₁ r : Run}
  {lost : List StagedFile}

theorem Onward.sound (h : Onward setup others s₁ r₁ lost s r) (h₁ : r₁.Sound setup) :
    r.Sound setup := by
  induction h with
  | staged => exact h₁
  | told _ ih => exact ih.told
  | step _ now e ih => exact (step_move ih e).sound ih
  | meanwhile _ _ ih => exact ih

theorem Onward.removes (h : Onward setup others s₁ r₁ lost s r) (h₁ : r₁.Sound setup)
    (hr : r.PastStaging) (now : Nat) (e : Event) :
    ∃ removed, Releases r (r.step setup now s e).1.2 s (r.step setup now s e).1.1 removed := by
  have hm : Move setup now s r (r.heeded e) _ _ := step_move (h.sound h₁) e
  exact hm.removes hr (h.sound h₁)

/-- What has become of the files that a run had staged: the first ones are gone, the run has the next ones
still to remove, and has forgotten the others. -/
structure Accounted (s₁ : Shared) (files lost : List StagedFile) (s : Shared) (r : Run) : Prop where
  past : r.PastStaging
  shrinks : Shrinks files s₁.disk s.disk
  /-- A run that has its slot has forgotten nothing. -/
  slot : r.holdsSlot = true → lost = []
  split : ∃ gone, files = gone ++ (r.pending ++ lost) ∧ (lost ≠ [] → gone ≠ []) ∧
    ∀ f ∈ gone, s.disk.tree.entryAt f.path = none

/-- A step keeps the account of the files. -/
theorem Accounted.step {files : List StagedFile} {s' : Shared} {r' : Run}
    (h : Accounted s₁ files lost s r) {removed : List StagedFile}
    (hr : Releases r r' s s' removed)
    (hdir : ∀ f ∈ files, s₁.disk.tree.entryAt f.path ≠ some .directory) :
    Accounted s₁ files (lost ++ r.strands r') s' r' := by
  obtain ⟨gone, hfiles, hfirst, hgone⟩ := h.split
  have hshrinks : Shrinks files s.disk s'.disk := by
    rw [hr.disk]
    exact Staging.release_shrinks h.shrinks.faultless files removed
  -- Either nothing was forgotten before, or nothing is left to be forgotten.
  have hlost : lost = [] ∨ r.strands r' = [] := by
    cases hh : r.holdsSlot with
    | true => exact .inl (h.slot hh)
    | false => exact .inr (strands_of_not_holdsSlot hh)
  refine ⟨hr.past, h.shrinks.trans hshrinks, fun hs => ?_, gone ++ removed, ?_, fun hne => ?_,
    fun f hf => ?_⟩
  · rw [h.slot (hr.slot hs), strands_of_holdsSlot hs, List.append_nil]
  · rw [hfiles, hr.split]
    rcases hlost with hl | hl <;> simp [hl]
  · rcases hlost with hl | hl
    · rw [hl, List.nil_append] at hne
      exact List.append_ne_nil_of_right_ne_nil _ (hr.first hne)
    · rw [hl, List.append_nil] at hne
      exact List.append_ne_nil_of_left_ne_nil (hfirst hne) _
  · rcases List.mem_append.mp hf with hf | hf
    · exact hshrinks.none (by rw [hfiles]; exact List.mem_append_left _ hf) (hgone f hf)
    · rw [hr.disk]
      have hm : f ∈ files := by
        rw [hfiles, hr.split]
        simp [hf]
      refine Staging.entryAt_release h.shrinks.faultless hf fun he => hdir f hm ?_
      exact h.shrinks.entries f hm _ he

/-- **Every file of a run is accounted for**, as long as no operation meets a fault and no other puts
anything in the place of a file. -/
theorem Onward.accounted (h : Onward setup others s₁ r₁ lost s r) (h₁ : r₁.Sound setup)
    {stage : Container.Stage} (hr₁ : r₁.phase = .living stage) (hd : s₁.disk.faults = [])
    (hdir : ∀ f ∈ r₁.guarded, s₁.disk.tree.entryAt f.path ≠ some .directory)
    (ho : ∀ s t, others s t → s.disk.faults = [] → Shrinks r₁.guarded s.disk t.disk) :
    Accounted s₁ r₁.guarded lost s r := by
  induction h with
  | staged =>
    refine ⟨by simp [PastStaging, hr₁], .refl hd, fun _ => rfl, [], ?_, fun hne => absurd rfl hne, nofun⟩
    simp [pending, hr₁]
  | told _ ih => exact ⟨ih.past, ih.shrinks, ih.slot, ih.split⟩
  | step h now e ih =>
    obtain ⟨removed, hr⟩ := h.removes h₁ ih.past now e
    exact ih.step hr hdir
  | meanwhile h hst ih =>
    have hs := ho _ _ hst ih.shrinks.faultless
    obtain ⟨gone, hfiles, hfirst, hgone⟩ := ih.split
    refine ⟨ih.past, ih.shrinks.trans hs, ih.slot, gone, hfiles, hfirst, fun f hf => ?_⟩
    exact hs.none (by rw [hfiles]; exact List.mem_append_left _ hf) (hgone f hf)

theorem kind_ne_of_nodup {gone removed rest : List StagedFile}
    (h : ((gone ++ (removed ++ rest)).map (·.kind)).Nodup) {f g : StagedFile} (hg : g ∈ removed)
    (hf : f ∈ rest) : g.kind ≠ f.kind := by
  rw [List.map_append, List.map_append] at h
  have hn := (List.nodup_append.mp (List.nodup_append.mp h).2.1).2.2
  exact hn _ (List.mem_map_of_mem hg) _ (List.mem_map_of_mem hf)

/-- **What a run has not removed is as it was**, whether it has still to remove it or has forgotten it, as
long as no other touches it. -/
theorem Onward.kept (h : Onward setup others s₁ r₁ lost s r) (h₁ : r₁.Sound setup)
    {stage : Container.Stage} (hr₁ : r₁.phase = .living stage) (hd : s₁.disk.faults = [])
    (hdir : ∀ f ∈ r₁.guarded, s₁.disk.tree.entryAt f.path ≠ some .directory)
    (ho : ∀ s t, others s t → s.disk.faults = [] → Shrinks r₁.guarded s.disk t.disk)
    (hname : '/' ∉ r₁.name.toList) (hkinds : (r₁.guarded.map (·.kind)).Nodup)
    (hk : ∀ s t, others s t → ∀ f ∈ r₁.guarded,
      t.disk.tree.entryAt f.path = s.disk.tree.entryAt f.path) :
    ∀ f ∈ r.pending ++ lost, s.disk.tree.entryAt f.path = s₁.disk.tree.entryAt f.path := by
  induction h with
  | staged => exact fun _ _ => rfl
  | told _ ih => exact ih
  | @step lost s r h now e ih =>
    have hacc := h.accounted h₁ hr₁ hd hdir ho
    obtain ⟨removed, hr⟩ := h.removes h₁ hacc.past now e
    obtain ⟨gone, hfiles, -, -⟩ := hacc.split
    intro f hf
    have hrest : f ∈ (r.step setup now s e).1.2.pending ++ r.strands (r.step setup now s e).1.2 ++
        lost := by
      simp only [List.mem_append] at hf ⊢
      rcases hf with hf | hf | hf
      · exact .inl (.inl hf)
      · exact .inr hf
      · exact .inl (.inr hf)
    have hsplit : r₁.guarded = gone ++ (removed ++ ((r.step setup now s e).1.2.pending ++
        r.strands (r.step setup now s e).1.2 ++ lost)) := by
      rw [hfiles, hr.split, List.append_assoc]
    have hmem : ∀ g ∈ removed ++ ((r.step setup now s e).1.2.pending ++
        r.strands (r.step setup now s e).1.2 ++ lost), g ∈ r₁.guarded := fun g hg => by
      rw [hsplit]
      exact List.mem_append_right _ hg
    rw [hsplit] at hkinds
    rw [hr.disk, Staging.entryAt_release_of_kind hacc.shrinks.faultless hname (fun g hg => ?_)
      (h₁.paths f (hmem f (List.mem_append_right _ hrest)))]
    · refine ih f ?_
      rw [hr.split, List.append_assoc]
      exact List.mem_append_right _ hrest
    · exact ⟨h₁.paths g (hmem g (List.mem_append_left _ hg)), kind_ne_of_nodup hkinds hg hrest⟩
  | @meanwhile lost s s' r h hst ih =>
    intro f hf
    obtain ⟨gone, hfiles, -, -⟩ := (h.accounted h₁ hr₁ hd hdir ho).split
    rw [hk _ _ hst f (by rw [hfiles]; exact List.mem_append_right _ hf), ih f hf]

end Onward

/-! ### Nothing is left but a catalog -/

/-- A run has staged the payloads of its request, in order, by the time its container lives. -/
theorem Course.stocked {setup : Setup} {others : Shared → Shared → Prop} {number : Nat} {q : Request}
    {s₀ s : Shared} {log : List Deed} {r : Run} (h : Course setup others number q s₀ log s r) :
    r.Stocked := by
  induction h with
  | start => rfl
  | told _ ih => exact ih
  | step h now e ih => exact (h.move now e).stocked ih
  | meanwhile _ _ ih => exact ih

/-- What is left of the files that a run of a request had staged, when it has left its slot. -/
structure Released (q : Request) (others : Shared → Shared → Prop) (files lost : List StagedFile)
    (s₁ s : Shared) : Prop where
  /-- Nothing is left at their paths, unless the run forgot them. -/
  gone : ∀ f ∈ files, f ∉ lost → s.disk.tree.entryAt f.path = none
  /-- A run forgets nothing but the catalog, and that only when it has one. -/
  left : lost = [] ∨ ∃ config catalog, files = [config, catalog] ∧ config.kind = .config ∧
    catalog.kind = .catalog ∧ q.catalog.isSome = true ∧ lost = [catalog]
  /-- What it forgot is there as it was, if no other touches the files. -/
  kept : (∀ s t, others s t → ∀ f ∈ files,
      t.disk.tree.entryAt f.path = s.disk.tree.entryAt f.path) →
    ∀ f ∈ lost, s.disk.tree.entryAt f.path = s₁.disk.tree.entryAt f.path

/-- **What a run leaves of its files.** However a run goes on whose payloads are staged: when it has left
its slot nothing is left at their paths, but for a catalog that it forgot. -/
theorem Course.releases {setup : Setup} {others : Shared → Shared → Prop} {number : Nat} {q : Request}
    {s₀ s₁ s : Shared} {log : List Deed} {r₁ r : Run} {lost : List StagedFile}
    (h : Course setup others number q s₀ log s₁ r₁) (hr₁ : r₁.phase = .living .pulling)
    (hon : Onward setup others s₁ r₁ lost s r) (hover : r.holdsSlot = false)
    (hd : s₁.disk.faults = [])
    (hdir : ∀ f ∈ r₁.guarded, s₁.disk.tree.entryAt f.path ≠ some .directory)
    (ho : ∀ s t, others s t → s.disk.faults = [] → Shrinks r₁.guarded s.disk t.disk)
    (hname : Container.checkName q.containerName = .ok ()) :
    Released q others r₁.guarded lost s₁ s := by
  have hq := h.same.2
  have hkinds : r₁.guarded.map (·.kind) = payloadKinds q := by
    have hs := h.stocked
    simp only [Stocked, hr₁, hq] at hs
    exact hs
  obtain ⟨gone, hfiles, hfirst, hgone⟩ := (hon.accounted h.sound hr₁ hd hdir ho).split
  rw [pending_of_not_holdsSlot hover, List.nil_append] at hfiles
  refine ⟨fun f hf hl => ?_, ?_, fun hk f hf => ?_⟩
  · rw [hfiles] at hf
    exact hgone f ((List.mem_append.mp hf).resolve_right hl)
  · by_cases hl : lost = []
    · exact .inl hl
    · rw [hfiles] at hkinds
      obtain ⟨config, catalog, hg, hl', hc⟩ := catalog_of_parted hkinds (hfirst hl) hl
      exact .inr ⟨config, catalog, by rw [hfiles, hg, hl']; rfl, hc.1, hc.2.1, hc.2.2, hl'⟩
  · have hnodup : (r₁.guarded.map (·.kind)).Nodup := by
      rw [hkinds]
      exact nodup_payloadKinds q
    refine hon.kept h.sound hr₁ hd hdir ho ?_ hnodup hk f (List.mem_append_right _ hf)
    have hn : r₁.name = q.containerName := by rw [name, hq]
    rw [hn]
    exact Staging.not_slash_of_checkName hname

/-- A run that is played on goes on, with the files that it forgot. -/
def playOn (setup : Setup) :
    List StagedFile × Shared × Run → List (Nat × Event) → List StagedFile × Shared × Run :=
  List.foldl fun (lost, s, r) (now, e) =>
    let ((s', r'), _) := r.step setup now s e
    (lost ++ r.strands r', s', r')

theorem Onward.play {setup : Setup} {others : Shared → Shared → Prop} {s₁ : Shared} {r₁ : Run}
    (events : List (Nat × Event)) {lost : List StagedFile} {s : Shared} {r : Run}
    (h : Onward setup others s₁ r₁ lost s r) :
    Onward setup others s₁ r₁ (playOn setup (lost, s, r) events).1
      (playOn setup (lost, s, r) events).2.1 (playOn setup (lost, s, r) events).2.2 := by
  induction events generalizing lost s r with
  | nil => exact h
  | cons event rest ih => exact ih (h.step event.1 event.2)

def sampleWrite : Request := { sampleRequest with kind := .write, catalog := some [] }

def stagingBoth : List (Nat × Event) :=
  [(0, .configuration (.ok [])), (1, .file), (2, .file), (3, .file), (4, .file)]

def sampleStaged : List Deed × Shared × Run :=
  Run.play sampleSetup ([], sampleShared, Run.start 0 sampleWrite) stagingBoth

/-- Its container ends, and while the configuration is removed the run is told to stop. -/
def stoppedWhileReleasing : List (Nat × Event) :=
  [(5, .container .done), (6, .container (.created "id")), (7, .container (.started true)),
    (8, .container (.exited 0)), (9, .container .done), (10, .container .done), (11, .cancel),
    (12, .container .done)]

def sampleReleased : List StagedFile × Shared × Run :=
  playOn sampleSetup ([], sampleStaged.2.1, sampleStaged.2.2) stoppedWhileReleasing

theorem course_sampleStaged : Course sampleSetup (fun _ _ => False) 0 sampleWrite sampleShared
    sampleStaged.1 sampleStaged.2.1 sampleStaged.2.2 := by
  unfold sampleStaged
  exact Course.play stagingBoth .start

theorem onward_sampleReleased : Onward sampleSetup (fun _ _ => False) sampleStaged.2.1
    sampleStaged.2.2 sampleReleased.1 sampleReleased.2.1 sampleReleased.2.2 := by
  unfold sampleReleased
  exact Onward.play stoppedWhileReleasing .staged

theorem sample_releases :
    (sampleStaged.2.2.phase = .living .pulling ∧ sampleReleased.2.2.holdsSlot = false ∧
      sampleStaged.2.1.disk.faults = [] ∧
      (∀ f ∈ sampleStaged.2.2.guarded,
        sampleStaged.2.1.disk.tree.entryAt f.path ≠ some .directory) ∧
      Container.checkName sampleWrite.containerName = .ok ()) ∧
    Released sampleWrite (fun _ _ => False) sampleStaged.2.2.guarded sampleReleased.1
      sampleStaged.2.1 sampleReleased.2.1 := by
  have hp : sampleStaged.2.2.phase = .living .pulling := by decide +kernel
  have hh : sampleReleased.2.2.holdsSlot = false := by decide +kernel
  have hd : sampleStaged.2.1.disk.faults = [] := by decide +kernel
  have hdir : ∀ f ∈ sampleStaged.2.2.guarded,
      sampleStaged.2.1.disk.tree.entryAt f.path ≠ some .directory := by decide +kernel
  have hn : Container.checkName sampleWrite.containerName = .ok () := by decide
  exact ⟨⟨hp, hh, hd, hdir, hn⟩,
    course_sampleStaged.releases hp onward_sampleReleased hh hd hdir nofun hn⟩

/-- **A catalog that is left behind**: the run is over, and its catalog lies where it was staged. -/
theorem sample_stranded :
    sampleStaged.2.2.phase = .living .pulling ∧
    sampleStaged.2.1.disk.faults = [] ∧
    sampleStaged.2.2.guarded =
      [⟨.config, "r/connector-data/config/c.json", false⟩,
        ⟨.catalog, "r/connector-data/catalog/c.json", false⟩] ∧
    sampleReleased.2.2.phase = .ended (.error (.cancelled "c")) ∧
    sampleReleased.2.1.disk.tree.entryAt "r/connector-data/catalog/c.json" = some (.file []) := by
  decide +kernel

end Run
end RunDispatch
