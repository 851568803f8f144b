/-
# A run beside others

A run beside others goes on as it does alone, if the same happens to both. They differ in the number of the
run and in the moment when its time is up, and the disk beside others echoes the disk of the run that is
alone (`Abreast`). Every part of a step keeps them abreast, and they do the same in it.

The slot and the marker are what a run finds, not what it makes, so here they only decide how the run goes
on: it has to be given its slot, and to find a live marker in both places or in none (`enter_twin`).

Key definitions: `Twin`, `Abreast`, `enters`.
Key theorems: `stageFile_abreast`, `interrupt_abreast`, `step_abreast`, `Twin.deeds`, `enter_twin`.
-/
import RunDispatch.Proofs.Run.Files
import RunDispatch.Proofs.Staging.Echo

namespace RunDispatch
namespace Run

open Staging (Site Proper Tended)

/-- A run that differs in its number, and in when its time is up if that runs. -/
inductive Twin (r : Run) : Run → Prop
  | mk (number : Nat) (deadline : Option Nat) (h : deadline.isSome = r.deadline.isSome) :
      Twin r { r with number, deadline }

/-- Whether a run `b` beside others is where the run `a` is that is alone, each with what it shares. The way
to a payload that is about to be written is there. -/
structure Abreast {setup : Setup} (site : Site setup.root) (a b : Shared × Run) : Prop where
  twin : Twin a.2 b.2
  disk : Staging.Disk.Echo site a.2.name a.1.disk b.1.disk
  ready : ∀ kind content rest, a.2.phase = .staging .writing ((kind, content) :: rest) →
    a.1.disk.tree.walk site.top (site.way kind) = .ok (site.top ++ site.way kind)

/-! ### What a run tends -/

section Tended

variable {setup : Setup} {site : Site setup.root} {now : Nat} {s s' : Shared} {r r' : Run} {e : Event}

/-- The file operation that a run waits for is one on a payload of its own. -/
theorem finishFile_tended (hs : r.Sound setup) (hn : Proper r.name) (h : site.Stands s.disk.tree) :
    Tended site r.name s.disk.tree (finishFile setup s r).disk.tree := by
  have hp := hs.place
  unfold InPlace at hp
  unfold finishFile
  split
  · rename_i place kind content rest hr
    cases place with
    | looking =>
      dsimp only
      rw [Staging.Disk.holds_tree]
      exact .refl h
    | makingFolders => exact Staging.Disk.makeParents_tended h hn
    | writing => exact Staging.Disk.write_tended h hn content
  · rename_i file rest exit hr
    simp only [hr] at hp
    dsimp only
    rw [hp.2.2 file List.mem_cons_self]
    exact Staging.Disk.remove_tended h hn
  · exact .refl h

theorem dropGuard_tended (hs : r.Sound setup) (hn : Proper r.name) (h : site.Stands s.disk.tree) :
    Tended site r.name s.disk.tree (dropGuard s r).1.disk.tree :=
  Staging.release_tended hn hs.paths h

theorem interrupt_tended (hs : r.Sound setup) (hn : Proper r.name) (h : site.Stands s.disk.tree) :
    Tended site r.name s.disk.tree (interrupt setup s r).1.disk.tree := by
  have hg : Tended site r.name s.disk.tree (dropGuard s r).1.disk.tree := dropGuard_tended hs hn h
  exact hg.trans (finishFile_tended hs hn hg.stands)

/-- **A run tends its own payloads**, and the ways above them. -/
theorem Move.tended (h : Move setup now s r e s' r') (hs : r.Sound setup) (hn : Proper r.name)
    (hst : site.Stands s.disk.tree) : Tended site r.name s.disk.tree s'.disk.tree := by
  cases h with
  | stays | notes | unread | stopsEarly | waits | stopsWaiting | finds | claims | lives | exits
  | retried | breaksWaiting | breaks => exact .refl hst
  | records finding hr result =>
    have hd : (recorded s r finding result).1.disk = s.disk := by
      cases result <;> exact dropMarker_disk
    rw [hd]
    exact .refl hst
  | clears =>
    rw [dropMarker_disk]
    exact .refl hst
  | prepares | stages | launches | releases | retries | finishes => exact finishFile_tended hs hn hst
  | cannotStage =>
    have hf : Tended site r.name s.disk.tree (finishFile setup s r).disk.tree :=
      finishFile_tended hs hn hst
    refine hf.trans ?_
    simp only [leaveSlot, dropMarker_disk]
    exact dropGuard_tended hs hn hf.stands
  | fails => exact dropGuard_tended hs hn hst
  | lacksImage =>
    rw [dropMarker_disk]
    exact dropGuard_tended hs hn hst
  | stops | timesOut | breaksInSlot => exact interrupt_tended hs hn hst

end Tended

section Abreast

variable {setup : Setup} {site : Site setup.root} {s s' : Shared} {r r' : Run}

theorem Twin.name_eq (h : Twin r r') : r'.name = r.name := by
  cases h
  rfl

theorem Twin.claimed_eq (h : Twin r r') : r'.claimed = r.claimed := by
  cases h
  rfl

theorem Abreast.of_twin (h : Twin r r') (hd : Staging.Disk.Echo site r.name s.disk s'.disk)
    (hp : ∀ left, r.phase ≠ .staging .writing left) : Abreast site (s, r) (s', r') :=
  ⟨h, hd, fun _ _ _ hr => absurd hr (hp _)⟩

theorem dropMarker_abreast {a b q q' : Run} (h : Abreast site (s, q) (s', q')) :
    Abreast site (dropMarker s a, q) (dropMarker s' b, q') := by
  refine ⟨h.twin, ?_, ?_⟩
  · dsimp only
    rw [dropMarker_disk, dropMarker_disk]
    exact h.disk
  · dsimp only
    rw [dropMarker_disk]
    exact h.ready

theorem fail_abreast (h : Twin r r') (hd : Staging.Disk.Echo site r.name s.disk s'.disk) (f : Failure) :
    Abreast site (fail s r f) (fail s' r' f) := by
  obtain ⟨number, deadline, ht⟩ := h
  unfold fail
  dsimp only
  split
  · exact .of_twin (.mk number deadline ht) hd (by simp)
  · exact dropMarker_abreast (.of_twin (.mk number deadline ht) hd (by simp [finish]))

theorem complete_abreast (h : Twin r r') (hd : Staging.Disk.Echo site r.name s.disk s'.disk)
    (v : Verdict) : Abreast site (complete s r v) (complete s' r' v) := by
  obtain ⟨number, deadline, ht⟩ := h
  unfold complete
  split
  · exact .of_twin (.mk number deadline ht) hd (by simp)
  · split <;> exact .of_twin (.mk number deadline ht) hd (by simp)

theorem firstStep_ne (mode : StagingMode) : firstStep mode ≠ .writing := by
  cases mode <;> decide

theorem stageNext_abreast (h : Twin r r') (hd : Staging.Disk.Echo site r.name s.disk s'.disk)
    (left : List Staging.Payload) : Abreast site (stageNext s r left) (stageNext s' r' left) := by
  obtain ⟨number, deadline, ht⟩ := h
  unfold stageNext
  cases left with
  | nil => exact .of_twin (.mk number deadline ht) hd (by simp)
  | cons payload rest =>
    exact ⟨.mk number deadline ht, hd, fun _ _ _ he => absurd (Phase.staging.inj he).1 (firstStep_ne _)⟩

theorem dropGuard_abreast (hs : r.Sound setup) (hn : Proper r.name) (h : Twin r r')
    (hd : Staging.Disk.Echo site r.name s.disk s'.disk) :
    Twin (dropGuard s r).2 (dropGuard s' r').2 ∧
      Staging.Disk.Echo site r.name (dropGuard s r).1.disk (dropGuard s' r').1.disk := by
  obtain ⟨number, deadline, ht⟩ := h
  exact ⟨.mk number deadline ht, hd.release hn hs.paths⟩

theorem stagingFailed_abreast (hs : r.Sound setup) (hn : Proper r.name) (h : Twin r r')
    (hd : Staging.Disk.Echo site r.name s.disk s'.disk) (e : Staging.StagingError) :
    Abreast site (stagingFailed s r e) (stagingFailed s' r' e) := by
  have hg := (dropGuard_abreast hs hn h hd).2
  obtain ⟨number, deadline, ht⟩ := h
  have htwin : Twin { (dropGuard s r).2 with claimed := false }
      { (dropGuard s' { r with number, deadline }).2 with claimed := false } := .mk number deadline ht
  unfold stagingFailed
  refine fail_abreast htwin ?_ _
  simp only [leaveSlot, dropMarker_disk]
  exact hg

theorem staged_abreast (h : Twin r r') (hd : Staging.Disk.Echo site r.name s.disk s'.disk)
    (kind : Staging.PayloadKind) (reused : Bool) (left : List Staging.Payload) :
    Abreast site (staged setup s r kind reused left) (staged setup s' r' kind reused left) := by
  obtain ⟨number, deadline, ht⟩ := h
  have htwin : Twin { r with guarded := r.guarded ++ [⟨kind, payloadPath setup r kind, reused⟩] }
      { r with number, deadline, guarded := r.guarded ++ [⟨kind, payloadPath setup r kind, reused⟩] } :=
    .mk number deadline ht
  exact stageNext_abreast htwin hd left

/-- **A file operation of staging** comes to the same. -/
theorem stageFile_abreast (hs : r.Sound setup) (hn : Proper r.name) (h : Abreast site (s, r) (s', r'))
    {place : StagingStep} {left : List Staging.Payload} (hp : r.phase = .staging place left) :
    Abreast site (stageFile setup s r place left) (stageFile setup s' r' place left) := by
  obtain ⟨ht, hd, hready⟩ := h
  cases left with
  | nil => exact stageNext_abreast ht hd []
  | cons payload rest =>
    obtain ⟨kind, content⟩ := payload
    have hpath : payloadPath setup r' kind = Staging.pathFor setup.root kind r.name := by
      obtain ⟨number, deadline, ht⟩ := ht
      rfl
    have hpath' : payloadPath setup r kind = Staging.pathFor setup.root kind r.name := rfl
    simp only [stageFile, hpath, hpath']
    cases place with
    | looking =>
      have hholds := hd.holds hn kind
      cases ha : s.disk.holds (Staging.pathFor setup.root kind r.name) with | mk there d =>
      cases hb : s'.disk.holds (Staging.pathFor setup.root kind r.name) with | mk there' d' =>
      rw [ha, hb] at hholds
      obtain ⟨he, hdisk⟩ := hholds
      obtain rfl : there' = there := he
      obtain ⟨number, deadline, ht⟩ := ht
      cases there'
      · exact .of_twin (.mk number deadline ht) hdisk (by simp)
      · exact staged_abreast (.mk number deadline ht) hdisk kind true rest
    | makingFolders =>
      have hmake := hd.makeParents hn kind
      have hmade := Staging.Disk.walk_of_makeParents hd.tree.alone hn kind
      cases ha : s.disk.makeParents (Staging.pathFor setup.root kind r.name) with | mk d e =>
      cases hb : s'.disk.makeParents (Staging.pathFor setup.root kind r.name) with | mk d' e' =>
      rw [ha, hb] at hmake
      rw [ha] at hmade
      obtain ⟨he, hdisk⟩ := hmake
      obtain rfl : e' = e := he
      cases e' with
      | none =>
        obtain ⟨number, deadline, ht⟩ := ht
        refine ⟨.mk number deadline ht, hdisk, fun kind' content' rest' he => ?_⟩
        obtain ⟨⟨rfl, -⟩, -⟩ : (kind = kind' ∧ content = content') ∧ rest = rest' := by
          simpa using he
        exact hmade rfl
      | some e => exact stagingFailed_abreast hs hn ht hdisk _
    | writing =>
      have hwrite := hd.write hn (hready kind content rest hp) content
      cases ha : s.disk.write (Staging.pathFor setup.root kind r.name) content with | mk d e =>
      cases hb : s'.disk.write (Staging.pathFor setup.root kind r.name) content with | mk d' e' =>
      rw [ha, hb] at hwrite
      obtain ⟨he, hdisk⟩ := hwrite
      obtain rfl : e' = e := he
      cases e' with
      | none => exact staged_abreast ht hdisk kind false rest
      | some e => exact stagingFailed_abreast hs hn ht hdisk _

theorem lived_abreast (hs : r.Sound setup) (hn : Proper r.name) (h : Twin r r')
    (hd : Staging.Disk.Echo site r.name s.disk s'.disk) (result : Except Container.Failure Container.Exit) :
    Abreast site (lived s r result) (lived s' r' result) := by
  cases result with
  | error f =>
    obtain ⟨ht, hdisk⟩ := dropGuard_abreast hs hn h hd
    have hleft : Staging.Disk.Echo site r.name (leaveSlot (dropGuard s r).1).disk
        (leaveSlot (dropGuard s' r').1).disk := hdisk
    exact fail_abreast ht hleft _
  | ok exit =>
    obtain ⟨number, deadline, ht⟩ := h
    exact .of_twin (.mk number deadline ht) hd (by simp)

theorem released_abreast (h : Twin r r') (hd : Staging.Disk.Echo site r.name s.disk s'.disk)
    (exit : Container.Exit) : Abreast site (released s r exit) (released s' r' exit) := by
  have hleft : Staging.Disk.Echo site r.name (leaveSlot s).disk (leaveSlot s').disk := hd
  exact complete_abreast h hleft _

/-- A reply of the container runtime comes to the same. -/
theorem live_abreast (hs : r.Sound setup) (hn : Proper r.name) (h : Twin r r')
    (hd : Staging.Disk.Echo site r.name s.disk s'.disk) (stage : Container.Stage)
    (reply : Container.Reply) :
    Abreast site (live s r stage reply).1 (live s' r' stage reply).1 := by
  unfold live
  split
  · rename_i result shown _
    have hl := lived_abreast hs hn h hd result
    cases ha : lived s r result with | mk t q =>
    cases hb : lived s' r' result with | mk t' q' =>
    rw [ha, hb] at hl
    have hphase : q'.phase = q.phase := by
      obtain ⟨ht, -⟩ := hl
      cases ht
      rfl
    dsimp only
    rw [hphase]
    split
    · exact released_abreast hl.twin hl.disk _
    · exact hl
  · obtain ⟨number, deadline, ht⟩ := h
    exact .of_twin (.mk number deadline ht) hd (by simp)

/-- The removal of a staged file comes to the same. -/
theorem releaseFile_abreast (hs : r.Sound setup) (hn : Proper r.name) (h : Twin r r')
    (hd : Staging.Disk.Echo site r.name s.disk s'.disk) {left : List Staging.StagedFile}
    {exit : Container.Exit} (hp : r.phase = .releasing left exit) :
    Abreast site (releaseFile s r left exit) (releaseFile s' r' left exit) := by
  have hplace := hs.place
  simp only [InPlace, hp] at hplace
  unfold releaseFile
  cases left with
  | nil => exact released_abreast h hd exit
  | cons file rest =>
    have hd : Staging.Disk.Echo site r.name (s.disk.remove file.path).1 (s'.disk.remove file.path).1 := by
      rw [hplace.2.2 file List.mem_cons_self]
      exact hd.remove hn file.kind
    cases rest with
    | nil => exact released_abreast h hd exit
    | cons next rest =>
      obtain ⟨number, deadline, ht⟩ := h
      exact .of_twin (.mk number deadline ht) hd (by simp)

/-- The file operation that a run stopped waiting for comes to the same. -/
theorem finishFile_abreast (hs : r.Sound setup) (hn : Proper r.name) (h : Twin r r')
    (hd : Staging.Disk.Echo site r.name s.disk s'.disk)
    (hready : ∀ kind content rest, r.phase = .staging .writing ((kind, content) :: rest) →
      s.disk.tree.walk site.top (site.way kind) = .ok (site.top ++ site.way kind)) :
    Staging.Disk.Echo site r.name (finishFile setup s r).disk (finishFile setup s' r').disk := by
  obtain ⟨number, deadline, ht⟩ := h
  have hplace := hs.place
  unfold InPlace at hplace
  unfold finishFile
  dsimp only
  split
  · rename_i place kind content rest hp
    cases place with
    | looking => exact (hd.holds hn kind).2
    | makingFolders => exact (hd.makeParents hn kind).2
    | writing => exact (hd.write hn (hready kind content rest hp) content).2
  · rename_i file rest exit hp
    simp only [hp] at hplace
    dsimp only
    rw [hplace.2.2 file List.mem_cons_self]
    exact hd.remove hn file.kind
  · exact hd

/-- **A run that leaves its slot** from whatever it was doing there leaves the disk in the same way. -/
theorem interrupt_abreast (hs : r.Sound setup) (hn : Proper r.name) (h : Abreast site (s, r) (s', r')) :
    Twin (interrupt setup s r).2 (interrupt setup s' r').2 ∧
      Staging.Disk.Echo site r.name (interrupt setup s r).1.disk (interrupt setup s' r').1.disk := by
  obtain ⟨ht, hd, hready⟩ := h
  obtain ⟨hg, hdisk⟩ := dropGuard_abreast hs hn ht hd
  refine ⟨hg, finishFile_abreast hs hn ht hdisk fun kind content rest hp => ?_⟩
  -- Removing files leaves the way to the payload that is being written.
  have htended : Tended site r.name s.disk.tree (dropGuard s r).1.disk.tree :=
    dropGuard_tended hs hn hd.tree.alone
  exact Staging.Tree.walk_mono htended.keeps (hready kind content rest hp)

theorem cancel_abreast (hs : r.Sound setup) (hn : Proper r.name) (h : Abreast site (s, r) (s', r')) :
    Abreast site (cancel setup s r) (cancel setup s' r') := by
  obtain ⟨⟨number, deadline, ht⟩, hd, hready⟩ := h
  have htold : Abreast site (s, { r with cancelled := true })
      (s', { r with number, deadline, cancelled := true }) := ⟨.mk number deadline ht, hd, hready⟩
  have hinterrupt := interrupt_abreast hs.told hn htold
  have hslot : ({ r with cancelled := true } : Run).holdsSlot = r.holdsSlot := rfl
  have hslot' : ({ r with number, deadline, cancelled := true } : Run).holdsSlot = r.holdsSlot := rfl
  unfold cancel
  dsimp only
  split
  · exact .of_twin (.mk number deadline ht) hd (by simp [finish])
  · rw [hslot, hslot']
    split
    · exact fail_abreast hinterrupt.1 hinterrupt.2 _
    · exact htold

theorem expire_abreast (hs : r.Sound setup) (hn : Proper r.name) (h : Abreast site (s, r) (s', r')) :
    Abreast site (expire setup s r) (expire setup s' r') := by
  have hinterrupt := interrupt_abreast hs hn h
  have hslot : r'.holdsSlot = r.holdsSlot := by
    obtain ⟨ht, -⟩ := h
    cases ht
    rfl
  unfold expire
  rw [hslot]
  split
  · dsimp only
    rw [hinterrupt.1.name_eq]
    exact fail_abreast hinterrupt.1 hinterrupt.2 _
  · exact h

/-- Whether a run gets its slot when something happens to it, if one is free. -/
def enters (r : Run) : Event → Bool
  | .configuration (.ok _) =>
    match r.phase with
    | .reading => !r.cancelled
    | _ => false
  | _ => false

/-- **Something else than the configuration** comes to the same for a run that does not wait for a slot. -/
theorem react_abreast (hs : r.Sound setup) (hn : Proper r.name) (h : Abreast site (s, r) (s', r'))
    {e : Event} (he : fatal? e = none) (hq : ∀ b, r.phase ≠ .queued b) (hr : r.enters e = false)
    (now now' : Nat) :
    Abreast site (r.react setup now s e).1 (r'.react setup now' s' e).1 := by
  have hphase : r'.phase = r.phase ∧ r'.cancelled = r.cancelled := by
    obtain ⟨ht, -⟩ := h
    cases ht
    exact ⟨rfl, rfl⟩
  have hends : ∀ result, Abreast site (s, r.finish result) (s', r'.finish result) := by
    obtain ⟨⟨number, deadline, ht⟩, hd, -⟩ := h
    exact fun result => .of_twin (.mk number deadline ht) hd (by simp [finish])
  cases e with
  | configuration result =>
    simp only [react, hphase.1]
    split
    · rename_i configuration hp
      have hc : r.cancelled = true := by simpa [enters, hp] using hr
      unfold queue
      rw [if_pos hc, if_pos (hphase.2.trans hc), h.twin.name_eq]
      exact hends _
    · exact hends _
    · exact h
  | slot =>
    -- It waits for no slot, so it makes nothing of one.
    simp only [react, hphase.1]
    exact h
  | file =>
    simp only [react, hphase.1]
    split
    · rename_i place left hp
      exact stageFile_abreast hs hn h hp
    · rename_i left exit hp
      exact releaseFile_abreast hs hn h.twin h.disk hp
    · exact h
  | container reply =>
    simp only [react, hphase.1]
    split
    · exact live_abreast hs hn h.twin h.disk _ _
    · split
      · obtain ⟨⟨number, deadline, ht⟩, hd, -⟩ := h
        exact .of_twin (.mk number deadline ht) hd (by simp)
      · exact h
    · split
      · exact dropMarker_abreast (hends _)
      · exact dropMarker_abreast (hends _)
      · exact h
    · exact h
  | stored result =>
    simp only [react, hphase.1]
    split
    · rename_i finding hp
      have hreport : r'.report finding = r.report finding := by
        obtain ⟨ht, -⟩ := h
        cases ht
        rfl
      cases result with
      | ok =>
        simp only [recorded, hreport]
        exact dropMarker_abreast (hends _)
      | error e =>
        simp only [recorded, h.twin.name_eq]
        exact dropMarker_abreast (hends _)
    · exact h
  | cancel => exact cancel_abreast hs hn h
  | timeout => exact expire_abreast hs hn h
  | panic | drop => cases he

theorem Twin.heeded (h : Twin r r') (e : Event) : r'.heeded e = r.heeded e := by
  cases h
  rfl

theorem Twin.deeds {q q' : Run} (h : Twin r r') (hq : Twin q q') (e : Event) :
    r'.deeds setup e q' = r.deeds setup e q := by
  obtain ⟨number, deadline, ht⟩ := h
  obtain ⟨number', deadline', ht'⟩ := hq
  have hnone : deadline.isNone = r.deadline.isNone := by
    rw [← Option.not_isSome, ← Option.not_isSome, ht]
  simp only [Run.deeds, hnone, ht']
  rfl

/-- **A step** of a run that neither waits for a slot nor gets one comes to the same, and so do its deeds. -/
theorem step_abreast (hs : r.Sound setup) (hn : Proper r.name) (h : Abreast site (s, r) (s', r'))
    {e : Event} (he : fatal? (r.heeded e) = none) (hq : ∀ b, r.phase ≠ .queued b)
    (hr : r.enters (r.heeded e) = false) (now now' : Nat) :
    Abreast site (r.step setup now s e).1 (r'.step setup now' s' e).1 ∧
      r'.deeds setup (r'.heeded e) (r'.step setup now' s' e).1.2 =
        r.deeds setup (r.heeded e) (r.step setup now s e).1.2 := by
  have hstep : Abreast site (r.step setup now s e).1 (r'.step setup now' s' e).1 := by
    unfold step
    rw [h.twin.heeded]
    exact react_abreast hs hn h he hq hr now now'
  refine ⟨hstep, ?_⟩
  rw [h.twin.heeded]
  exact h.twin.deeds hstep.twin _

/-- **A run that has its slot** goes on in the same way if it finds a live marker in both places, or in none,
whatever the two waited for. -/
theorem enter_twin (setup : Setup) {phase : Phase} (h : Twin { r with phase } r') (s s' : Shared)
    {now now' : Nat}
    (hl : s'.markers.read now' r.name = some true ↔ s.markers.read now r.name = some true)
    (configuration : Bytes) :
    Twin (enter setup now s r configuration).2 (enter setup now' s' r' configuration).2 := by
  obtain ⟨number, deadline, -⟩ := h
  unfold enter
  dsimp only
  by_cases hlive : s.markers.read now r.name = some true
  · have hclaim : s.markers.claim now r.name = (false, s.markers) := if_pos hlive
    have hclaim' : s'.markers.claim now' r.name = (false, s'.markers) := if_pos (hl.mpr hlive)
    simp only [name] at hclaim hclaim' ⊢
    rw [hclaim, hclaim']
    exact .mk number _ rfl
  · have hclaim : s.markers.claim now r.name = (true, s.markers.set now r.name) := if_neg hlive
    have hclaim' : s'.markers.claim now' r.name = (true, s'.markers.set now' r.name) :=
      if_neg fun hc => hlive (hl.mp hc)
    simp only [name] at hclaim hclaim' ⊢
    rw [hclaim, hclaim']
    exact .mk number _ rfl

end Abreast

end Run
end RunDispatch
