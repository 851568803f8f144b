/-
# What a run does to files

A run touches files only while it holds its marker, and then only those that are staged under its name:
the files of all other names stay as they are.

Key theorems: `Move.disk_of_not_holds`, `Move.sameBut`.
-/
import RunDispatch.Proofs.Run.Deeds
import RunDispatch.Proofs.Staging.Frame

namespace RunDispatch
namespace Run

open Staging (SameBut fileName)

section Moves

variable {setup : Setup} {now : Nat} {s s' : Shared} {r r' : Run} {e : Event}

theorem dropMarker_disk : (dropMarker s r).disk = s.disk := by
  unfold dropMarker
  split <;> rfl

theorem Sound.holds_of_holdsSlot (hs : r.Sound setup) (h : r.holdsSlot = true) : r.holds = true := by
  rw [Run.holds_of_holdsSlot h]
  exact hs.claimed_of_holdsSlot h

/-- A run that does not hold its marker leaves the files alone. -/
theorem Move.disk_of_not_holds (h : Move setup now s r e s' r') (hs : r.Sound setup)
    (hh : r.holds = false) : s'.disk = s.disk := by
  have hslot : r.holdsSlot = false := by
    refine Bool.eq_false_iff.mpr fun hc => ?_
    rw [hs.holds_of_holdsSlot hc] at hh
    cases hh
  cases h with
  | stays | notes | unread | stopsEarly | waits | stopsWaiting | finds | claims | lives | exits
  | retried | breaksWaiting | breaks => rfl
  | records finding hr result => cases result <;> exact dropMarker_disk
  | clears => exact dropMarker_disk
  | stops hc | timesOut hc | breaksInSlot _ _ _ hc =>
    rw [hc] at hslot
    cases hslot
  | prepares _ _ _ hr | stages _ _ _ _ _ hr | launches _ _ _ hr | cannotStage _ _ hr
  | fails _ hr | lacksImage _ hr | releases _ _ _ hr | retries _ _ hr | finishes _ _ hr =>
    simp [holdsSlot, hr] at hslot

/-- The file operation that a run waits for is one on a file of its own. -/
theorem finishFile_sameBut (hs : r.Sound setup) (hn : '/' ∉ r.name.toList) :
    SameBut (fileName r.name) s.disk.tree (finishFile setup s r).disk.tree := by
  have hl := fun kind => Staging.getLast_components_pathFor setup.root kind hn
  have hu : fileName r.name ≠ ".." := Staging.fileName_ne (by decide)
  have hp := hs.place
  unfold InPlace at hp
  unfold finishFile
  split
  · rename_i place kind content rest hr
    cases place with
    | looking =>
      intro p _
      rw [Staging.Disk.holds_tree]
    | makingFolders => exact fun p _ => Staging.Disk.makeParents_fileAt _ _ p
    | writing => exact Staging.Disk.write_sameBut _ content (hl kind) hu
  · rename_i file rest exit hr
    simp only [hr] at hp
    refine Staging.Disk.remove_sameBut _ ?_ hu
    rw [hp.2.2 file List.mem_cons_self]
    exact hl file.kind
  · exact .rfl

theorem dropGuard_sameBut (hs : r.Sound setup) (hn : '/' ∉ r.name.toList) :
    SameBut (fileName r.name) s.disk.tree (dropGuard s r).1.disk.tree := by
  refine Staging.release_sameBut (Staging.fileName_ne (by decide)) _ (fun f hf => ?_) _
  rw [hs.paths f hf]
  exact Staging.getLast_components_pathFor setup.root f.kind hn

theorem interrupt_sameBut (hs : r.Sound setup) (hn : '/' ∉ r.name.toList) :
    SameBut (fileName r.name) s.disk.tree (interrupt setup s r).1.disk.tree :=
  (dropGuard_sameBut hs hn).trans (finishFile_sameBut hs hn)

/-- **A run leaves the files of other names alone.** -/
theorem Move.sameBut (h : Move setup now s r e s' r') (hs : r.Sound setup)
    (hn : '/' ∉ r.name.toList) : SameBut (fileName r.name) s.disk.tree s'.disk.tree := by
  cases h with
  | stays | notes | unread | stopsEarly | waits | stopsWaiting | finds | claims | lives | exits
  | retried | breaksWaiting | breaks => exact .rfl
  | records finding hr result =>
    have hd : (recorded s r finding result).1.disk = s.disk := by
      cases result <;> exact dropMarker_disk
    rw [hd]
    exact .rfl
  | clears =>
    rw [dropMarker_disk]
    exact .rfl
  | prepares | stages | launches | releases | retries | finishes => exact finishFile_sameBut hs hn
  | cannotStage =>
    refine (finishFile_sameBut hs hn).trans ?_
    simp only [leaveSlot, dropMarker_disk]
    exact dropGuard_sameBut hs hn
  | fails => exact dropGuard_sameBut hs hn
  | lacksImage =>
    rw [dropMarker_disk]
    exact dropGuard_sameBut hs hn
  | stops | timesOut | breaksInSlot => exact interrupt_sameBut hs hn

end Moves

end Run
end RunDispatch
