/-
# Containers that may run

A container may run from the moment when its start is asked for until its end is told or it is removed. Up
to its end its run holds a slot, and so the slots bound the containers. But the slot is given back before
the container of an interrupted run is removed: a run that was told to stop in its slot, or whose time was
up there, has a container that may run beside those of the runs that took its slot. There are no others,
as long as every removal succeeds and no run breaks down or is dropped (`History.contained`).

What the deeds tell last of the container decides (`lastTold`), and a run's account says which deeds these
are in each phase.

Key definitions: `lastTold`, `mayRun`, `isClearing`, `isCutOff`, `Unhindered`, `Contained`.
Key theorems: `Account.seated`, `History.contained`.
-/
import RunDispatch.Proofs.Run.Verdict
import RunDispatch.Proofs.Worker.Slots

namespace RunDispatch

namespace Run

/-! ### What the deeds tell of the container -/

/-- What a deed tells of the container: that it may run from then on, or that it runs no more. -/
def Deed.runs? : Deed → Option Bool
  | .called (.container (.start _ _ _)) _ => some true
  | .called (.container (.wait _ _)) (.container (.exited _)) => some false
  | .called (.container (.remove _)) (.container .done) => some false
  | _ => none

def lastTold (log : List Deed) : Option Bool := (log.filterMap Deed.runs?).getLast?

theorem lastTold_append (a b : List Deed) : lastTold (a ++ b) = (lastTold b).or (lastTold a) := by
  rw [lastTold, List.filterMap_append, List.getLast?_append]
  rfl

/-- Whether the run waits for its container to be started. -/
def isStarting (r : Run) : Bool :=
  match r.phase with
  | .living (.starting _) => true
  | _ => false

/-- Whether the container of a run with these deeds may run: its start was asked for, and since then
neither its end was told nor was it removed. -/
def mayRun (log : List Deed) (r : Run) : Bool := lastTold log == some true || r.isStarting

/-- Whether the run was interrupted in its slot, and its container is being removed. -/
def isClearing (r : Run) : Bool :=
  match r.phase with
  | .compensating (.cancelled _) | .compensating (.timeout _ _) => true
  | _ => false

theorem not_isOver_of_isClearing {r : Run} (h : r.isClearing = true) : r.isOver = false := by
  unfold isClearing at h
  unfold isOver
  split at h <;> simp_all

/-- Whether the run broke down or was dropped. -/
def isCutOff (r : Run) : Bool :=
  match r.phase with
  | .broken | .dropped => true
  | _ => false

/-- Whether no removal failed. -/
def Unhindered (log : List Deed) : Prop := ∀ f, .container (.failed f) ∉ removals log

section Logs

variable {setup : Setup} {q : Request} {log : List Deed} {phase : Phase}

theorem Unhindered.sublist {log' : List Deed} (h : Unhindered log) (hs : log'.Sublist log) :
    Unhindered log' := fun f hf => h f ((hs.filterMap Deed.removal?).subset hf)

/-- A removal that did not fail is the last that is told of the container. -/
theorem lastTold_removal {cleanup : Option Container.Failure} (before after : List Deed)
    (h : Unhindered (before ++ removal q cleanup :: after)) (ha : lastTold after = none) :
    lastTold (before ++ removal q cleanup :: after) = some false := by
  cases cleanup with
  | some f =>
    refine absurd ?_ (h f)
    rw [removals_append]
    exact List.mem_append_right _ List.mem_cons_self
  | none =>
    have hone : lastTold [removal q none] = some false := rfl
    have hsplit : removal q none :: after = [removal q none] ++ after := rfl
    rw [lastTold_append, hsplit, lastTold_append, ha, Option.none_or, hone, Option.some_or]

/-- A container that came to an end of its own runs no more, whether it could be removed or not. -/
theorem lastTold_of_exit (b : Bytes) {exit : Container.Exit} {l : List Container.Exchange}
    (h : Had setup q (.ended (.ok exit)) l) : lastTold (launching q b ++ exchanged l) = some false := by
  obtain ⟨attached, chunks, rfl⟩ := h
  have hended : lastTold (exchanged (Container.whole (specFor q setup.layout) q.records exit.id attached
      exit.status chunks)) = some false := by
    cases attached <;> rfl
  have hremoved : ∀ cleanup, (lastTold (exchanged [(.remove (specFor q setup.layout).name,
      Container.removalReply cleanup)])).or (some false) = some false := by
    intro cleanup
    cases cleanup <;> rfl
  have hsplit : ∀ x y : List Container.Exchange, exchanged (x ++ y) = exchanged x ++ exchanged y :=
    fun x y => List.map_append
  rw [lastTold_append, hsplit, lastTold_append, hended, hremoved, Option.some_or]

/-- A container that failed was removed, or never made. -/
theorem lastTold_of_failed (b : Bytes) {f : Container.Failure} {l : List Container.Exchange}
    (h : Had setup q (.ended (.error f)) l) (hu : Unhindered (launching q b ++ exchanged l)) :
    lastTold (launching q b ++ exchanged l) ≠ some true := by
  rcases h with rfl | ⟨inner, cleanup, rfl, -⟩
  · have hnone : lastTold (launching q b ++ exchanged
        [(.pull (specFor q setup.layout).image, .failed f)]) = none := rfl
    rw [hnone]
    exact (Option.some_ne_none true).symm
  · have hsplit : launching q b ++ exchanged (Container.pulled (specFor q setup.layout) :: inner ++
        [(.remove (specFor q setup.layout).name, Container.removalReply cleanup)]) =
        (launching q b ++ exchanged (Container.pulled (specFor q setup.layout) :: inner)) ++
          [removal q cleanup] := by
      simp [exchanged, removal, specFor]
    rw [hsplit] at hu ⊢
    rw [lastTold_removal _ [] hu rfl]
    exact fun he => Bool.noConfusion (Option.some.inj he)

theorem Account.lastTold_of_recording {finding : Finding} (h : Account setup q (.recording finding) log)
    (hu : Unhindered log) : lastTold log ≠ some true := by
  cases h with
  | found b => nofun
  | removed b h hc =>
    rw [lastTold_of_exit b h]
    nofun
  | triedAgain b h hc cleanup =>
    rw [lastTold_removal _ [] hu rfl]
    nofun

theorem lastTold_settling (finding : Finding) (result : Except StoreError Unit) :
    lastTold (settling q finding result) = none := by
  unfold settling
  cases finding.dispatched <;> rfl

/-- **Where a run is whose container may run**, if no removal failed: in its slot, being compensated after
an interruption there, or cut off. -/
theorem Account.seated (h : Account setup q phase log) (hu : Unhindered log)
    (hr : lastTold log = some true) :
    (inPhase q phase).holdsSlot = true ∨ (inPhase q phase).isClearing = true ∨
      (inPhase q phase).isCutOff = true := by
  by_cases hrec : ∃ finding, phase = .recording finding
  · obtain ⟨finding, rfl⟩ := hrec
    exact absurd hr (h.lastTold_of_recording hu)
  cases h with
  | staging | living | releasing => exact .inl rfl
  | interrupted _ _ _ f hf =>
    rcases hf with rfl | rfl
    · exact .inr (.inl rfl)
    · exact .inr (.inl rfl)
  | broke | dropped => exact .inr (.inr rfl)
  | retrying b h hc =>
    rw [lastTold_of_exit b h] at hr
    cases hr
  | found | removed | triedAgain => exact absurd ⟨_, rfl⟩ hrec
  | fails b h hf => exact absurd hr (lastTold_of_failed b h hu)
  | lacksImage b h hf =>
    have hdelete : lastTold [.delete] = none := rfl
    rw [lastTold_append, hdelete, Option.none_or] at hr
    exact absurd hr (lastTold_of_failed b h (hu.sublist (List.sublist_append_left _ _)))
  | cleared h cleanup =>
    rw [lastTold_removal _ [.delete] hu rfl] at hr
    cases hr
  | stored h result =>
    rw [lastTold_append, lastTold_settling, Option.none_or] at hr
    exact absurd hr (h.lastTold_of_recording (hu.sublist (List.sublist_append_left _ _)))
  | reading | queued | unread | stopped | unstaged => cases hr

end Logs

end Run

namespace Worker

/-- How many runs have a container that may run. -/
def running (log : List Entry) (w : Worker) : Nat :=
  w.tasks.countP fun t => t.run.mayRun (deedsOf t.run.number log)

/-- How many interrupted runs have their container removed at the moment. -/
def clearing (w : Worker) : Nat := w.tasks.countP fun t => t.run.isClearing

/-- How many runs broke down or were dropped. -/
def cutOff (w : Worker) : Nat := w.tasks.countP fun t => t.run.isCutOff

/-- What a worker's `m` slots have to do with its containers. -/
structure Contained (m : Nat) (log : List Entry) (w : Worker) : Prop where
  /-- A run whose container may run is in its slot, or was interrupted there and has its container
  removed, or was cut off. -/
  seated : ∀ i r, w.run? i = some r → r.mayRun (deedsOf i log) = true →
    r.holdsSlot = true ∨ r.isClearing = true ∨ r.isCutOff = true
  /-- There are no more of them than slots in use, interrupted runs and runs that were cut off. -/
  counted : w.running log + w.availableSlots ≤ m + w.clearing + w.cutOff
  /-- Once all runs are over, and none was cut off, none is left. -/
  cleared : (∀ i r, w.run? i = some r → r.isOver = true ∧ r.isCutOff = false) → w.running log = 0

section Histories

variable {P : Nat → Worker → Prop} {w₀ w : Worker} {now m : Nat} {log : List Entry}

theorem deedsOf_sublist (i : Nat) (log : List Entry) :
    (deedsOf i log).Sublist (log.map (·.deed)) :=
  List.Sublist.map _ List.filter_sublist

theorem History.seated (h : History P w₀ now log w) (h0 : w₀.tasks = [])
    (hu : Run.Unhindered (log.map (·.deed))) {i : Nat} {r : Run} (hr : w.run? i = some r)
    (hm : r.mayRun (deedsOf i log) = true) :
    r.holdsSlot = true ∨ r.isClearing = true ∨ r.isCutOff = true := by
  by_cases hs : r.isStarting = true
  · refine .inl ?_
    unfold Run.isStarting at hs
    unfold Run.holdsSlot
    split at hs
    · rename_i hp
      rw [hp]
    · cases hs
  · obtain ⟨s₀, hco⟩ := h.course h0 hr
    have hlast : Run.lastTold (deedsOf i log) = some true := by
      rw [Run.mayRun, Bool.or_eq_true, beq_iff_eq] at hm
      exact hm.resolve_right hs
    exact hco.account.seated (hu.sublist (deedsOf_sublist i log)) hlast

/-- What is covered by three kinds is no more than there is of them. -/
theorem countP_le_of_covered {α : Type} {l : List α} {p a b c : α → Bool}
    (h : ∀ x ∈ l, p x = true → a x = true ∨ b x = true ∨ c x = true) :
    l.countP p ≤ l.countP a + l.countP b + l.countP c := by
  induction l with
  | nil => exact Nat.zero_le _
  | cons x rest ih =>
    have hrest := ih fun y hy => h y (List.mem_cons_of_mem x hy)
    have hone : (if p x then 1 else 0) ≤
        (if a x then 1 else 0) + (if b x then 1 else 0) + (if c x then 1 else 0) := by
      by_cases hp : p x = true
      · rcases h x List.mem_cons_self hp with hx | hx | hx <;> rw [if_pos hp, if_pos hx] <;> omega
      · rw [if_neg hp]
        exact Nat.zero_le _
    rw [List.countP_cons, List.countP_cons, List.countP_cons, List.countP_cons]
    omega

/-- **The slots bound the containers of all runs but those that were interrupted or cut off**, as long as
no removal fails. -/
theorem History.contained (h : History P w₀ now log w) (h0 : w₀.tasks = [])
    (hm : w₀.shared.slots = ⟨m, [], []⟩) (hu : Run.Unhindered (log.map (·.deed))) :
    Contained m log w := by
  have hbounded := h.bounded h0 hm
  have hseated : ∀ t ∈ w.tasks, t.run.mayRun (deedsOf t.run.number log) = true →
      t.run.holdsSlot = true ∨ t.run.isClearing = true ∨ t.run.isCutOff = true := by
    intro t ht hrun
    obtain ⟨i, hi⟩ := List.mem_iff_getElem?.mp ht
    have hr : w.run? i = some t.run := by rw [run?, hi, Option.map_some]
    rw [h.number_eq h0 hr] at hrun
    exact h.seated h0 hu hr hrun
  refine ⟨fun i r hr => h.seated h0 hu hr, ?_, fun hover => ?_⟩
  · have hsplit : w.running log ≤ w.occupied + w.clearing + w.cutOff :=
      countP_le_of_covered fun t ht hrun => by
        refine (hseated t ht hrun).imp_left fun hs => ?_
        rw [hasSlot, hs, Bool.true_or]
    have hslots : w.availableSlots + w.occupied = m := hbounded.counted
    omega
  · refine List.countP_eq_zero.mpr fun t ht hrun => ?_
    obtain ⟨i, hi⟩ := List.mem_iff_getElem?.mp ht
    have hr : w.run? i = some t.run := by rw [run?, hi, Option.map_some]
    obtain ⟨ho, hc⟩ := hover i t.run hr
    rcases hseated t ht hrun with hs | hs | hs
    · rw [Run.not_isOver_of_holdsSlot hs] at ho
      cases ho
    · rw [Run.not_isOver_of_isClearing hs] at ho
      cases ho
    · rw [hc] at hs
      cases hs

end Histories

/-! ### A container beside the one that took its slot -/

def single : Worker := { sample with shared.slots := ⟨1, [], []⟩ }

def launch (now number : Nat) (id : String) : List (Nat × Event) :=
  [(now, .run number (.configuration (.ok []))), (now, .run number .file), (now, .run number .file),
    (now, .run number (.container .done)), (now, .run number (.container (.created id))),
    (now, .run number (.container (.started false)))]

/-- A run is told to stop while its container runs, and another run starts its own before the first
container was removed. -/
def relay : List (Nat × Event) :=
  [(0, .spawn Run.sampleRequest true), (0, .spawn { Run.sampleRequest with containerName := "d" } true)] ++
    launch 1 0 "x" ++ [(2, .run 0 .cancel)] ++ launch 3 1 "y"

def relayed : List Entry × Worker := play ([], single) relay

def started (q : Request) (id : String) : List Run.Deed :=
  Run.launching q [] ++ Run.exchanged [Container.pulled (specFor q single.setup.layout),
    Container.made (specFor q single.setup.layout) id,
    Container.ran (specFor q single.setup.layout) q.records id false]

theorem relayed_told :
    relayed.2.tasks.map (·.run.name) = ["c", "d"] ∧
    Run.removals (relayed.1.map (·.deed)) = [] ∧
    deedsOf 0 relayed.1 = started Run.sampleRequest "x" ++
      [.called (.container (.wait "x" "c")) .cancel] ∧
    deedsOf 1 relayed.1 = started { Run.sampleRequest with containerName := "d" } "y" ∧
    relayed.2.running relayed.1 = 2 := by
  decide +kernel

theorem sample_contained :
    (Scheduled (fun _ _ => True) 0 single relay ∧ single.tasks = [] ∧
      single.shared.slots = ⟨1, [], []⟩ ∧ Run.Unhindered (relayed.1.map (·.deed))) ∧
    Contained 1 relayed.1 relayed.2 := by
  have hs : Scheduled (fun _ _ => True) 0 single relay := by decide
  have hu : Run.Unhindered (relayed.1.map (·.deed)) := fun f hf => by
    rw [relayed_told.2.1] at hf
    cases hf
  exact ⟨⟨hs, rfl, rfl, hu⟩, ((History.start 0).plays relay hs).contained rfl rfl hu⟩

/-- **One slot, two containers**: both were started, and neither has ended or been removed. -/
theorem sample_overlapped :
    (single.tasks = [] ∧ single.shared.slots = ⟨1, [], []⟩) ∧
    History (fun _ _ => True) single 3 relayed.1 relayed.2 ∧
    (relayed.2.tasks.map (·.run.name)).Nodup ∧ Run.Unhindered (relayed.1.map (·.deed)) ∧
    deedsOf 0 relayed.1 = started Run.sampleRequest "x" ++
      [.called (.container (.wait "x" "c")) .cancel] ∧
    deedsOf 1 relayed.1 = started { Run.sampleRequest with containerName := "d" } "y" ∧
    relayed.2.running relayed.1 = 2 := by
  have hs : Scheduled (fun _ _ => True) 0 single relay := by decide
  obtain ⟨hnames, hremovals, htold⟩ := relayed_told
  refine ⟨⟨rfl, rfl⟩, (History.start 0).plays relay hs, ?_, fun f hf => ?_, htold⟩
  · rw [hnames]
    decide
  · rw [hremovals] at hf
    cases hf

end Worker
end RunDispatch
