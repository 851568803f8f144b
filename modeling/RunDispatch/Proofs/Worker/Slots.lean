/-
# Slots are bounded and none is lost

A run takes a slot with its configuration, or when one is given to it while it waits, and leaves it with
the last thing that it does there: when its marker is found, when staging fails, with the end of its
container or the last staged file, and wherever it is interrupted. In whatever order the runs do so, every
slot is free or has its run.

A run stands in one of three places with regard to the slots (`Seat`). What a move does to the slots is
told by the place of the run before and after it (`Move.reseats`), and the slots are accounted for by the
places of all runs (`Allotted`): those in a slot and the slots in nobody's use are as many as there are
slots, the line is made up of the runs that wait, and nobody waits while a slot is free.

Key definitions: `Seat`, `Reseats`, `Allotted`, `occupied`, `Bounded`.
Key theorems: `Move.reseats`, `Allotted.reseats`, `History.allotted`, `History.bounded`.
-/
import Mathlib.Data.List.Range
import Mathlib.Data.List.Perm.Basic
import Mathlib.Logic.Function.Basic
import RunDispatch.Proofs.Worker.Exclusion

namespace RunDispatch

namespace Run

/-- Where a run stands with regard to the slots. -/
inductive Seat where
  | none
  | waiting
  | inSlot
  deriving DecidableEq

def Phase.seat : Phase → Seat
  | .queued _ => .waiting
  | .staging _ _ | .living _ | .releasing _ _ => .inSlot
  | _ => .none

theorem seat_eq_inSlot_iff {r : Run} : r.phase.seat = .inSlot ↔ r.holdsSlot = true := by
  unfold Phase.seat holdsSlot
  split <;> simp_all

theorem seat_of_holdsSlot {r : Run} (h : r.holdsSlot = true) : r.phase.seat = .inSlot :=
  seat_eq_inSlot_iff.mpr h

theorem seat_of_isOver {r : Run} (h : r.isOver = true) : r.phase.seat = .none := by
  unfold isOver at h
  unfold Phase.seat
  split at h <;> simp_all

namespace Slots

/-- The runs that wait for a slot, with those that were given one and have not noticed yet. -/
def line (s : Slots) : List Nat := s.waiting ++ s.granted

theorem line_leave (s : Slots) : s.leave.line.Perm s.line := by
  unfold leave line
  split
  · rename_i h
    simp [h]
  · rename_i n rest h
    rw [h, ← List.append_assoc]
    exact List.perm_append_singleton n (rest ++ s.granted)

theorem line_takeUp {s s' : Slots} {n : Nat} (h : s.takeUp n = (true, s')) (hn : s.line.Nodup) :
    n ∈ s.line ∧ s'.line = s.line.erase n := by
  unfold takeUp at h
  split at h
  · rename_i hg
    cases h
    have hw : n ∉ s.waiting := fun hw => (List.nodup_append.mp hn).2.2 n hw n hg rfl
    exact ⟨List.mem_append_right _ hg, (List.erase_append_right _ hw).symm⟩
  · cases h

/-- A run that gives up leaves the line. -/
theorem line_giveUp {s : Slots} {n : Nat} (hn : s.line.Nodup) (h : n ∈ s.line) :
    (s.giveUp n).line.Perm (s.line.erase n) := by
  unfold giveUp
  split
  · rename_i s' e
    rw [← (line_takeUp e hn).2]
    exact s'.line_leave
  · rename_i s' e
    unfold takeUp at e
    split at e
    · cases e
    · rename_i hg
      cases e
      have hw : n ∈ s.waiting := (List.mem_append.mp h).resolve_right hg
      simp only [line, List.erase_append_left _ hw, List.Perm.refl]

/-- Whoever leaves a slot frees it only when nobody waits. -/
theorem busy_leave {s : Slots} (h : s.waiting ≠ [] → s.free = 0) :
    s.leave.waiting ≠ [] → s.leave.free = 0 := by
  unfold leave
  split
  · rename_i hw
    exact fun hne => absurd hw hne
  · rename_i hw
    exact fun _ => h (by simp [hw])

theorem leave_acquire {s s' : Slots} {n : Nat} (h : s.acquire n = (true, s'))
    (hb : s.waiting ≠ [] → s.free = 0) : s'.leave = s := by
  unfold acquire at h
  split at h
  · rename_i hf
    cases h
    have hw : s.waiting = [] := Classical.byContradiction fun hne => by
      rw [hb hne] at hf
      exact absurd hf (Nat.lt_irrefl 0)
    simp only [leave, hw]
    rw [Nat.sub_add_cancel hf, ← hw]
  · cases h

end Slots

/-! ### What a move does to the slots -/

/-- What becomes of the slots when run `n` comes from one place to another. -/
inductive Reseats (n : Nat) (s : Slots) : Seat → Slots → Seat → Prop
  | stays (x : Seat) : Reseats n s x s x
  | waits (s' : Slots) (h : s.acquire n = (false, s')) : Reseats n s .none s' .waiting
  | sits (s' : Slots) (h : s.acquire n = (true, s')) : Reseats n s .none s' .inSlot
  /-- The run takes a slot and leaves it at once. -/
  | visits (s' : Slots) (h : s.acquire n = (true, s')) : Reseats n s .none s'.leave .none
  | takesUp (s' : Slots) (h : s.takeUp n = (true, s')) : Reseats n s .waiting s' .inSlot
  | givesUp : Reseats n s .waiting (s.giveUp n) .none
  | leaves : Reseats n s .inSlot s.leave .none

section Moves

variable {setup : Setup} {now : Nat} {s s' : Shared} {r r' : Run} {e : Event}

@[simp] theorem finishFile_slots : (finishFile setup s r).slots = s.slots := by
  unfold finishFile
  split
  · split <;> rfl
  · rfl
  · rfl

@[simp] theorem dropMarker_slots : (dropMarker s r).slots = s.slots := by
  unfold dropMarker
  split <;> rfl

@[simp] theorem dropGuard_slots : (dropGuard s r).1.slots = s.slots := rfl

@[simp] theorem leaveSlot_slots : (leaveSlot s).slots = s.slots.leave := rfl

@[simp] theorem interrupt_slots : (interrupt setup s r).1.slots = s.slots.leave := by
  simp [interrupt]

/-- A run that finds its marker has visited a slot: one that was free, or one that it was given. -/
theorem Admitted.visits {b : Bytes} {slots : Slots} (h : Admitted s r e b slots) :
    Reseats r.number s.slots r.phase.seat slots.leave .none := by
  rcases h with ⟨hr, -, -, ha⟩ | ⟨hr, -, ht⟩
  · rw [hr]
    exact .visits slots ha
  · have hg : slots.leave = s.slots.giveUp r.number := by simp only [Slots.giveUp, ht]
    rw [hr, hg]
    exact .givesUp

theorem Admitted.sits {b : Bytes} {slots : Slots} (h : Admitted s r e b slots) :
    Reseats r.number s.slots r.phase.seat slots .inSlot := by
  rcases h with ⟨hr, -, -, ha⟩ | ⟨hr, -, ht⟩
  · rw [hr]
    exact .sits slots ha
  · rw [hr]
    exact .takesUp slots ht

/-- **What a move does to the slots** is told by where the run stands before and after it. -/
theorem Move.reseats (h : Move setup now s r e s' r') :
    Reseats r.number s.slots r.phase.seat s'.slots r'.phase.seat := by
  cases h with
  | stays => exact .stays _
  | notes => exact .stays _
  | unread hr =>
    rw [hr]
    exact .stays _
  | stopsEarly hr =>
    rw [hr]
    exact .stays _
  | waits hr b slots hs =>
    rw [hr]
    exact .waits slots hs
  | stopsWaiting b hr =>
    rw [hr]
    exact .givesUp
  | finds e b slots ha => exact ha.visits
  | claims e b slots ha => exact ha.sits
  | prepares place next left hr | stages place next kind content rest hr
  | launches place kind content hr | releases file rest exit hr =>
    rw [hr, finishFile_slots]
    exact .stays _
  | cannotStage place left hr =>
    rw [hr]
    simp only [leaveSlot_slots, dropMarker_slots, dropGuard_slots, finishFile_slots]
    exact .leaves
  | lives stage next hr =>
    rw [hr]
    exact .stays _
  | fails stage hr =>
    rw [hr]
    exact .leaves
  | lacksImage stage hr =>
    rw [hr, dropMarker_slots]
    exact .leaves
  | exits stage hr =>
    rw [hr]
    exact .stays _
  | retries file exit hr | finishes file exit hr =>
    rw [hr, leaveSlot_slots, finishFile_slots]
    exact .leaves
  | retried exit hr =>
    rw [hr]
    exact .stays _
  | records finding hr result =>
    rw [hr]
    cases result <;> (simp only [recorded, dropMarker_slots]; exact .stays _)
  | clears f hr =>
    rw [hr, dropMarker_slots]
    exact .stays _
  | stops hh | timesOut hh =>
    rw [seat_of_holdsSlot hh, interrupt_slots]
    exact .leaves
  | breaksWaiting e phase he b hr =>
    rw [hr]
    rcases eq_of_fatal he with rfl | rfl <;> exact .givesUp
  | breaksInSlot e phase he hh =>
    rw [seat_of_holdsSlot hh, interrupt_slots]
    rcases eq_of_fatal he with rfl | rfl <;> exact .leaves
  | breaks e phase he ho hh hq =>
    have hr : r.phase.seat = .none := by
      unfold Phase.seat
      split
      · rename_i b hr
        exact absurd hr (hq b)
      all_goals simp_all [holdsSlot]
    rw [hr]
    rcases eq_of_fatal he with rfl | rfl <;> exact .stays _

theorem Move.disk_of_not_holdsSlot (h : Move setup now s r e s' r') (hh : r.holdsSlot = false) :
    s'.disk = s.disk := by
  have hne : r.phase.seat ≠ .inSlot := fun hs => by
    rw [seat_eq_inSlot_iff.mp hs] at hh
    cases hh
  cases h with
  | stays | notes | unread | stopsEarly | waits | stopsWaiting | finds | claims | lives | exits
  | retried | breaksWaiting | breaks => rfl
  | prepares _ _ _ h | stages _ _ _ _ _ h | launches _ _ _ h | cannotStage _ _ h | fails _ h
  | lacksImage _ h | releases _ _ _ h | retries _ _ h | finishes _ _ h =>
    exact absurd (by rw [h]; rfl) hne
  | stops h | timesOut h | breaksInSlot _ _ _ h => exact absurd (seat_of_holdsSlot h) hne
  | records finding h result => cases result <;> exact dropMarker_disk
  | clears => exact dropMarker_disk

/-- **A run that claims its marker has just taken a slot**, and has it still exactly if it wins. -/
theorem Move.claims_in_slot (h : Move setup now s r e s' r') {won : Bool}
    (hs : r.Sound setup) (hc : .claim won ∈ r.deeds setup e r') :
    ∃ b slots, Admitted s r e b slots ∧ r'.holdsSlot = won ∧
      s'.slots = if won then slots else slots.leave := by
  obtain ⟨hd, hd', hw⟩ := claim_mem_deeds.mp hc
  obtain ⟨hholds, -, -⟩ := h.claim hs hc
  cases h with
  | finds e b slots ha =>
    have hwon : won = false := by
      refine Bool.eq_false_iff.mpr fun ht => ?_
      rw [ht] at hw
      have hr := hs.timed hw
      rw [hd] at hr
      cases hr
    rw [hwon]
    exact ⟨b, slots, ha, rfl, rfl⟩
  | claims e b slots ha =>
    cases hw
    exact ⟨b, slots, ha, rfl, rfl⟩
  | records finding hr result =>
    have hr' : (recorded s r finding result).2.deadline = r.deadline := by cases result <;> rfl
    rw [hr', hd] at hd'
    cases hd'
  | _ =>
    have hn : r.deadline.isSome = true := hd'
    rw [hd] at hn
    cases hn

end Moves

/-- A run that asks the runtime is in its slot, unless it asks for the removal of its container. -/
theorem holdsSlot_of_asks {setup : Setup} {r : Run} {ask : Container.Ask}
    (h : r.call? setup = some (.container ask)) (hn : ∀ n, ask ≠ .remove n) : r.holdsSlot = true := by
  unfold call? at h
  split at h
  · cases h
  · rename_i hr
    simp [holdsSlot, hr]
  · cases h
    exact absurd rfl (hn _)
  · cases h
    exact absurd rfl (hn _)
  · cases h
  · cases h

/-! ### All places together -/

/-- A list of just the runs that stand in a place. -/
def Lists (seat : Nat → Seat) (x : Seat) (l : List Nat) : Prop :=
  l.Nodup ∧ ∀ n, n ∈ l ↔ seat n = x

section Lists

variable {seat : Nat → Seat} {x y : Seat} {l : List Nat} {n : Nat}

theorem Lists.perm (h : Lists seat x l) {l' : List Nat} (hp : l'.Perm l) : Lists seat x l' :=
  ⟨hp.nodup_iff.mpr h.1, fun k => hp.mem_iff.trans (h.2 k)⟩

theorem Lists.add (h : Lists seat x l) (hn : seat n ≠ x) :
    Lists (Function.update seat n x) x (n :: l) := by
  refine ⟨List.nodup_cons.mpr ⟨fun hm => hn ((h.2 n).mp hm), h.1⟩, fun k => ?_⟩
  by_cases hk : k = n
  · simp [hk]
  · rw [Function.update_of_ne hk, List.mem_cons, or_iff_right hk]
    exact h.2 k

theorem Lists.drop (h : Lists seat x l) (hy : y ≠ x) :
    Lists (Function.update seat n y) x (l.erase n) := by
  refine ⟨h.1.erase n, fun k => ?_⟩
  rw [h.1.mem_erase_iff]
  by_cases hk : k = n
  · simp [hk, hy]
  · rw [Function.update_of_ne hk, and_iff_right hk]
    exact h.2 k

theorem Lists.keep (h : Lists seat x l) (hn : seat n ≠ x) (hy : y ≠ x) :
    Lists (Function.update seat n y) x l := by
  refine ⟨h.1, fun k => ?_⟩
  by_cases hk : k = n
  · rw [hk, Function.update_self]
    exact ⟨fun hm => absurd ((h.2 n).mp hm) hn, fun hyx => absurd hyx hy⟩
  · rw [Function.update_of_ne hk]
    exact h.2 k

end Lists

/-- `m` slots are accounted for: whoever is in one and those in nobody's use are as many, the line is made
up of the runs that wait, and nobody waits while a slot is free. -/
structure Allotted (m : Nat) (seat : Nat → Seat) (s : Slots) : Prop where
  held : ∃ holders, Lists seat .inSlot holders ∧ s.unused + holders.length = m
  line : Lists seat .waiting s.line
  busy : s.waiting ≠ [] → s.free = 0

theorem allotted_start (m : Nat) : Allotted m (fun _ => .none) ⟨m, [], []⟩ where
  held := ⟨[], ⟨List.nodup_nil, fun n => by simp⟩, by simp [Slots.unused]⟩
  line := ⟨List.nodup_nil, fun n => by simp [Slots.line]⟩
  busy h := absurd rfl h

section Allotted

variable {m n : Nat} {seat : Nat → Seat} {s s' : Slots}

theorem Allotted.waits (h : Allotted m seat s) (hn : seat n = .none)
    (ha : s.acquire n = (false, s')) : Allotted m (Function.update seat n .waiting) s' := by
  have hu := s.unused_acquire n
  rw [ha] at hu
  unfold Slots.acquire at ha
  split at ha
  · cases ha
  · rename_i hf
    cases ha
    obtain ⟨holders, hl, hm⟩ := h.held
    refine ⟨⟨holders, hl.keep (by simp [hn]) (by simp), ?_⟩, ?_, fun _ => Nat.eq_zero_of_not_pos hf⟩
    · simp only [Bool.false_eq_true, if_false, Nat.add_zero] at hu
      rw [hu, hm]
    · refine (h.line.add (by simp [hn])).perm ?_
      simp only [Slots.line, List.append_assoc, List.singleton_append]
      exact List.perm_middle

theorem Allotted.sits (h : Allotted m seat s) (hn : seat n = .none)
    (ha : s.acquire n = (true, s')) : Allotted m (Function.update seat n .inSlot) s' := by
  have hu := s.unused_acquire n
  rw [ha] at hu
  simp only [if_true] at hu
  unfold Slots.acquire at ha
  split at ha
  · rename_i hf
    cases ha
    obtain ⟨holders, hl, hm⟩ := h.held
    refine ⟨⟨n :: holders, hl.add (by simp [hn]), ?_⟩, h.line.keep (by simp [hn]) (by simp), ?_⟩
    · rw [List.length_cons]
      omega
    · intro hw
      have := h.busy hw
      omega
  · cases ha

theorem Allotted.takesUp (h : Allotted m seat s) (hn : seat n = .waiting)
    (ht : s.takeUp n = (true, s')) : Allotted m (Function.update seat n .inSlot) s' := by
  have hu := s.unused_takeUp n
  rw [ht] at hu
  simp only [if_true] at hu
  obtain ⟨hmem, hline⟩ := Slots.line_takeUp ht h.line.1
  obtain ⟨holders, hl, hm⟩ := h.held
  refine ⟨⟨n :: holders, hl.add (by simp [hn]), ?_⟩, ?_, ?_⟩
  · rw [List.length_cons]
    omega
  · rw [hline]
    exact h.line.drop (by simp)
  · unfold Slots.takeUp at ht
    split at ht
    · cases ht
      exact h.busy
    · cases ht

theorem Allotted.givesUp (h : Allotted m seat s) (hn : seat n = .waiting) :
    Allotted m (Function.update seat n .none) (s.giveUp n) := by
  obtain ⟨holders, hl, hm⟩ := h.held
  refine ⟨⟨holders, hl.keep (by simp [hn]) (by simp), ?_⟩, ?_, ?_⟩
  · rw [s.unused_giveUp]
    exact hm
  · exact (h.line.drop (by simp)).perm (Slots.line_giveUp h.line.1 ((h.line.2 n).mpr hn))
  · unfold Slots.giveUp
    split
    · rename_i u ht
      refine Slots.busy_leave ?_
      unfold Slots.takeUp at ht
      split at ht
      · cases ht
        exact h.busy
      · cases ht
    · rename_i u ht
      unfold Slots.takeUp at ht
      split at ht
      · cases ht
      · cases ht
        exact fun hw => h.busy fun he => hw (by simp [he])

theorem Allotted.leaves (h : Allotted m seat s) (hn : seat n = .inSlot) :
    Allotted m (Function.update seat n .none) s.leave := by
  obtain ⟨holders, hl, hm⟩ := h.held
  have hmem : n ∈ holders := (hl.2 n).mpr hn
  refine ⟨⟨holders.erase n, hl.drop (by simp), ?_⟩, ?_, Slots.busy_leave h.busy⟩
  · have := List.length_pos_of_mem hmem
    rw [s.unused_leave, List.length_erase_of_mem hmem]
    omega
  · exact (h.line.keep (by simp [hn]) (by simp)).perm s.line_leave

/-- **No slot is lost** when a run comes from one place to another. -/
theorem Allotted.reseats {x : Seat} (h : Allotted m seat s) (hr : Reseats n s (seat n) s' x) :
    Allotted m (Function.update seat n x) s' := by
  generalize hn : seat n = y at hr
  cases hr with
  | stays =>
    rw [← hn, Function.update_eq_self]
    exact h
  | waits s' ha => exact h.waits hn ha
  | sits s' ha => exact h.sits hn ha
  | visits s' ha =>
    rw [Slots.leave_acquire ha h.busy, ← hn, Function.update_eq_self]
    exact h
  | takesUp s' ht => exact h.takesUp hn ht
  | givesUp => exact h.givesUp hn
  | leaves => exact h.leaves hn

end Allotted

end Run

namespace Worker

/-! ### The slots of a worker -/

def seat (w : Worker) (number : Nat) : Run.Seat :=
  ((w.run? number).map (·.phase.seat)).getD .none

/-- Whether a run has a slot: it is in one, or was given one that it has not noticed yet. -/
def hasSlot (w : Worker) (r : Run) : Bool :=
  r.holdsSlot || decide (r.number ∈ w.shared.slots.granted)

/-- How many runs have a slot. -/
def occupied (w : Worker) : Nat := w.tasks.countP fun t => w.hasSlot t.run

section Histories

variable {P : Nat → Worker → Prop} {w₀ w : Worker} {now m : Nat} {log : List Entry}

theorem seat_of_run? {i : Nat} {r : Run} (h : w.run? i = some r) : w.seat i = r.phase.seat := by
  simp [seat, h]

theorem History.number_eq (h : History P w₀ now log w) (h0 : w₀.tasks = []) {i : Nat} {r : Run}
    (hr : w.run? i = some r) : r.number = i := by
  obtain ⟨s₀, hco⟩ := h.course h0 hr
  exact hco.same.1

theorem Rests.seat {i : Nat} {x y : Option Run} (h : Rests i x y) :
    (y.map (·.phase.seat)).getD .none = (x.map (·.phase.seat)).getD .none := by
  cases h <;> rfl

/-- **The slots are accounted for** whatever the runs do. -/
theorem History.allotted (h : History P w₀ now log w) (h0 : w₀.tasks = [])
    (hm : w₀.shared.slots = ⟨m, [], []⟩) : Run.Allotted m w.seat w.shared.slots := by
  refine h.along (C := fun _ _ w => Run.Allotted m w.seat w.shared.slots) (fun _ => ?_) ?_
  · have hseat : w₀.seat = fun _ => .none := by
      funext i
      simp [seat, run?, h0]
    rw [hseat, hm]
    exact Run.allotted_start m
  · intro now now' log w w' entries h _ _ _ hc ih
    cases hc with
    | acts number r e hr ho hs hw =>
      have hmove := (h.move h0 hr now' e).reseats
      rw [← seat_of_run? hr, (h.number_eq h0 hr)] at hmove
      have hseat : w'.seat = Function.update w.seat number
          (r.step w.setup now' w.shared e).1.2.phase.seat := by
        funext i
        simp only [seat, hw i, Function.update_apply]
        split <;> rfl
      rw [hseat, hs]
      exact ih.reseats hmove
    | rests hw _ hs =>
      have hseat : w'.seat = w.seat := by
        funext i
        exact (hw i).seat
      rw [hseat, hs]
      exact ih

/-- As many tasks are so as there are places of such tasks. -/
theorem countP_eq_length {α : Type} {l : List α} {p : α → Bool} {places : List Nat}
    (hn : places.Nodup) (h : ∀ i, i ∈ places ↔ ∃ a, l[i]? = some a ∧ p a = true) :
    l.countP p = places.length := by
  have hl : l.countP p = ((l.zipIdx.filter fun x => p x.1).map (·.2)).length := by
    rw [List.length_map, ← List.countP_eq_length_filter]
    conv_lhs => rw [← List.zipIdx_map_fst 0 l, List.countP_map]
    rfl
  have hd : ((l.zipIdx.filter fun x => p x.1).map (·.2)).Nodup := by
    refine List.Nodup.sublist ((List.filter_sublist).map _) ?_
    rw [List.zipIdx_map_snd]
    exact List.nodup_range'
  rw [hl]
  refine ((List.perm_ext_iff_of_nodup hd hn).mpr fun i => ?_).length_eq
  rw [h i]
  constructor
  · intro hi
    obtain ⟨⟨a, j⟩, hx, rfl⟩ := List.mem_map.mp hi
    obtain ⟨hm, hp⟩ := List.mem_filter.mp hx
    exact ⟨a, List.mem_zipIdx_iff_getElem?.mp hm, hp⟩
  · rintro ⟨a, ha, hp⟩
    exact List.mem_map.mpr ⟨(a, i), List.mem_filter.mpr ⟨List.mem_zipIdx_iff_getElem?.mpr ha, hp⟩, rfl⟩

/-- The runs that have a slot are those in one, and those in the line that were given one. -/
theorem History.occupied_eq (h : History P w₀ now log w) (h0 : w₀.tasks = []) {holders : List Nat}
    (hl : Run.Lists w.seat .inSlot holders) (hw : Run.Lists w.seat .waiting w.shared.slots.line) :
    w.occupied = (holders ++ w.shared.slots.granted).length := by
  have hgranted : ∀ n ∈ w.shared.slots.granted, w.seat n = .waiting := fun n hn =>
    (hw.2 n).mp (List.mem_append_right _ hn)
  refine countP_eq_length ?_ fun i => ?_
  · refine List.nodup_append.mpr ⟨hl.1, (List.nodup_append.mp hw.1).2.1, ?_⟩
    rintro a ha b hb rfl
    have hin := (hl.2 a).mp ha
    rw [hgranted a hb] at hin
    cases hin
  · rw [List.mem_append, hl.2 i]
    constructor
    · intro hi
      cases ht : w.tasks[i]? with
      | none =>
        have hnone : w.seat i = .none := by simp [seat, run?, ht]
        rcases hi with hi | hi
        · rw [hnone] at hi
          cases hi
        · have := hgranted i hi
          rw [hnone] at this
          cases this
      | some t =>
        have hr : w.run? i = some t.run := by simp [run?, ht]
        refine ⟨t, rfl, ?_⟩
        rw [hasSlot, Bool.or_eq_true, decide_eq_true_eq, h.number_eq h0 hr]
        rw [seat_of_run? hr, Run.seat_eq_inSlot_iff] at hi
        exact hi
    · rintro ⟨t, ht, hs⟩
      have hr : w.run? i = some t.run := by simp [run?, ht]
      rw [hasSlot, Bool.or_eq_true, decide_eq_true_eq, h.number_eq h0 hr] at hs
      rw [seat_of_run? hr, Run.seat_eq_inSlot_iff]
      exact hs

/-- The slots of a worker that has `m` of them, and what its runs do with them. -/
structure Bounded (m : Nat) (w : Worker) : Prop where
  /-- Each slot is free or has its run. -/
  counted : w.availableSlots + w.occupied = m
  /-- Nobody waits while a slot is free. -/
  busy : w.shared.slots.waiting ≠ [] → w.availableSlots = 0
  /-- A run that claims its marker takes a slot in that step, and goes on there exactly if it wins. -/
  claims : ∀ i r now e won, w.run? i = some r → ⟨i, r.name, .claim won⟩ ∈ w.deeds now (.run i e) →
    ∃ b slots r', Run.Admitted w.shared r (r.heeded e) b slots ∧
      (w.heed now (.run i e)).run? i = some r' ∧ r'.holdsSlot = won ∧
      (w.heed now (.run i e)).shared.slots = if won then slots else slots.leave
  /-- A run that changes a file is in a slot. -/
  files : ∀ i r now e, w.run? i = some r →
    (w.heed now (.run i e)).shared.disk ≠ w.shared.disk → r.holdsSlot = true
  /-- A run that asks the runtime for anything but a removal is in a slot. -/
  calls : ∀ i r ask, w.run? i = some r → r.call? w.setup = some (.container ask) →
    (∀ n, ask ≠ .remove n) → r.holdsSlot = true
  /-- Once all runs are over all slots are free. -/
  restored : (∀ i r, w.run? i = some r → r.isOver = true) → w.availableSlots = m

/-- **Slots are bounded and none is lost**, whatever the runs do and however they end. -/
theorem History.bounded (h : History P w₀ now log w) (h0 : w₀.tasks = [])
    (hm : w₀.shared.slots = ⟨m, [], []⟩) : Bounded m w := by
  have ha := h.allotted h0 hm
  obtain ⟨holders, hl, hcount⟩ := ha.held
  have hunused : w.shared.slots.unused = w.availableSlots + w.shared.slots.granted.length := rfl
  refine ⟨?_, ha.busy, ?_, ?_, fun i r ask hr => Run.holdsSlot_of_asks, ?_⟩
  · rw [h.occupied_eq h0 hl ha.line, List.length_append]
    omega
  · intro i r now' e won hr hc
    have hmove := h.move h0 hr now' e
    cases ho : r.isOver with
    | true =>
      rw [(heed_over hr ho now' e).2] at hc
      cases hc
    | false =>
      obtain ⟨hs, hw, hd⟩ := heed_run hr ho now' e
      rw [hd] at hc
      obtain ⟨d, hd', hx⟩ := List.mem_map.mp hc
      cases hx
      obtain ⟨b, slots, hadm, hhold, hslots⟩ := hmove.claims_in_slot (h.sound h0 hr) hd'
      exact ⟨b, slots, _, hadm, by rw [hw i, if_pos rfl], hhold, by rw [hs, hslots]⟩
  · intro i r now' e hr hne
    refine Bool.of_not_eq_false fun hh => hne ?_
    cases ho : r.isOver with
    | true => rw [(heed_over hr ho now' e).1]
    | false =>
      rw [(heed_run hr ho now' e).1]
      exact (h.move h0 hr now' e).disk_of_not_holdsSlot hh
  · intro hover
    have hnone : ∀ n, w.seat n = .none := by
      intro n
      cases hr : w.run? n with
      | none => simp [seat, hr]
      | some r => rw [seat_of_run? hr, Run.seat_of_isOver (hover n r hr)]
    -- Nobody is in a slot or in the line.
    have hholders : holders = [] := List.eq_nil_iff_forall_not_mem.mpr fun n hn => by
      have := (hl.2 n).mp hn
      rw [hnone n] at this
      cases this
    have hline : w.shared.slots.granted = [] := List.eq_nil_iff_forall_not_mem.mpr fun n hn => by
      have := (ha.line.2 n).mp (List.mem_append_right _ hn)
      rw [hnone n] at this
      cases this
    rw [hunused, hholders, hline] at hcount
    exact hcount

end Histories

/-- Three runs for two slots: the third waits, and is given the slot of the first when that is told to
stop. -/
def threeForTwo : List (Nat × Event) :=
  [(0, .spawn Run.sampleRequest true), (0, .spawn { Run.sampleRequest with containerName := "d" } true),
    (0, .spawn { Run.sampleRequest with containerName := "e" } true),
    (1, .run 0 (.configuration (.ok []))), (1, .run 1 (.configuration (.ok []))),
    (1, .run 2 (.configuration (.ok []))), (2, .run 0 .cancel)]

theorem sample_bounded :
    (Scheduled (fun _ _ => True) 0 sample threeForTwo ∧ sample.tasks = [] ∧
      sample.shared.slots = ⟨2, [], []⟩) ∧
    (play ([], sample) threeForTwo).2.shared.slots = ⟨0, [], [2]⟩ ∧
    Bounded 2 (play ([], sample) threeForTwo).2 := by
  have hs : Scheduled (fun _ _ => True) 0 sample threeForTwo := by decide
  exact ⟨⟨hs, rfl, rfl⟩, rfl, ((History.start 0).plays threeForTwo hs).bounded rfl rfl⟩

end Worker
end RunDispatch
