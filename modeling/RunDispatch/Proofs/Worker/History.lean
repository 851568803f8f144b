/-
# The history of a worker

A history is what happened to a worker from its first run on: requests are taken, runs take their steps
in any order, are told to stop or given up, and markers and files are tidied up, at times that do not
go back. It tells what the runs did, and the worker that came of it.

A worker changes in one of two ways. Either one of its runs takes a step, or no run does anything: runs
may be spawned or told to stop, and expired markers or files be removed. A run of a history takes its
own course through it.

Key definitions: `Event`, `heed`, `Entry`, `deeds`, `History`, `Change`, `deedsOf`,
`Tracked`.
Key theorems: `heed_of_isQuiet`, `heed_change`, `History.along`, `History.course`, `History.move`.
-/
import RunDispatch.Proofs.Marker
import RunDispatch.Proofs.Run.Course
import RunDispatch.Worker

namespace RunDispatch
namespace Worker

/-- What can happen to a worker. -/
inductive Event where
  | recordStart (q : Request)
  | spawn (q : Request) (submitted : Bool)
  | run (number : Nat) (e : Run.Event)
  | tellToStop (number : Nat)
  | forget (number : Nat)
  | beginShutdown
  | evict
  | cleanup (id : Connector.Id)

/-- The worker after something happened to it. -/
def heed (w : Worker) (now : Nat) : Event → Worker
  | .recordStart q => w.recordStart now q
  | .spawn q submitted => (w.spawn q submitted).1
  | .run number e => (w.deliver now number e).1
  | .tellToStop number => w.tellToStop number
  | .forget number => w.forget number
  | .beginShutdown => w.beginShutdown
  | .evict => w.evict now
  | .cleanup id => (w.cleanup id).1

/-- Something that a run of a worker did: which run, under which name, and what. -/
structure Entry where
  run : Nat
  name : String
  deed : Run.Deed

/-- What a run does when something happens to the worker. -/
def deeds (w : Worker) (now : Nat) : Event → List Entry
  | .run number e =>
    match w.run? number with
    | none => []
    | some r =>
      if r.isOver then []
      else (r.deeds w.setup (r.heeded e) (r.step w.setup now w.shared e).1.2).map
        fun d => ⟨number, r.name, d⟩
  | _ => []

/-- The histories of a worker, all of whose later states have a property: the time, what the runs have
done, and the worker. -/
inductive History (P : Nat → Worker → Prop) (w₀ : Worker) : Nat → List Entry → Worker → Prop
  | start (now : Nat) : History P w₀ now [] w₀
  | step {now now' : Nat} {log : List Entry} {w : Worker} (h : History P w₀ now log w)
      (ht : now ≤ now') (e : Event) (hP : P now' (w.heed now' e)) :
      History P w₀ now' (log ++ w.deeds now' e) (w.heed now' e)

/-- A worker after events at their times, and what its runs have done then. -/
def play : List Entry × Worker → List (Nat × Event) → List Entry × Worker :=
  List.foldl fun (log, w) (now, e) => (log ++ w.deeds now e, w.heed now e)

/-- Whether events come one after another, and each leads to a worker that has a property. -/
def Scheduled (P : Nat → Worker → Prop) : Nat → Worker → List (Nat × Event) → Prop
  | _, _, [] => True
  | now, w, (now', e) :: rest =>
    now ≤ now' ∧ P now' (w.heed now' e) ∧ Scheduled P now' (w.heed now' e) rest

instance Scheduled.decidable (P : Nat → Worker → Prop) [∀ now w, Decidable (P now w)] :
    ∀ (now : Nat) (w : Worker) (events : List (Nat × Event)), Decidable (Scheduled P now w events)
  | _, _, [] => .isTrue trivial
  | now, w, (now', e) :: rest =>
    have := Scheduled.decidable P now' (w.heed now' e) rest
    inferInstanceAs (Decidable (now ≤ now' ∧ P now' (w.heed now' e) ∧ _))

theorem History.play {P : Nat → Worker → Prop} {w₀ : Worker} (events : List (Nat × Event))
    {now : Nat} {log : List Entry} {w : Worker} (h : History P w₀ now log w)
    (hs : Scheduled P now w events) :
    ∃ now', History P w₀ now' (Worker.play (log, w) events).1 (Worker.play (log, w) events).2 := by
  induction events generalizing now log w with
  | nil => exact ⟨now, h⟩
  | cons event rest ih => exact ih (h.step hs.1 event.2 hs.2.1) hs.2.2

/-- The time of the last of some events, or the time before them. -/
def clock : Nat → List (Nat × Event) → Nat
  | now, [] => now
  | _, (now, _) :: rest => clock now rest

/-- The history of a worker that is played goes on from the time of the last event. -/
theorem History.plays {P : Nat → Worker → Prop} {w₀ : Worker} (events : List (Nat × Event))
    {now : Nat} {log : List Entry} {w : Worker} (h : History P w₀ now log w)
    (hs : Scheduled P now w events) :
    History P w₀ (clock now events) (Worker.play (log, w) events).1
      (Worker.play (log, w) events).2 := by
  induction events generalizing now log w with
  | nil => exact h
  | cons event rest ih => exact ih (h.step hs.1 event.2 hs.2.1) hs.2.2

def sample : Worker := ⟨Run.sampleSetup, Run.sampleShared, .empty, [], false⟩

def deedsOf (number : Nat) (log : List Entry) : List Run.Deed :=
  (log.filter fun e => e.run = number).map (·.deed)

/-! ### Changes -/

/-- What may become of a run of a number when no run takes a step: it stays, is told to stop, or is
spawned. -/
inductive Rests (number : Nat) : Option Run → Option Run → Prop
  | stays (r : Option Run) : Rests number r r
  | told (r : Run) : Rests number (some r) (some { r with cancelled := true })
  | spawned (q : Request) (cancelled : Bool) :
      Rests number none (some { Run.start number q with cancelled })

/-- How a worker changes: a run takes a step, or none does. -/
inductive Change (now : Nat) (w w' : Worker) : List Entry → Prop
  | acts (number : Nat) (r : Run) (e : Run.Event) (hr : w.run? number = some r)
      (ho : r.isOver = false) (hs : w'.shared = (r.step w.setup now w.shared e).1.1)
      (hw : ∀ i, w'.run? i =
        if i = number then some (r.step w.setup now w.shared e).1.2 else w.run? i) :
      Change now w w'
        ((r.deeds w.setup (r.heeded e) (r.step w.setup now w.shared e).1.2).map
          fun d => ⟨number, r.name, d⟩)
  | rests (hw : ∀ i, Rests i (w.run? i) (w'.run? i))
      (hm : w'.shared.markers = w.shared.markers ∨
        w'.shared.markers = (w.shared.markers.evict now).2)
      (hs : w'.shared.slots = w.shared.slots) :
      Change now w w' []

section Steps

variable {w : Worker} {now : Nat}

theorem run?_of_tasks {w w' : Worker} (h : w'.tasks = w.tasks) (i : Nat) : w'.run? i = w.run? i := by
  simp [run?, h]

theorem run?_set (w : Worker) {number : Nat} {t : Task} (ht : w.tasks[number]? = some t) (u : Task)
    (i : Nat) {w' : Worker} (hw : w'.tasks = w.tasks.set number u) :
    w'.run? i = if i = number then some u.run else w.run? i := by
  simp only [run?, hw, List.getElem?_set]
  by_cases hi : number = i
  · subst hi
    have := (List.getElem?_eq_some_iff.mp ht).1
    simp [this]
  · rw [if_neg hi, if_neg fun h => hi h.symm]

theorem Change.nothing {w w' : Worker} (hw : w'.tasks = w.tasks)
    (hm : w'.shared.markers = w.shared.markers) (hs : w'.shared.slots = w.shared.slots) :
    Change now w w' [] := by
  refine .rests (fun i => ?_) (.inl hm) hs
  rw [run?_of_tasks hw]
  exact .stays _

theorem task_of_run? {w : Worker} {i : Nat} {r : Run} (h : w.run? i = some r) :
    ∃ t, w.tasks[i]? = some t ∧ t.run = r :=
  Option.map_eq_some_iff.mp h

/-- Nothing happens to a run that is over. -/
theorem heed_over {number : Nat} {r : Run} (hr : w.run? number = some r) (ho : r.isOver = true)
    (now : Nat) (e : Run.Event) :
    w.heed now (.run number e) = w ∧ w.deeds now (.run number e) = [] := by
  obtain ⟨t, ht, rfl⟩ := task_of_run? hr
  exact ⟨by simp [heed, deliver, ht, ho], by simp [deeds, hr, ho]⟩

/-- What happens to any other run is a step of that run. -/
theorem heed_run {number : Nat} {r : Run} (hr : w.run? number = some r) (ho : r.isOver = false)
    (now : Nat) (e : Run.Event) :
    (w.heed now (.run number e)).shared = (r.step w.setup now w.shared e).1.1 ∧
    (∀ i, (w.heed now (.run number e)).run? i =
      if i = number then some (r.step w.setup now w.shared e).1.2 else w.run? i) ∧
    w.deeds now (.run number e) =
      (r.deeds w.setup (r.heeded e) (r.step w.setup now w.shared e).1.2).map
        fun d => ⟨number, r.name, d⟩ := by
  obtain ⟨t, ht, rfl⟩ := task_of_run? hr
  refine ⟨by simp [heed, deliver, ht, ho], fun i => ?_, by simp [deeds, hr, ho]⟩
  exact run?_set w ht { t with run := (t.run.step w.setup now w.shared e).1.2 } i
    (by simp [heed, deliver, ht, ho])

theorem deliver_change (w : Worker) (now number : Nat) (e : Run.Event) :
    Change now w (w.heed now (.run number e)) (w.deeds now (.run number e)) := by
  cases hr : w.run? number with
  | none =>
    have ht : w.tasks[number]? = none := by simpa [run?] using hr
    have hd : w.deeds now (.run number e) = [] := by simp [deeds, hr]
    have hw : w.heed now (.run number e) = w := by simp [heed, deliver, ht]
    rw [hd, hw]
    exact .nothing rfl rfl rfl
  | some r =>
    cases ho : r.isOver with
    | true =>
      obtain ⟨hw, hd⟩ := heed_over hr ho now e
      rw [hd, hw]
      exact .nothing rfl rfl rfl
    | false =>
      obtain ⟨hs, hw, hd⟩ := heed_run hr ho now e
      rw [hd]
      exact .acts number r e hr ho hs hw

theorem spawn_change (w : Worker) (now : Nat) (q : Request) (submitted : Bool) :
    Change now w (w.spawn q submitted).1 [] := by
  refine .rests (fun i => ?_) (.inl rfl) rfl
  simp only [spawn, run?]
  rcases Nat.lt_trichotomy i w.tasks.length with hi | rfl | hi
  · rw [List.getElem?_append_left hi]
    exact .stays _
  · simp only [List.getElem?_concat_length, List.getElem?_eq_none (Nat.le_refl _)]
    exact .spawned q _
  · have hl : ∀ t : Task, (w.tasks ++ [t]).length ≤ i := by
      intro t
      rw [List.length_append, List.length_singleton]
      omega
    rw [List.getElem?_eq_none (hl _), List.getElem?_eq_none (by omega)]
    exact .stays _

/-- A worker one of whose tasks is replaced by one of the same run, told to stop or not. -/
theorem Change.retold {w w' : Worker} {number : Nat} {t u : Task} (ht : w.tasks[number]? = some t)
    (hu : u.run = t.run ∨ u.run = { t.run with cancelled := true })
    (hw : w'.tasks = w.tasks.set number u) (hs : w'.shared = w.shared) : Change now w w' [] := by
  refine .rests (fun i => ?_) (.inl (congrArg Run.Shared.markers hs)) (congrArg Run.Shared.slots hs)
  rw [run?_set w ht u i hw]
  split
  · rename_i hi
    subst hi
    have hr : w.run? i = some t.run := by simp [run?, ht]
    rw [hr]
    rcases hu with hu | hu <;> rw [hu]
    · exact .stays _
    · exact .told _
  · exact .stays _

/-- A cleanup touches nothing but files. -/
theorem heed_cleanup (w : Worker) (now : Nat) (id : Connector.Id) :
    ∃ disk, w.heed now (.cleanup id) = { w with shared.disk := disk } := by
  simp only [heed, cleanup]
  split <;> exact ⟨_, rfl⟩

/-- Whether something that happens is no step of a run, no call on the registry and no shutdown. -/
def Event.isQuiet : Event → Bool
  | .tellToStop _ | .forget _ | .cleanup _ => true
  | _ => false

theorem heed_of_isQuiet (w : Worker) (now : Nat) {e : Event} (he : e.isQuiet = true) :
    ∃ tasks shared, w.heed now e = { w with tasks, shared } := by
  cases e with
  | tellToStop number =>
    simp only [heed, tellToStop]
    split <;> exact ⟨_, _, rfl⟩
  | forget number =>
    simp only [heed, forget]
    split <;> exact ⟨_, _, rfl⟩
  | cleanup id =>
    obtain ⟨disk, hw⟩ := heed_cleanup w now id
    exact ⟨_, _, hw⟩
  | recordStart | spawn | run | beginShutdown | evict => cases he

/-- **Every change is one of the two.** -/
theorem heed_change (w : Worker) (now : Nat) (e : Event) :
    Change now w (w.heed now e) (w.deeds now e) := by
  cases e with
  | recordStart q => exact .nothing rfl rfl rfl
  | spawn q submitted => exact spawn_change w now q submitted
  | run number e => exact deliver_change w now number e
  | tellToStop number =>
    simp only [heed, deeds, tellToStop]
    split
    · exact .nothing rfl rfl rfl
    · rename_i t ht
      exact .retold ht (.inr rfl) rfl rfl
  | forget number =>
    simp only [heed, deeds, forget]
    split
    · exact .nothing rfl rfl rfl
    · rename_i t ht
      exact Change.retold (u := { t with watched := false }) ht (.inl rfl) rfl rfl
  | beginShutdown =>
    refine .rests (fun i => ?_) (.inl rfl) rfl
    simp only [heed, beginShutdown, run?, List.getElem?_map]
    cases w.tasks[i]? with
    | none => exact .stays _
    | some t =>
      simp only [Option.map_some]
      split
      · exact .told _
      · exact .stays _
  | evict =>
    refine .rests (fun i => ?_) (.inr rfl) rfl
    exact .stays _
  | cleanup id =>
    obtain ⟨disk, hw⟩ := heed_cleanup w now id
    rw [hw]
    exact .nothing rfl rfl rfl

/-- A run stays in its place, with its request. -/
theorem Change.keeps {w' : Worker} {entries : List Entry} (hc : Change now w w' entries)
    (hs : ∀ i r, w.run? i = some r → r.Sound w.setup) {i : Nat} {r : Run} (hr : w.run? i = some r) :
    ∃ r', w'.run? i = some r' ∧ r'.request = r.request := by
  cases hc with
  | acts number t e ht _ _ hw =>
    by_cases hi : i = number
    · subst hi
      rw [hr] at ht
      cases ht
      exact ⟨_, by rw [hw i, if_pos rfl], (Run.step_move (hs i r hr) e).same.2⟩
    · exact ⟨r, by rw [hw i, if_neg hi, hr], rfl⟩
  | rests hw _ =>
    have hwi := hw i
    rw [hr] at hwi
    generalize w'.run? i = after at hwi ⊢
    cases hwi with
    | stays => exact ⟨r, rfl, rfl⟩
    | told => exact ⟨_, rfl, rfl⟩

theorem heed_setup (w : Worker) (now : Nat) (e : Event) : (w.heed now e).setup = w.setup := by
  cases hq : e.isQuiet with
  | true =>
    obtain ⟨_, _, hw⟩ := heed_of_isQuiet w now hq
    rw [hw]
  | false =>
    cases e with
    | run number e =>
      simp only [heed, deliver]
      split
      · rfl
      · split <;> rfl
    | recordStart | spawn | beginShutdown | evict => rfl
    | tellToStop | forget | cleanup => cases hq

end Steps

/-! ### The course of a run in a history -/

/-- Others may do anything. -/
def anything (_ _ : Run.Shared) : Prop := True

theorem deedsOf_append (number : Nat) (a b : List Entry) :
    deedsOf number (a ++ b) = deedsOf number a ++ deedsOf number b := by
  simp [deedsOf]

theorem deedsOf_map (number i : Nat) (name : String) (l : List Run.Deed) :
    deedsOf i (l.map fun d => ⟨number, name, d⟩) = if i = number then l else [] := by
  unfold deedsOf
  rw [List.filter_map, List.map_map]
  by_cases hi : i = number
  · subst hi
    simp [Function.comp_def]
  · have hi' : number ≠ i := fun h => hi h.symm
    simp [hi, hi', Function.comp_def]

section Histories

variable {P : Nat → Worker → Prop} {w₀ w : Worker} {now : Nat} {log : List Entry}

theorem History.setup_eq (h : History P w₀ now log w) : w.setup = w₀.setup := by
  induction h with
  | start => rfl
  | step _ _ e _ ih => exact (heed_setup _ _ e).trans ih

/-- What holds before the first run, and is kept by every change, holds after every history. -/
theorem History.along (h : History P w₀ now log w) {C : Nat → List Entry → Worker → Prop}
    (hstart : ∀ now, C now [] w₀)
    (hstep : ∀ now now' log w w' entries, History P w₀ now log w → now ≤ now' → P now' w' →
      w'.setup = w.setup → Change now' w w' entries → C now log w → C now' (log ++ entries) w') :
    C now log w := by
  induction h with
  | start now => exact hstart now
  | step h ht e hP ih =>
    exact hstep _ _ _ _ _ _ h ht hP (heed_setup _ _ e) (heed_change _ _ e) ih

/-- A run of a number has taken its course, or has not been spawned and has done nothing. -/
inductive Tracked (setup : Run.Setup) (i : Nat) (s : Run.Shared) :
    List Run.Deed → Option Run → Prop
  | absent : Tracked setup i s [] none
  | present {l : List Run.Deed} {r : Run} {s₀ : Run.Shared}
      (h : Run.Course setup anything i r.request s₀ l s r) : Tracked setup i s l (some r)

theorem Tracked.meanwhile {setup : Run.Setup} {i : Nat} {s : Run.Shared} {l : List Run.Deed}
    {r : Option Run} (h : Tracked setup i s l r) (s' : Run.Shared) : Tracked setup i s' l r := by
  cases h with
  | absent => exact .absent
  | present h => exact .present (h.meanwhile trivial)

/-- **A run of a history takes its own course.** -/
theorem History.tracked (h : History P w₀ now log w) (h0 : w₀.tasks = []) (i : Nat) :
    Tracked w₀.setup i w.shared (deedsOf i log) (w.run? i) := by
  refine h.along (C := fun _ log w => Tracked w₀.setup i w.shared (deedsOf i log) (w.run? i))
    (fun _ => ?_) ?_
  · have hr : w₀.run? i = none := by simp [run?, h0]
    rw [hr]
    exact .absent
  · intro now now' log w w' entries h _ _ _ hc ih
    rw [deedsOf_append]
    generalize deedsOf i log = l at ih ⊢
    cases hc with
    | acts number r e hr ho hs hw =>
      rw [deedsOf_map, hw i, hs, h.setup_eq]
      by_cases hi : i = number
      · subst hi
        rw [if_pos rfl, if_pos rfl]
        rw [hr] at ih
        cases ih with
        | present hco =>
          have hco := hco.step now' e
          rw [← hco.same.2] at hco
          exact .present hco
      · rw [if_neg hi, if_neg hi, List.append_nil]
        exact ih.meanwhile _
    | rests hw hm =>
      have hd : deedsOf i [] = [] := rfl
      rw [hd, List.append_nil]
      have hwi := hw i
      generalize w.run? i = before at ih hwi
      generalize w'.run? i = after at hwi
      cases hwi with
      | stays => exact ih.meanwhile _
      | told r =>
        cases ih with
        | present hco => exact .present (hco.told.meanwhile trivial)
      | spawned q cancelled =>
        cases ih with
        | absent =>
          have hco : Run.Course w₀.setup anything i q w'.shared [] w'.shared (.start i q) := .start
          cases cancelled with
          | false => exact .present hco
          | true => exact .present hco.told

theorem History.course (h : History P w₀ now log w) (h0 : w₀.tasks = []) {i : Nat} {r : Run}
    (hr : w.run? i = some r) :
    ∃ s₀, Run.Course w₀.setup anything i r.request s₀ (deedsOf i log) w.shared r := by
  have ht := h.tracked h0 i
  rw [hr] at ht
  generalize deedsOf i log = l at ht ⊢
  cases ht with
  | present hco => exact ⟨_, hco⟩

theorem History.sound (h : History P w₀ now log w) (h0 : w₀.tasks = []) {i : Nat} {r : Run}
    (hr : w.run? i = some r) : r.Sound w.setup := by
  obtain ⟨s₀, hco⟩ := h.course h0 hr
  rw [h.setup_eq]
  exact hco.sound

theorem History.move (h : History P w₀ now log w) (h0 : w₀.tasks = []) {i : Nat} {r : Run}
    (hr : w.run? i = some r) (now' : Nat) (e : Run.Event) :
    Run.Move w.setup now' w.shared r (r.heeded e) (r.step w.setup now' w.shared e).1.1
      (r.step w.setup now' w.shared e).1.2 :=
  Run.step_move (h.sound h0 hr) e

end Histories

end Worker
end RunDispatch
